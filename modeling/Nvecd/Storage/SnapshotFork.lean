/-
  File:      Nvecd/Storage/SnapshotFork.lean
  Subject:   `ForkSnapshotWriter` (`storage/snapshot_fork.cpp`): the status machine of background
             snapshots, run by any number of threads.

  `StartBackgroundSave` and `CheckChild` are cut at the places where another thread can run
  between: the critical sections of `status_mutex_`, the capture of the WAL sequence, `fork`,
  `waitpid`, the checkpoint sidecar, the truncation. The operating system's processes are part
  of the state, with the exit status each of them will be reaped with.

  * `forkStep` -- one section of one thread, or one child exiting;
  * `ForkInv`, `forkInv_step` -- at most one thread owns the save in progress, and what it knows
    about the children;
  * `fork_status_machine` -- the properties of every run that meets `forkOk`;
  * `late_section_hits_next_save` -- what happens without it: `waitpid` runs outside the mutex,
    so a call may be overtaken between its reap and its second section.

  The times of a `SnapshotResult` are written and never read; they are left out.
-/
import Mathlib.Data.List.Basic
import Mathlib.Logic.Function.Basic
import Nvecd.Lib.Machine
import Nvecd.Utils.Error

namespace Nvecd.Storage

open Nvecd.Lib Nvecd.Utils

/-! ## 1. Results, children and threads -/

inductive SnapshotStatus where
  | kIdle
  | kInProgress
  | kCompleted
  | kFailed
  deriving DecidableEq, Repr

structure SnapshotResult where
  status : SnapshotStatus := .kIdle
  filepath : String := ""
  errorMessage : String := ""
  /-- `none` stands for `-1`. -/
  childPid : Option Nat := none
  walSequence : Nat := 0
  deriving DecidableEq, Repr

/-- How a process ended: `WIFEXITED` or `WIFSIGNALED`. -/
inductive ExitStatus where
  | exited (code : Nat)
  | signaled (sig : Nat)
  deriving DecidableEq, Repr

def kChildExitSuccess : Nat := 0

inductive ChildState where
  | running
  | zombie (status : ExitStatus)
  | reaped (status : ExitStatus)
  deriving DecidableEq, Repr

/-- A forked child: what it writes, the WAL sequence captured for it, and the save it belongs
    to. -/
structure Child where
  pid : Nat
  filepath : String
  walSequence : Nat
  generation : Nat
  state : ChildState
  deriving DecidableEq, Repr

def Child.isReaped (c : Child) : Bool :=
  match c.state with
  | .reaped _ => true
  | _ => false

/-- The child exited with success, reaped or not. -/
def Child.Succeeded (c : Child) : Prop :=
  c.state = .zombie (.exited kChildExitSuccess) ∨ c.state = .reaped (.exited kChildExitSuccess)

/-- What `waitpid(pid, WNOHANG)` returned. -/
inductive WaitOutcome where
  | running
  | collected (status : ExitStatus)
  | echild
  | failed (message : String)
  deriving DecidableEq, Repr

/-- Where a thread stands in its call. A `CheckChild` that is past its `waitpid` carries the
    number of the save that was current then. -/
inductive ForkPc where
  | idle
  | reserved (filepath : String)
  | captured (filepath : String) (walSequence : Nat)
  | forked (pid walSequence : Nat)
  | forkFailed (message : String)
  | readPid (pid : Nat)
  | waited (outcome : WaitOutcome) (generation : Nat)
  | checkpoint (filepath : String) (walSequence generation : Nat)
  | truncate (walSequence generation : Nat)
  | fail (message : String) (generation : Nat)
  deriving DecidableEq, Repr

/-- The thread owns the save in progress: nobody else may change its result. -/
def ForkPc.owns : ForkPc → Prop
  | .reserved _ => True
  | .captured _ _ => True
  | .forked _ _ => True
  | .forkFailed _ => True
  | .waited _ _ => True
  | _ => False

structure ForkState where
  walEnabled : Bool
  result : SnapshotResult := {}
  children : List Child := []
  pc : Nat → ForkPc := fun _ => .idle
  /-- The saves reserved so far. -/
  generation : Nat := 0
  /-- The checkpoint sidecars written so far. -/
  sidecars : List (String × Nat) := []

inductive ForkAction where
  | start (t : Nat) (filepath : String)
  | capture (t currentSequence : Nat)
  /-- `fork` returns a pid no unreaped process has, or fails. -/
  | fork (t : Nat) (pid : Except String Nat)
  | publish (t : Nat)
  | childExit (pid : Nat) (status : ExitStatus)
  | check (t : Nat)
  | waitpid (t : Nat)
  | finish (t : Nat)
  | writeCheckpoint (t : Nat) (error : Option String)
  | truncateWal (t : Nat) (error : Option String)
  | setFailed (t : Nat)

/-! ## 2. The sections -/

/-- The reservation of `StartBackgroundSave`. -/
def reserve (filepath : String) : SnapshotResult :=
  { status := .kInProgress
    filepath := filepath
    errorMessage := ""
    childPid := none
    walSequence := 0 }

/-- The second critical section of `CheckChild`. -/
def finishResult (outcome : WaitOutcome) (r : SnapshotResult) : SnapshotResult :=
  match outcome with
  | .running => r
  | .echild =>
    { r with
      status := .kFailed
      errorMessage := "Snapshot child ownership lost before exit status was collected" }
  | .failed message => { r with status := .kFailed, errorMessage := "waitpid failed: " ++ message }
  | .collected (.exited code) =>
    if code = kChildExitSuccess then { r with status := .kCompleted }
    else { r with status := .kFailed, errorMessage := "Child exited with code " ++ toString code }
  | .collected (.signaled sig) =>
    { r with status := .kFailed, errorMessage := "Child killed by signal " ++ toString sig }

/-- A running child ends. -/
def Child.exit (pid : Nat) (status : ExitStatus) (c : Child) : Child :=
  if c.pid = pid ∧ c.state = .running then { c with state := .zombie status } else c

/-- A zombie is collected. -/
def Child.reap (pid : Nat) (c : Child) : Child :=
  match c.state with
  | .zombie status => if c.pid = pid then { c with state := .reaped status } else c
  | _ => c

/-- The operating system's answer to `waitpid(pid, WNOHANG)`. -/
def waitOutcome (children : List Child) (pid : Nat) : WaitOutcome :=
  match children.find? fun c => c.pid == pid && !c.isReaped with
  | none => .echild
  | some c =>
    match c.state with
    | .running => .running
    | .zombie status => .collected status
    | .reaped _ => .echild

namespace ForkState

def goto (s : ForkState) (t : Nat) (pc : ForkPc) : ForkState :=
  { s with pc := Function.update s.pc t pc }

/-- Behind the second section of `CheckChild`: a completed save gets its checkpoint. -/
def afterFinish (s : ForkState) (t generation : Nat) : ForkState :=
  if s.result.status = .kCompleted ∧ s.walEnabled then
    s.goto t (.checkpoint s.result.filepath s.result.walSequence generation)
  else s.goto t .idle

end ForkState

/-- **One step**: a section of a thread's call, or a child exiting. -/
def forkStep (s : ForkState) : ForkAction → Option ForkState
  | .start t filepath =>
    match s.pc t with
    | .idle =>
      if s.result.status = .kInProgress then some s
      else
        some ({ s with result := reserve filepath, generation := s.generation + 1 }.goto t
          (.reserved filepath))
    | _ => none
  | .capture t currentSequence =>
    match s.pc t with
    | .reserved filepath =>
      some (s.goto t (.captured filepath (if s.walEnabled then currentSequence else 0)))
    | _ => none
  | .fork t pid =>
    match s.pc t, pid with
    | .captured _ _, .error message => some (s.goto t (.forkFailed ("fork() failed: " ++ message)))
    | .captured filepath walSequence, .ok pid =>
      if s.children.any fun c => c.pid == pid && !c.isReaped then none
      else
        some ({ s with children :=
          ⟨pid, filepath, walSequence, s.generation, .running⟩ :: s.children }.goto t
            (.forked pid walSequence))
    | _, _ => none
  | .publish t =>
    match s.pc t with
    | .forked pid walSequence =>
      some ({ s with result :=
        { s.result with childPid := some pid, walSequence := walSequence } }.goto t .idle)
    | .forkFailed message =>
      some ({ s with result :=
        { s.result with status := .kFailed, errorMessage := message } }.goto t .idle)
    | _ => none
  | .childExit pid status =>
    some { s with children := s.children.map (Child.exit pid status) }
  | .check t =>
    match s.pc t with
    | .idle =>
      match s.result.status, s.result.childPid with
      | .kInProgress, some pid => some (s.goto t (.readPid pid))
      | _, _ => some s
    | _ => none
  | .waitpid t =>
    match s.pc t with
    | .readPid pid =>
      match waitOutcome s.children pid with
      | .running => some (s.goto t .idle)
      | outcome =>
        some ({ s with children := s.children.map (Child.reap pid) }.goto t
          (.waited outcome s.generation))
    | _ => none
  | .finish t =>
    match s.pc t with
    | .waited outcome generation =>
      some ({ s with result := finishResult outcome s.result }.afterFinish t generation)
    | _ => none
  | .writeCheckpoint t error =>
    match s.pc t, error with
    | .checkpoint filepath walSequence generation, none =>
      some ({ s with sidecars := (filepath, walSequence) :: s.sidecars }.goto t
        (.truncate walSequence generation))
    | .checkpoint _ _ generation, some message =>
      some (s.goto t (.fail ("Failed to write WAL checkpoint: " ++ message) generation))
    | _, _ => none
  | .truncateWal t error =>
    match s.pc t, error with
    | .truncate _ _, none => some (s.goto t .idle)
    | .truncate _ generation, some message =>
      some (s.goto t (.fail ("Failed to truncate WAL: " ++ message) generation))
    | _, _ => none
  | .setFailed t =>
    match s.pc t with
    | .fail message _ =>
      some ({ s with result :=
        { s.result with status := .kFailed, errorMessage := message } }.goto t .idle)
    | _ => none

/-- **The steps that keep calls apart**: `waitpid` is called for the save still in progress,
    whose child nobody has reaped; and a failed checkpoint is reported while its save is still
    the last one. -/
def forkOk (s : ForkState) : ForkAction → Prop
  | .waitpid t =>
    match s.pc t with
    | .readPid pid => s.result.status = .kInProgress ∧ s.result.childPid = some pid ∧
        ∃ c ∈ s.children, c.pid = pid ∧ c.isReaped = false
    | _ => True
  | .setFailed t =>
    match s.pc t with
    | .fail _ generation => generation = s.generation
    | _ => True
  | _ => True

/-! ## 3. The invariant -/

/-- The messages `CheckChild` gives for a completed child whose checkpoint failed. -/
def CheckpointFailure (message : String) : Prop :=
  ∃ detail, message = "Failed to write WAL checkpoint: " ++ detail ∨
    message = "Failed to truncate WAL: " ++ detail

namespace ForkState

def AllReaped (s : ForkState) : Prop := ∀ c ∈ s.children, c.isReaped = true

/-- A save is reserved and not forked yet. -/
structure Reserved (s : ForkState) : Prop where
  status : s.result.status = .kInProgress
  childPid : s.result.childPid = none
  reaped : s.AllReaped
  generations : ∀ c ∈ s.children, c.generation < s.generation

/-- The child of the last save, beside which every other one is reaped. -/
def Current (s : ForkState) (c : Child) : Prop :=
  ∃ rest, s.children = c :: rest ∧ c.generation = s.generation ∧ ∀ d ∈ rest, d.isReaped = true

/-- A `CheckChild` of save `generation` has passed its second section. -/
def Settled (s : ForkState) (generation : Nat) : Prop :=
  generation ≤ s.generation ∧ (generation = s.generation → s.result.status ≠ .kInProgress)

/-- Some child wrote this file with this sequence and exited with success. -/
def Wrote (s : ForkState) (filepath : String) (walSequence : Nat) : Prop :=
  ∃ c ∈ s.children, c.filepath = filepath ∧ c.walSequence = walSequence ∧ c.Succeeded

/-- What a thread may rely on at each place of its call. -/
def PcInv (s : ForkState) : ForkPc → Prop
  | .idle => True
  | .readPid _ => True
  | .reserved filepath => s.Reserved ∧ s.result.filepath = filepath
  | .captured filepath _ => s.Reserved ∧ s.result.filepath = filepath
  | .forkFailed _ => s.Reserved
  | .forked pid walSequence => s.result.status = .kInProgress ∧ s.result.childPid = none ∧
      ∃ c, s.Current c ∧ c.pid = pid ∧ c.walSequence = walSequence ∧
        c.filepath = s.result.filepath ∧ c.isReaped = false
  | .waited outcome generation => s.result.status = .kInProgress ∧ generation = s.generation ∧
      ∃ c status, s.Current c ∧ c.state = .reaped status ∧ outcome = .collected status ∧
        c.filepath = s.result.filepath ∧ c.walSequence = s.result.walSequence
  | .checkpoint filepath walSequence generation =>
      s.Settled generation ∧ s.Wrote filepath walSequence
  | .truncate _ generation => s.Settled generation
  | .fail message generation => s.Settled generation ∧ CheckpointFailure message

/-- The state while no thread owns the save: its child runs, or there is no save. -/
structure Free (s : ForkState) : Prop where
  busy : s.result.status = .kInProgress → ∃ c, s.Current c ∧ s.result.childPid = some c.pid ∧
    c.filepath = s.result.filepath ∧ c.walSequence = s.result.walSequence ∧ c.isReaped = false
  settled : s.result.status ≠ .kInProgress → s.AllReaped

/-- Both look at the result, the children and the number of saves only. -/
theorem PcInv.congr {s s' : ForkState} (hr : s'.result = s.result)
    (hc : s'.children = s.children) (hg : s'.generation = s.generation) {pc : ForkPc}
    (h : s.PcInv pc) : s'.PcInv pc := by
  have hres : s.Reserved → s'.Reserved := fun hs =>
    ⟨hr ▸ hs.status, hr ▸ hs.childPid, by rw [AllReaped, hc]; exact hs.reaped,
      by rw [hc, hg]; exact hs.generations⟩
  cases pc with
  | idle => trivial
  | readPid pid => trivial
  | reserved f => exact ⟨hres h.1, hr ▸ h.2⟩
  | captured f q => exact ⟨hres h.1, hr ▸ h.2⟩
  | forkFailed m => exact hres h
  | forked pid q => simpa only [PcInv, Current, hr, hc, hg] using h
  | waited o g => simpa only [PcInv, Current, hr, hc, hg] using h
  | checkpoint f q g => simpa only [PcInv, Settled, Wrote, hr, hc, hg] using h
  | truncate q g => simpa only [PcInv, Settled, hr, hg] using h
  | fail m g => simpa only [PcInv, Settled, hr, hg] using h

/-- A thread that owns nothing keeps its knowledge while children evolve and saves follow. -/
theorem PcInv.mono {s s' : ForkState} {pc : ForkPc} (ho : ¬ pc.owns)
    (hw : ∀ f q, s.Wrote f q → s'.Wrote f q) (hset : ∀ g, s.Settled g → s'.Settled g)
    (h : s.PcInv pc) : s'.PcInv pc := by
  cases pc with
  | idle => trivial
  | readPid pid => trivial
  | checkpoint f q g => exact ⟨hset g h.1, hw f q h.2⟩
  | truncate q g => exact hset g h
  | fail m g => exact ⟨hset g h.1, h.2⟩
  | reserved f => exact absurd trivial ho
  | captured f q => exact absurd trivial ho
  | forkFailed m => exact absurd trivial ho
  | forked pid q => exact absurd trivial ho
  | waited o g => exact absurd trivial ho

end ForkState

/-- **The invariant**: one owner at most, and everyone's knowledge is right. -/
structure ForkInv (s : ForkState) : Prop where
  threads : ∀ t, s.PcInv (s.pc t)
  unique : ∀ t t', (s.pc t).owns → (s.pc t').owns → t = t'
  free : (∀ t, ¬ (s.pc t).owns) → s.Free
  ordered : s.children.Pairwise fun a b => b.generation < a.generation
  generations : ∀ c ∈ s.children, c.generation ≤ s.generation
  sidecars : ∀ p ∈ s.sidecars, s.Wrote p.1 p.2
  failed : ∀ c ∈ s.children, c.generation = s.generation → c.Succeeded →
    s.result.status = .kFailed → CheckpointFailure s.result.errorMessage

namespace ForkInv

variable {s s' : ForkState} {t : Nat}

theorem status_of_owns (h : ForkInv s) (ho : (s.pc t).owns) : s.result.status = .kInProgress := by
  have ht := h.threads t
  cases hpc : s.pc t with
  | reserved f => rw [hpc] at ht; exact ht.1.status
  | captured f q => rw [hpc] at ht; exact ht.1.status
  | forked pid q => rw [hpc] at ht; exact ht.1
  | forkFailed m => rw [hpc] at ht; exact ht.status
  | waited o g => rw [hpc] at ht; exact ht.1
  | idle => rw [hpc] at ho; exact ho.elim
  | readPid pid => rw [hpc] at ho; exact ho.elim
  | checkpoint f q g => rw [hpc] at ho; exact ho.elim
  | truncate q g => rw [hpc] at ho; exact ho.elim
  | fail m g => rw [hpc] at ho; exact ho.elim

theorem no_owner (h : ForkInv s) (hs : s.result.status ≠ .kInProgress) (t : Nat) :
    ¬ (s.pc t).owns := fun ho => hs (h.status_of_owns ho)

/-- A thread beside the owner owns nothing. -/
theorem others_idle (h : ForkInv s) (ho : (s.pc t).owns) {t' : Nat} (hne : t' ≠ t) :
    ¬ (s.pc t').owns := fun ho' => hne (h.unique t' t ho' ho)

/-- Thread `t` moves: what has to be shown of the state it leaves. -/
theorem goto {pc : ForkPc} (hpc : ∀ t', t' ≠ t → s'.PcInv (s'.pc t')) (hown : s'.PcInv pc)
    (huniq : ∀ t' t'', t' ≠ t → t'' ≠ t → (s'.pc t').owns → (s'.pc t'').owns → t' = t'')
    (hexcl : pc.owns → ∀ t', t' ≠ t → ¬ (s'.pc t').owns)
    (hfree : ¬ pc.owns → (∀ t', t' ≠ t → ¬ (s'.pc t').owns) → s'.Free)
    (hord : s'.children.Pairwise fun a b => b.generation < a.generation)
    (hgen : ∀ c ∈ s'.children, c.generation ≤ s'.generation)
    (hside : ∀ p ∈ s'.sidecars, s'.Wrote p.1 p.2)
    (hfail : ∀ c ∈ s'.children, c.generation = s'.generation → c.Succeeded →
      s'.result.status = .kFailed → CheckpointFailure s'.result.errorMessage) :
    ForkInv (s'.goto t pc) where
  threads := by
    intro t'
    by_cases he : t' = t
    · subst he
      simp only [ForkState.goto, Function.update_self]
      refine ForkState.PcInv.congr ?_ ?_ ?_ hown <;> rfl
    · simp only [ForkState.goto, Function.update_of_ne he]
      refine ForkState.PcInv.congr ?_ ?_ ?_ (hpc t' he) <;> rfl
  unique := by
    intro t' t'' h' h''
    by_cases he' : t' = t
    · by_cases he'' : t'' = t
      · rw [he', he'']
      · subst he'
        simp only [ForkState.goto, Function.update_self] at h'
        simp only [ForkState.goto, Function.update_of_ne he''] at h''
        exact absurd h'' (hexcl h' t'' he'')
    · simp only [ForkState.goto, Function.update_of_ne he'] at h'
      by_cases he'' : t'' = t
      · subst he''
        simp only [ForkState.goto, Function.update_self] at h''
        exact absurd h' (hexcl h'' t' he')
      · simp only [ForkState.goto, Function.update_of_ne he''] at h''
        exact huniq t' t'' he' he'' h' h''
  free := by
    intro hno
    have hpc' : ¬ pc.owns := by
      have := hno t
      simpa only [ForkState.goto, Function.update_self] using this
    have hothers : ∀ t', t' ≠ t → ¬ (s'.pc t').owns := by
      intro t' hne
      have := hno t'
      simpa only [ForkState.goto, Function.update_of_ne hne] using this
    exact ⟨(hfree hpc' hothers).busy, (hfree hpc' hothers).settled⟩
  ordered := hord
  generations := hgen
  sidecars := hside
  failed := hfail

/-- A step that only moves a thread from one place to another. -/
theorem move {pc : ForkPc} (h : ForkInv s) (hown : s.PcInv pc)
    (howns : pc.owns ↔ (s.pc t).owns) : ForkInv (s.goto t pc) := by
  refine goto (fun t' _ => h.threads t') hown (fun t' t'' _ _ => h.unique t' t'') ?_ ?_ h.ordered
    h.generations h.sidecars h.failed
  · exact fun ho t' hne => h.others_idle (howns.mp ho) hne
  · intro hno hothers
    refine h.free fun t' => ?_
    by_cases he : t' = t
    · rw [he]; exact fun ho => hno (howns.mpr ho)
    · exact hothers t' he

/-- A child that cannot be reaped twice: what `exit` and `reap` do to the list. -/
structure Evolves (f : Child → Child) : Prop where
  filepath : ∀ c, (f c).filepath = c.filepath
  walSequence : ∀ c, (f c).walSequence = c.walSequence
  generation : ∀ c, (f c).generation = c.generation
  pid : ∀ c, (f c).pid = c.pid
  reaped : ∀ c, c.isReaped = true → f c = c
  succeeded : ∀ c, c.Succeeded → (f c).Succeeded

theorem evolves_exit (pid : Nat) (status : ExitStatus) : Evolves (Child.exit pid status) := by
  refine ⟨fun c => ?_, fun c => ?_, fun c => ?_, fun c => ?_, fun c hc => ?_, fun c hc => ?_⟩
  · unfold Child.exit; split <;> rfl
  · unfold Child.exit; split <;> rfl
  · unfold Child.exit; split <;> rfl
  · unfold Child.exit; split <;> rfl
  · unfold Child.exit
    rw [if_neg]
    rintro ⟨-, hr⟩
    simp [Child.isReaped, hr] at hc
  · unfold Child.exit
    rw [if_neg]
    · exact hc
    · rintro ⟨-, hr⟩
      simp [Child.Succeeded, hr] at hc

theorem evolves_reap (pid : Nat) : Evolves (Child.reap pid) := by
  refine ⟨fun c => ?_, fun c => ?_, fun c => ?_, fun c => ?_, fun c hc => ?_, fun c hc => ?_⟩
  · unfold Child.reap; split <;> [split; skip] <;> rfl
  · unfold Child.reap; split <;> [split; skip] <;> rfl
  · unfold Child.reap; split <;> [split; skip] <;> rfl
  · unfold Child.reap; split <;> [split; skip] <;> rfl
  · unfold Child.reap
    split
    · rename_i hz
      simp [Child.isReaped, hz] at hc
    · rfl
  · unfold Child.reap
    split
    · rename_i st hz
      split
      · simp only [Child.Succeeded, hz, ChildState.zombie.injEq, reduceCtorEq, or_false] at hc
        exact .inr (by rw [hc])
      · exact hc
    · exact hc

theorem Evolves.wrote {f : Child → Child} (hf : Evolves f) (hc : s'.children = s.children.map f)
    {path : String} {q : Nat} (h : s.Wrote path q) : s'.Wrote path q := by
  obtain ⟨c, hmem, hp, hq, hs⟩ := h
  exact ⟨f c, hc ▸ List.mem_map_of_mem hmem, (hf.filepath c).trans hp, (hf.walSequence c).trans hq,
    hf.succeeded c hs⟩

theorem Evolves.allReaped {f : Child → Child} (hf : Evolves f)
    (hc : s'.children = s.children.map f) (h : s.AllReaped) : s'.AllReaped := by
  intro c hmem
  rw [hc] at hmem
  obtain ⟨d, hd, rfl⟩ := List.mem_map.mp hmem
  rw [hf.reaped d (h d hd)]
  exact h d hd

theorem Evolves.current {f : Child → Child} (hf : Evolves f) (hc : s'.children = s.children.map f)
    (hg : s'.generation = s.generation) {c : Child} (h : s.Current c) : s'.Current (f c) := by
  obtain ⟨rest, he, hgen, hrest⟩ := h
  refine ⟨rest, ?_, by rw [hf.generation, hg, hgen], hrest⟩
  rw [hc, he, List.map_cons]
  congr 1
  conv_rhs => rw [← List.map_id rest]
  exact List.map_congr_left fun d hd => hf.reaped d (hrest d hd)

theorem Evolves.ordered {f : Child → Child} (hf : Evolves f)
    {l : List Child} (h : l.Pairwise fun a b => b.generation < a.generation) :
    (l.map f).Pairwise fun a b => b.generation < a.generation := by
  rw [List.pairwise_map]
  exact h.imp fun hab => by rw [hf.generation, hf.generation]; exact hab

/-! ## 4. One step -/

theorem initial (walEnabled : Bool) : ForkInv { walEnabled := walEnabled } where
  threads := fun _ => trivial
  unique := fun _ _ h => h.elim
  free := fun _ => ⟨fun h => by simp at h, fun _ c hc => by cases hc⟩
  ordered := List.Pairwise.nil
  generations := fun c hc => by cases hc
  sidecars := fun p hp => by cases hp
  failed := fun c hc => by cases hc

theorem start (h : ForkInv s) {filepath : String} (hs : s.result.status ≠ .kInProgress) :
    ForkInv ({ s with result := reserve filepath, generation := s.generation + 1 }.goto t
      (.reserved filepath)) := by
  have hno := h.no_owner hs
  have hreaped := (h.free hno).settled hs
  refine goto (fun t' _ => ?_) ⟨⟨rfl, rfl, hreaped, fun c hc => Nat.lt_succ_of_le
    (h.generations c hc)⟩, rfl⟩ (fun t' _ _ _ ho => absurd ho (hno t'))
    (fun _ t' _ => hno t') (fun hn => absurd trivial hn) h.ordered
    (fun c hc => Nat.le_succ_of_le (h.generations c hc)) h.sidecars ?_
  · refine ForkState.PcInv.mono (s := s) (hno t') (fun _ _ hw => hw) (fun g hg => ?_) (h.threads t')
    exact ⟨Nat.le_succ_of_le hg.1, fun he => absurd hg.1 (by rw [he]; simp)⟩
  · intro c hc he
    have := h.generations c hc
    simp only at he
    omega

theorem fork (h : ForkInv s) {filepath : String} {walSequence pid : Nat}
    (hpc : s.pc t = .captured filepath walSequence) :
    ForkInv ({ s with children :=
      ⟨pid, filepath, walSequence, s.generation, .running⟩ :: s.children }.goto t
        (.forked pid walSequence)) := by
  have ht := h.threads t
  rw [hpc] at ht
  obtain ⟨hres, hpath⟩ := ht
  have hothers : ∀ t', t' ≠ t → ¬ (s.pc t').owns := fun t' hne =>
    h.others_idle (by rw [hpc]; trivial) hne
  have hcons : ∀ f q, s.Wrote f q → ForkState.Wrote { s with children :=
      ⟨pid, filepath, walSequence, s.generation, .running⟩ :: s.children } f q := by
    rintro f q ⟨c, hc, hw⟩
    exact ⟨c, List.mem_cons_of_mem _ hc, hw⟩
  refine goto (fun t' hne => ?_) ⟨hres.status, hres.childPid, _, ⟨_, rfl, rfl, hres.reaped⟩, rfl,
    rfl, hpath.symm, rfl⟩ (fun t' _ hne _ ho => absurd ho (hothers t' hne))
    (fun _ t' hne => hothers t' hne) (fun hn => absurd trivial hn) ?_ ?_
    (fun p hp => hcons _ _ (h.sidecars p hp)) ?_
  · exact ForkState.PcInv.mono (s := s) (hothers t' hne) hcons (fun g hg => hg) (h.threads t')
  · exact List.pairwise_cons.mpr ⟨hres.generations, h.ordered⟩
  · intro c hc
    rcases List.mem_cons.mp hc with rfl | hc
    · exact Nat.le_refl _
    · exact h.generations c hc
  · intro c hc _ _ hfail
    have hst := hres.status
    simp only at hfail
    rw [hst] at hfail
    cases hfail

theorem publish (h : ForkInv s) {pid walSequence : Nat} (hpc : s.pc t = .forked pid walSequence) :
    ForkInv ({ s with result :=
      { s.result with childPid := some pid, walSequence := walSequence } }.goto t .idle) := by
  have ht := h.threads t
  rw [hpc] at ht
  obtain ⟨hst, -, c, hcur, hpid, hq, hf, hreaped⟩ := ht
  have hothers : ∀ t', t' ≠ t → ¬ (s.pc t').owns := fun t' hne =>
    h.others_idle (by rw [hpc]; trivial) hne
  refine goto (fun t' hne => ForkState.PcInv.mono (s := s) (hothers t' hne) (fun _ _ hw => hw)
    (fun g hg => hg) (h.threads t')) trivial (fun t' _ hne _ ho => absurd ho (hothers t' hne))
    (fun ho => ho.elim) (fun _ _ => ⟨fun _ => ?_, fun hne => absurd hst hne⟩) h.ordered
    h.generations h.sidecars ?_
  · exact ⟨c, hcur, by rw [hpid], hf, hq, hreaped⟩
  · intro c' hc' hg hs hfail
    simp only at hfail
    rw [hst] at hfail
    cases hfail

/-- The failed `fork`: there is no child of this save. -/
theorem forkFailed (h : ForkInv s) {message : String} (hpc : s.pc t = .forkFailed message) :
    ForkInv ({ s with result :=
      { s.result with status := .kFailed, errorMessage := message } }.goto t .idle) := by
  have hres := h.threads t
  rw [hpc] at hres
  have hothers : ∀ t', t' ≠ t → ¬ (s.pc t').owns := fun t' hne =>
    h.others_idle (by rw [hpc]; trivial) hne
  refine goto (fun t' hne => ForkState.PcInv.mono (s := s) (hothers t' hne) (fun _ _ hw => hw)
    (fun g hg => ⟨hg.1, fun _ => by simp⟩) (h.threads t')) trivial
    (fun t' _ hne _ ho => absurd ho (hothers t' hne)) (fun ho => ho.elim)
    (fun _ _ => ⟨fun he => by simp at he, fun _ => hres.reaped⟩) h.ordered h.generations
    h.sidecars ?_
  intro c hc hg
  have := hres.generations c hc
  simp only at hg
  omega

/-- A child exits. -/
theorem childExit (h : ForkInv s) (pid : Nat) (status : ExitStatus) :
    ForkInv { s with children := s.children.map (Child.exit pid status) } := by
  have hf := evolves_exit pid status
  have hc : ({ s with children := s.children.map (Child.exit pid status) } : ForkState).children =
      s.children.map (Child.exit pid status) := rfl
  have hreaped : ∀ c : Child, (Child.exit pid status c).isReaped = c.isReaped := by
    intro c
    unfold Child.exit
    split
    · rename_i he
      simp [Child.isReaped, he.2]
    · rfl
  refine ⟨fun t => ?_, h.unique, fun hno => ⟨fun hst => ?_, fun hst => ?_⟩, hf.ordered h.ordered,
    ?_, fun p hp => hf.wrote hc (h.sidecars p hp), ?_⟩
  · have ht := h.threads t
    by_cases ho : (s.pc t).owns
    · have hres : s.Reserved → ForkState.Reserved
          { s with children := s.children.map (Child.exit pid status) } := by
        intro hs
        refine ⟨hs.status, hs.childPid, hf.allReaped hc hs.reaped, fun c hmem => ?_⟩
        obtain ⟨d, hd, rfl⟩ := List.mem_map.mp hmem
        rw [hf.generation]
        exact hs.generations d hd
      cases hpc : s.pc t with
      | reserved f => rw [hpc] at ht; exact ⟨hres ht.1, ht.2⟩
      | captured f q => rw [hpc] at ht; exact ⟨hres ht.1, ht.2⟩
      | forkFailed m => rw [hpc] at ht; exact hres ht
      | forked p q =>
        rw [hpc] at ht
        obtain ⟨hst, hcp, c, hcur, hp, hq, hpath, hr⟩ := ht
        exact ⟨hst, hcp, _, hf.current hc rfl hcur, (hf.pid c).trans hp,
          (hf.walSequence c).trans hq, (hf.filepath c).trans hpath, (hreaped c).trans hr⟩
      | waited o g =>
        rw [hpc] at ht
        obtain ⟨hst, hg, c, st, hcur, hstate, hrest⟩ := ht
        have hsame : Child.exit pid status c = c := hf.reaped c (by simp [Child.isReaped, hstate])
        exact ⟨hst, hg, c, st, hsame ▸ hf.current hc rfl hcur, hstate, hrest⟩
      | idle => rw [hpc] at ho; exact ho.elim
      | readPid p => rw [hpc] at ho; exact ho.elim
      | checkpoint f q g => rw [hpc] at ho; exact ho.elim
      | truncate q g => rw [hpc] at ho; exact ho.elim
      | fail m g => rw [hpc] at ho; exact ho.elim
    · exact ForkState.PcInv.mono (s := s) ho (fun _ _ hw => hf.wrote hc hw) (fun g hg => hg) ht
  · obtain ⟨c, hcur, hp, hpath, hq, hr⟩ := (h.free hno).busy hst
    exact ⟨_, hf.current hc rfl hcur, by rw [hf.pid]; exact hp, (hf.filepath c).trans hpath,
      (hf.walSequence c).trans hq, (hreaped c).trans hr⟩
  · exact hf.allReaped hc ((h.free hno).settled hst)
  · intro c hmem
    obtain ⟨d, hd, rfl⟩ := List.mem_map.mp hmem
    rw [hf.generation]
    exact h.generations d hd
  · -- a failed save has no unreaped child that could still succeed
    intro c hmem hg hs hfail
    obtain ⟨d, hd, rfl⟩ := List.mem_map.mp hmem
    have hne : s.result.status ≠ .kInProgress := by
      simp only at hfail
      rw [hfail]
      simp
    have hdr := (h.free (h.no_owner hne)).settled hne d hd
    rw [hf.reaped d hdr] at hg hs
    exact h.failed d hd hg hs hfail

/-- `waitpid` for the child of the save in progress. -/
theorem waitpid (h : ForkInv s) {pid : Nat} (hst : s.result.status = .kInProgress)
    (hcp : s.result.childPid = some pid)
    (hchild : ∃ c ∈ s.children, c.pid = pid ∧ c.isReaped = false) :
    waitOutcome s.children pid = .running ∨
    ∃ status, waitOutcome s.children pid = .collected status ∧
      ForkInv ({ s with children := s.children.map (Child.reap pid) }.goto t
        (.waited (.collected status) s.generation)) := by
  -- an owner has no pid published, or has reaped the child
  have hno : ∀ t', ¬ (s.pc t').owns := by
    intro t' ho
    have ht' := h.threads t'
    cases hpc' : s.pc t' with
    | reserved f => rw [hpc'] at ht'; rw [ht'.1.childPid] at hcp; cases hcp
    | captured f q => rw [hpc'] at ht'; rw [ht'.1.childPid] at hcp; cases hcp
    | forkFailed m => rw [hpc'] at ht'; rw [ht'.childPid] at hcp; cases hcp
    | forked p q => rw [hpc'] at ht'; rw [ht'.2.1] at hcp; cases hcp
    | waited o g =>
      rw [hpc'] at ht'
      obtain ⟨-, -, c, st, ⟨rest, he, -, hrest⟩, hstate, -⟩ := ht'
      obtain ⟨d, hd, -, hdr⟩ := hchild
      rw [he] at hd
      rcases List.mem_cons.mp hd with rfl | hd
      · simp [Child.isReaped, hstate] at hdr
      · rw [hrest d hd] at hdr; cases hdr
    | idle => rw [hpc'] at ho; exact ho.elim
    | readPid p => rw [hpc'] at ho; exact ho.elim
    | checkpoint f q g => rw [hpc'] at ho; exact ho.elim
    | truncate q g => rw [hpc'] at ho; exact ho.elim
    | fail m g => rw [hpc'] at ho; exact ho.elim
  obtain ⟨c, hcur, hp, hpath, hq, hr⟩ := (h.free hno).busy hst
  obtain ⟨rest, he, hg, hrest⟩ := hcur
  have hcpid : c.pid = pid := Option.some.inj (hp.symm.trans hcp)
  have hfind : (s.children.find? fun c => c.pid == pid && !c.isReaped) = some c := by
    rw [he, List.find?_cons_of_pos (by simp [hcpid, hr])]
  cases hstate : c.state with
  | running => exact .inl (by simp [waitOutcome, hfind, hstate])
  | reaped st => simp [Child.isReaped, hstate] at hr
  | zombie st =>
    refine .inr ⟨st, by simp [waitOutcome, hfind, hstate], ?_⟩
    have hf := evolves_reap pid
    have hc : ({ s with children := s.children.map (Child.reap pid) } : ForkState).children =
        s.children.map (Child.reap pid) := rfl
    have hcur' := hf.current hc rfl ⟨rest, he, hg, hrest⟩
    have hreap : (Child.reap pid c).state = .reaped st := by
      simp [Child.reap, hstate, hcpid]
    refine goto (fun t' _ => ForkState.PcInv.mono (s := s) (hno t')
      (fun _ _ hw => hf.wrote hc hw) (fun g hg => hg) (h.threads t'))
      ⟨hst, rfl, _, st, hcur', hreap, rfl, (hf.filepath c).trans hpath,
        (hf.walSequence c).trans hq⟩ (fun t' _ _ _ ho => absurd ho (hno t'))
      (fun _ t' _ => hno t') (fun hn => absurd trivial hn) (hf.ordered h.ordered) ?_
      (fun p hp => hf.wrote hc (h.sidecars p hp)) ?_
    · intro d hmem
      obtain ⟨d, hd, rfl⟩ := List.mem_map.mp hmem
      rw [hf.generation]
      exact h.generations d hd
    · intro d _ _ _ hfail
      simp only at hfail
      rw [hst] at hfail
      cases hfail

theorem finishResult_collected (status : ExitStatus) (r : SnapshotResult) :
    (finishResult (.collected status) r).filepath = r.filepath ∧
    (finishResult (.collected status) r).walSequence = r.walSequence ∧
    ((status = .exited kChildExitSuccess ∧
        (finishResult (.collected status) r).status = .kCompleted) ∨
      (status ≠ .exited kChildExitSuccess ∧
        (finishResult (.collected status) r).status = .kFailed)) := by
  cases status with
  | exited code =>
    simp only [finishResult]
    split
    · rename_i hcode
      exact ⟨rfl, rfl, .inl ⟨by rw [hcode], rfl⟩⟩
    · rename_i hcode
      exact ⟨rfl, rfl, .inr ⟨fun he => hcode (ExitStatus.exited.inj he), rfl⟩⟩
  | signaled sig => exact ⟨rfl, rfl, .inr ⟨by simp, rfl⟩⟩

/-- The second section of `CheckChild`, run by the thread that reaped the child. -/
theorem finish (h : ForkInv s) {outcome : WaitOutcome} {generation : Nat}
    (hpc : s.pc t = .waited outcome generation) :
    ForkInv ({ s with result := finishResult outcome s.result }.afterFinish t generation) := by
  have ht := h.threads t
  rw [hpc] at ht
  obtain ⟨hst, rfl, c, status, ⟨rest, he, hg, hrest⟩, hstate, rfl, hpath, hq⟩ := ht
  obtain ⟨hrpath, hrseq, hcase⟩ := finishResult_collected status s.result
  have hdone : (finishResult (.collected status) s.result).status ≠ .kInProgress := by
    rcases hcase with ⟨-, h'⟩ | ⟨-, h'⟩ <;> rw [h'] <;> simp
  have hothers : ∀ t', t' ≠ t → ¬ (s.pc t').owns := fun t' hne =>
    h.others_idle (by rw [hpc]; trivial) hne
  have hreaped : s.AllReaped := by
    intro d hd
    rw [he] at hd
    rcases List.mem_cons.mp hd with rfl | hd
    · simp [Child.isReaped, hstate]
    · exact hrest d hd
  -- the one child of this save is the reaped one
  have honly : ∀ d ∈ s.children, d.generation = s.generation → d = c := by
    intro d hd hdg
    have hord := h.ordered
    rw [he] at hd hord
    rcases List.mem_cons.mp hd with rfl | hd
    · rfl
    · have := (List.pairwise_cons.mp hord).1 d hd
      omega
  have hinv : ∀ pc : ForkPc, ¬ pc.owns →
      ForkState.PcInv { s with result := finishResult (.collected status) s.result } pc →
      ForkInv ({ s with result := finishResult (.collected status) s.result }.goto t pc) := by
    intro pc hno hpcinv
    refine goto (fun t' hne => ForkState.PcInv.mono (s := s) (hothers t' hne) (fun _ _ hw => hw)
      (fun g hg => ⟨hg.1, fun _ => hdone⟩) (h.threads t')) hpcinv
      (fun t' _ hne _ ho => absurd ho (hothers t' hne)) (fun ho => absurd ho hno)
      (fun _ _ => ⟨fun h' => absurd h' hdone, fun _ => hreaped⟩) h.ordered h.generations
      h.sidecars ?_
    intro d hd hdg hs hfail
    rw [honly d hd hdg] at hs
    rcases hcase with ⟨-, h'⟩ | ⟨hbad, -⟩
    · simp only at hfail
      rw [h'] at hfail
      cases hfail
    · simp only [Child.Succeeded, hstate, reduceCtorEq, ChildState.reaped.injEq, false_or] at hs
      exact absurd hs hbad
  unfold ForkState.afterFinish
  split
  · rename_i hcomp
    refine hinv _ (fun ho => ho) ⟨⟨Nat.le_refl _, fun _ => hdone⟩, c, ?_, ?_, ?_, ?_⟩
    · rw [he]; exact List.mem_cons_self
    · rw [hpath]; exact hrpath.symm
    · rw [hq]; exact hrseq.symm
    · rcases hcase with ⟨hok, -⟩ | ⟨-, h'⟩
      · exact .inr (by rw [hstate, hok])
      · have := hcomp.1
        simp only at this
        rw [h'] at this
        cases this
  · exact hinv .idle (fun ho => ho) trivial

theorem writeCheckpoint (h : ForkInv s) {filepath : String} {walSequence generation : Nat}
    (hpc : s.pc t = .checkpoint filepath walSequence generation) :
    ForkInv ({ s with sidecars := (filepath, walSequence) :: s.sidecars }.goto t
      (.truncate walSequence generation)) := by
  have ht := h.threads t
  rw [hpc] at ht
  obtain ⟨hset, hwrote⟩ := ht
  refine goto (fun t' _ => ?_) hset (fun t' t'' _ _ => h.unique t' t'') (fun ho => ho.elim)
    (fun _ hothers => ?_) h.ordered h.generations ?_ h.failed
  · refine ForkState.PcInv.congr (s := s) ?_ ?_ ?_ (h.threads t') <;> rfl
  · have hfree := h.free fun t' => by
      by_cases he : t' = t
      · rw [he, hpc]; exact fun ho => ho
      · exact hothers t' he
    exact ⟨hfree.busy, hfree.settled⟩
  · intro p hp
    rcases List.mem_cons.mp hp with rfl | hp
    · exact hwrote
    · exact h.sidecars p hp

/-- The failure section of `CheckChild`, while its save is still the last one. -/
theorem setFailed (h : ForkInv s) {message : String} (hpc : s.pc t = .fail message s.generation) :
    ForkInv ({ s with result :=
      { s.result with status := .kFailed, errorMessage := message } }.goto t .idle) := by
  have ht := h.threads t
  rw [hpc] at ht
  obtain ⟨⟨-, hset⟩, hmsg⟩ := ht
  have hne := hset rfl
  have hno := h.no_owner hne
  refine goto (fun t' _ => ForkState.PcInv.mono (s := s) (hno t') (fun _ _ hw => hw)
    (fun g hg => ⟨hg.1, fun _ => by simp⟩) (h.threads t')) trivial
    (fun t' _ _ _ ho => absurd ho (hno t')) (fun ho => ho.elim)
    (fun _ _ => ⟨fun he => by simp at he, fun _ => (h.free hno).settled hne⟩) h.ordered
    h.generations h.sidecars (fun _ _ _ _ _ => hmsg)

end ForkInv

/-- **One step** that meets `forkOk` keeps the invariant. -/
theorem forkInv_step {s s' : ForkState} {a : ForkAction} (h : ForkInv s) (hok : forkOk s a)
    (hstep : forkStep s a = some s') : ForkInv s' := by
  cases a with
  | start t filepath =>
    simp only [forkStep] at hstep
    split at hstep
    · split at hstep
      · obtain rfl := Option.some.inj hstep; exact h
      · rename_i hst
        obtain rfl := Option.some.inj hstep
        exact h.start hst
    · cases hstep
  | capture t currentSequence =>
    simp only [forkStep] at hstep
    split at hstep
    · rename_i filepath hpc
      obtain rfl := Option.some.inj hstep
      have ht := h.threads t
      rw [hpc] at ht
      exact h.move ht (by rw [hpc]; exact Iff.rfl)
    · cases hstep
  | fork t pid =>
    simp only [forkStep] at hstep
    split at hstep
    · rename_i hpc
      obtain rfl := Option.some.inj hstep
      have ht := h.threads t
      rw [hpc] at ht
      exact h.move ht.1 (by rw [hpc]; exact Iff.rfl)
    · rename_i hpc
      split at hstep
      · cases hstep
      · obtain rfl := Option.some.inj hstep
        exact h.fork hpc
    · cases hstep
  | publish t =>
    simp only [forkStep] at hstep
    split at hstep
    · rename_i hpc
      obtain rfl := Option.some.inj hstep
      exact h.publish hpc
    · rename_i hpc
      obtain rfl := Option.some.inj hstep
      exact h.forkFailed hpc
    · cases hstep
  | childExit pid status =>
    obtain rfl := Option.some.inj hstep
    exact h.childExit pid status
  | check t =>
    simp only [forkStep] at hstep
    split at hstep
    · rename_i hpc
      split at hstep
      · obtain rfl := Option.some.inj hstep
        exact h.move trivial (by rw [hpc]; exact Iff.rfl)
      · obtain rfl := Option.some.inj hstep
        exact h
    · cases hstep
  | waitpid t =>
    simp only [forkStep] at hstep
    split at hstep
    · rename_i pid hpc
      simp only [forkOk, hpc] at hok
      obtain ⟨hst, hcp, hchild⟩ := hok
      rcases h.waitpid hst hcp hchild with hrun | ⟨status, hcol, hinv⟩
      · rw [hrun] at hstep
        obtain rfl := Option.some.inj hstep
        exact h.move trivial (by rw [hpc]; exact Iff.rfl)
      · rw [hcol] at hstep
        obtain rfl := Option.some.inj hstep
        exact hinv
    · cases hstep
  | finish t =>
    simp only [forkStep] at hstep
    split at hstep
    · rename_i hpc
      obtain rfl := Option.some.inj hstep
      exact h.finish hpc
    · cases hstep
  | writeCheckpoint t error =>
    simp only [forkStep] at hstep
    split at hstep
    · rename_i hpc
      obtain rfl := Option.some.inj hstep
      exact h.writeCheckpoint hpc
    · rename_i message hpc
      obtain rfl := Option.some.inj hstep
      have ht := h.threads t
      rw [hpc] at ht
      exact h.move ⟨ht.1, message, .inl rfl⟩ (by rw [hpc]; exact Iff.rfl)
    · cases hstep
  | truncateWal t error =>
    simp only [forkStep] at hstep
    split at hstep
    · rename_i hpc
      obtain rfl := Option.some.inj hstep
      exact h.move trivial (by rw [hpc]; exact Iff.rfl)
    · rename_i message hpc
      obtain rfl := Option.some.inj hstep
      have ht := h.threads t
      rw [hpc] at ht
      exact h.move ⟨ht, message, .inr rfl⟩ (by rw [hpc]; exact Iff.rfl)
    · cases hstep
  | setFailed t =>
    simp only [forkStep] at hstep
    split at hstep
    · rename_i hpc
      simp only [forkOk, hpc] at hok
      subst hok
      obtain rfl := Option.some.inj hstep
      exact h.setFailed hpc
    · cases hstep

/-! ## 5. Every run -/

theorem forkInv_run {walEnabled : Bool} {acts : List ForkAction} {s : ForkState}
    (hrun : run forkStep { walEnabled := walEnabled } acts = some s)
    (hok : Meets forkStep forkOk { walEnabled := walEnabled } acts) : ForkInv s :=
  run_inv_of_meets (fun _ _ _ h hok hstep => forkInv_step h hok hstep)
    (ForkInv.initial walEnabled) hok hrun

theorem ForkState.Current.unreaped {s : ForkState} {c : Child} (h : s.Current c) :
    (s.children.filter fun c => !c.isReaped).length ≤ 1 := by
  obtain ⟨rest, he, -, hrest⟩ := h
  have hnil : (rest.filter fun c => !c.isReaped) = [] := by
    rw [List.filter_eq_nil_iff]
    intro d hd
    simp [hrest d hd]
  rw [he, List.filter_cons, hnil]
  split <;> simp

theorem ForkState.AllReaped.unreaped {s : ForkState} (h : s.AllReaped) :
    (s.children.filter fun c => !c.isReaped).length ≤ 1 := by
  have hnil : (s.children.filter fun c => !c.isReaped) = [] := by
    rw [List.filter_eq_nil_iff]
    intro d hd
    simp [h d hd]
  simp [hnil]

theorem ForkInv.unreaped {s : ForkState} (h : ForkInv s) :
    (s.children.filter fun c => !c.isReaped).length ≤ 1 := by
  by_cases hown : ∃ t, (s.pc t).owns
  · obtain ⟨t, ho⟩ := hown
    have ht := h.threads t
    cases hpc : s.pc t with
    | reserved f => rw [hpc] at ht; exact ht.1.reaped.unreaped
    | captured f q => rw [hpc] at ht; exact ht.1.reaped.unreaped
    | forkFailed m => rw [hpc] at ht; exact ht.reaped.unreaped
    | forked p q =>
      rw [hpc] at ht
      obtain ⟨-, -, c, hcur, -⟩ := ht
      exact hcur.unreaped
    | waited o g =>
      rw [hpc] at ht
      obtain ⟨-, -, c, st, hcur, -⟩ := ht
      exact hcur.unreaped
    | idle => rw [hpc] at ho; exact ho.elim
    | readPid p => rw [hpc] at ho; exact ho.elim
    | checkpoint f q g => rw [hpc] at ho; exact ho.elim
    | truncate q g => rw [hpc] at ho; exact ho.elim
    | fail m g => rw [hpc] at ho; exact ho.elim
  · have hfree := h.free fun t ho => hown ⟨t, ho⟩
    by_cases hst : s.result.status = .kInProgress
    · obtain ⟨c, hcur, -⟩ := hfree.busy hst
      exact hcur.unreaped
    · exact (hfree.settled hst).unreaped

/-- The save that was current at the `waitpid` of the `CheckChild` whose section this is. -/
def sectionSave (s : ForkState) : ForkAction → Option Nat
  | .finish t =>
    match s.pc t with
    | .waited _ generation => some generation
    | _ => none
  | .setFailed t =>
    match s.pc t with
    | .fail _ generation => some generation
    | _ => none
  | _ => none

/-- **The status machine.** In every state that a run meeting `forkOk` reaches, at most one
    child is unreaped; a save whose child exited with success is `kFailed` only because its
    checkpoint or truncation failed; the next section of a `CheckChild` acts on the save its
    `waitpid` was called for; and every sidecar belongs to a child that wrote this file, with
    this captured sequence, and exited with success. -/
theorem fork_status_machine {walEnabled : Bool} {acts : List ForkAction} {s : ForkState}
    (hrun : run forkStep { walEnabled := walEnabled } acts = some s)
    (hok : Meets forkStep forkOk { walEnabled := walEnabled } acts) :
    (s.children.filter fun c => !c.isReaped).length ≤ 1 ∧
    (∀ c ∈ s.children, c.generation = s.generation → c.Succeeded →
      s.result.status = .kFailed → CheckpointFailure s.result.errorMessage) ∧
    (∀ a s', forkStep s a = some s' → forkOk s a → ∀ generation,
      sectionSave s a = some generation → generation = s.generation) ∧
    (∀ p ∈ s.sidecars, ∃ c ∈ s.children,
      c.filepath = p.1 ∧ c.walSequence = p.2 ∧ c.Succeeded) := by
  have h := forkInv_run hrun hok
  refine ⟨h.unreaped, h.failed, ?_, h.sidecars⟩
  intro a s' _ hoka generation hsec
  cases a with
  | finish t =>
    simp only [sectionSave] at hsec
    split at hsec
    · rename_i o g hpc
      have ht := h.threads t
      rw [hpc] at ht
      rw [← Option.some.inj hsec]
      exact ht.2.1
    · cases hsec
  | setFailed t =>
    simp only [sectionSave] at hsec
    split at hsec
    · rename_i m g hpc
      simp only [forkOk, hpc] at hoka
      rw [← Option.some.inj hsec]
      exact hoka
    · cases hsec
  | start t f => cases hsec
  | capture t q => cases hsec
  | fork t pid => cases hsec
  | publish t => cases hsec
  | childExit pid st => cases hsec
  | check t => cases hsec
  | waitpid t => cases hsec
  | writeCheckpoint t e => cases hsec
  | truncateWal t e => cases hsec

instance (c : Child) : Decidable c.Succeeded := inferInstanceAs (Decidable (_ ∨ _))

instance (s : ForkState) : ∀ a, Decidable (forkOk s a)
  | .waitpid t =>
    match h : s.pc t with
    | .readPid pid => decidable_of_iff (s.result.status = .kInProgress ∧
        s.result.childPid = some pid ∧ ∃ c ∈ s.children, c.pid = pid ∧ c.isReaped = false)
        (by simp only [forkOk, h])
    | .idle => isTrue (by simp only [forkOk, h])
    | .reserved _ => isTrue (by simp only [forkOk, h])
    | .captured _ _ => isTrue (by simp only [forkOk, h])
    | .forked _ _ => isTrue (by simp only [forkOk, h])
    | .forkFailed _ => isTrue (by simp only [forkOk, h])
    | .waited _ _ => isTrue (by simp only [forkOk, h])
    | .checkpoint _ _ _ => isTrue (by simp only [forkOk, h])
    | .truncate _ _ => isTrue (by simp only [forkOk, h])
    | .fail _ _ => isTrue (by simp only [forkOk, h])
  | .setFailed t =>
    match h : s.pc t with
    | .fail _ generation => decidable_of_iff (generation = s.generation) (by simp only [forkOk, h])
    | .idle => isTrue (by simp only [forkOk, h])
    | .reserved _ => isTrue (by simp only [forkOk, h])
    | .captured _ _ => isTrue (by simp only [forkOk, h])
    | .forked _ _ => isTrue (by simp only [forkOk, h])
    | .forkFailed _ => isTrue (by simp only [forkOk, h])
    | .readPid _ => isTrue (by simp only [forkOk, h])
    | .waited _ _ => isTrue (by simp only [forkOk, h])
    | .checkpoint _ _ _ => isTrue (by simp only [forkOk, h])
    | .truncate _ _ => isTrue (by simp only [forkOk, h])
  | .start .. => isTrue trivial
  | .capture .. => isTrue trivial
  | .fork .. => isTrue trivial
  | .publish .. => isTrue trivial
  | .childExit .. => isTrue trivial
  | .check .. => isTrue trivial
  | .finish .. => isTrue trivial
  | .writeCheckpoint .. => isTrue trivial
  | .truncateWal .. => isTrue trivial

/-! ## 6. Two runs -/

/-- Two callers read the same pid; one reaps, the other gets `ECHILD`; the first is overtaken by
    the next save before its second section. -/
def overtakenRun : List ForkAction :=
  [.start 2 "a.nvec", .capture 2 5, .fork 2 (.ok 100), .publish 2, .check 0, .check 1,
    .childExit 100 (.exited 0), .waitpid 0, .waitpid 1, .finish 1,
    .start 2 "b.nvec", .capture 2 9, .fork 2 (.ok 101), .publish 2, .finish 0,
    .writeCheckpoint 0 none, .start 2 "c.nvec", .capture 2 9, .fork 2 (.ok 102)]

/-- **The late section hits the next save**: the successful first save is reported as failed
    because of the other caller's reap; then a sidecar is written for a child that still runs,
    and a second child is forked beside it. -/
theorem late_section_hits_next_save :
    (∃ s, run forkStep { walEnabled := true } (overtakenRun.take 10) = some s ∧
      s.result.status = .kFailed ∧
      s.result.errorMessage = "Snapshot child ownership lost before exit status was collected" ∧
      s.children = [⟨100, "a.nvec", 5, 1, .reaped (.exited 0)⟩]) ∧
    (∃ s, run forkStep { walEnabled := true } overtakenRun = some s ∧
      s.sidecars = [("b.nvec", 9)] ∧
      s.children = [⟨102, "c.nvec", 9, 3, .running⟩, ⟨101, "b.nvec", 9, 2, .running⟩,
        ⟨100, "a.nvec", 5, 1, .reaped (.exited 0)⟩]) := by
  refine ⟨⟨_, rfl, ?_⟩, ⟨_, rfl, ?_⟩⟩
  · decide
  · decide

/-- One save with a failed checkpoint and a second one that completes. -/
def orderlyRun : List ForkAction :=
  [.start 2 "a.nvec", .capture 2 5, .fork 2 (.ok 100), .publish 2, .childExit 100 (.exited 0),
    .check 0, .waitpid 0, .finish 0, .writeCheckpoint 0 (some "disk full"), .setFailed 0,
    .start 2 "b.nvec", .capture 2 9, .fork 2 (.ok 101), .publish 2, .check 1,
    .childExit 101 (.exited 0), .waitpid 1, .finish 1, .writeCheckpoint 1 none,
    .truncateWal 1 none]

theorem fork_status_machine_orderlyRun :
    ∃ s, run forkStep { walEnabled := true } orderlyRun = some s ∧
      s.sidecars = [("b.nvec", 9)] ∧
      ∀ p ∈ s.sidecars, ∃ c ∈ s.children,
        c.filepath = p.1 ∧ c.walSequence = p.2 ∧ c.Succeeded := by
  have hok : Meets forkStep forkOk { walEnabled := true } orderlyRun := by decide
  exact ⟨_, rfl, by decide, (fork_status_machine rfl hok).2.2.2⟩

end Nvecd.Storage
