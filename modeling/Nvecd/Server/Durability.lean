/-
  File:      Nvecd/Server/Durability.lean
  Subject:   What the server does to its WAL directory and its snapshot directory, over any
             number of restarts: background saves (`StartBackgroundSave`, the child,
             `CheckChild`), `DUMP SAVE` in lock mode, `DUMP LOAD`, retention, crashes and
             recoveries.

  * `Save`, `Rollback` -- a save and a `DUMP LOAD`, with how far each has come;
  * `Durable`, `durableStep` -- the machine; its actions are the single writes to disk, so a run
    may interleave the server's threads and its children, and stop anywhere;
  * `append_step` … `start_step` -- for each action, when it is enabled and what it changes; the
    properties of runs (`Nvecd/Server/Retention.lean`, `Nvecd/Server/DumpLoad.lean`) rest on
    these alone.

  A `CheckChild` call is taken to act on the child it has reaped; what its two critical sections
  do to each other is the subject of `Nvecd/Storage/SnapshotFork.lean`.
-/
import Nvecd.Server.Recovery

namespace Nvecd.Server

open Nvecd.Lib Nvecd.Utils Nvecd.Storage

/-! ## 1. Saves and loads under way -/

inductive SaveKind where
  /-- `StartBackgroundSave`, for the scheduler or for `DUMP SAVE`. -/
  | fork
  /-- `DUMP SAVE` in lock mode. -/
  | lock
  deriving DecidableEq, Repr

inductive SavePhase where
  /-- The temporary file is being written. -/
  | writing
  /-- The file has been renamed to its path. -/
  | published
  /-- The exit status said success; the checkpoint is next. -/
  | completed
  /-- The sidecar is durable; truncating the WAL is next. -/
  | checkpointed
  deriving DecidableEq, Repr

/-- A save under way. The last two fields only record what has happened. -/
structure Save where
  kind : SaveKind
  name : String
  content : Bytes
  /-- The WAL sequence captured with the image. -/
  sequence : Nat
  phase : SavePhase := .writing
  /-- The server that forked this child is gone. -/
  orphaned : Bool := false
  /-- Its publication replaced a snapshot with a valid checkpoint. -/
  replaced : Bool := false
  /-- A `DUMP LOAD` has replaced the stores since the image was taken. -/
  rolledBack : Bool := false
  deriving DecidableEq, Repr

/-- The sidecar of this save may still come. -/
def Save.pending (j : Save) : Bool :=
  !j.orphaned && (j.phase == .published || j.phase == .completed)

inductive LoadPhase where
  /-- The stores have been swapped and the WAL sequence captured. -/
  | swapped
  /-- The file has its new modification time. -/
  | stamped
  | checkpointed
  /-- `OK DUMP_LOADED` has been returned. -/
  | loaded
  deriving DecidableEq, Repr

/-- A state of the stores as a snapshot file holds it, with the WAL sequence it stands for and
    the records acknowledged by then. -/
structure Image where
  content : Bytes
  sequence : Nat
  acked : List WalRecord
  deriving DecidableEq, Repr

/-- The last `DUMP LOAD`: the image it loaded, from which file, and the time it stamped the file
    with. -/
structure Rollback extends Image where
  name : String
  stamp : Nat := 0
  phase : LoadPhase := .swapped

/-! ## 2. The machine -/

/-- The server's durable state, with what runs on it. -/
structure Durable where
  /-- `snapshot.retain`. -/
  retain : Int
  wal : WalRun
  dir : SnapshotDir := {}
  up : Bool := false
  saves : List Save := []
  rollback : Option Rollback := none
  /-- The images taken since that `DUMP LOAD`. -/
  since : List Image := []

inductive DurableAction where
  | append (io : AppendIo) (now : Nat) (op : WalOpType) (payload : Bytes)
  /-- The WAL closes: a background fsync has failed, or the server is being stopped. -/
  | closeWal
  /-- `StartBackgroundSave`, up to `fork`. -/
  | fork (name : String) (content : Bytes)
  | lockSave (name : String) (content : Bytes)
  /-- The rename of save `i`; the file was last written at `mtime`. -/
  | publish (i : Nat) (mtime : Nat)
  /-- Save `i` has succeeded: its child was reaped with exit status 0, or the call returned. -/
  | complete (i : Nat)
  /-- Save `i` ends without success. -/
  | fail (i : Nat)
  | checkpoint (i : Nat) (io : CheckpointIo)
  | truncate (i : Nat) (io : TruncateIo)
  /-- `DUMP LOAD`, up to the swap of the stores and the capture of the sequence. -/
  | load (name : String)
  | loadStamp (now : Nat)
  | loadCheckpoint (io : CheckpointIo)
  | loadTruncate (io : TruncateIo)
  /-- The time stamp cannot be set: fail-stop. -/
  | loadFails
  | cleanup (order : List SnapshotFile) (throwsAt : Option Nat)
  | crash (keep : Nat)
  | start (cfg : WalConfig) (io : OpenIo)

def Durable.initial (retain : Int) (cfg : WalConfig) (dir : SnapshotDir) : Durable :=
  { retain := retain, wal := WalRun.initial cfg, dir := dir }

namespace Durable

/-- The fork writer's status is `kInProgress`. -/
def inProgress (s : Durable) : Bool :=
  s.saves.any fun j => j.kind == .fork && !j.orphaned && (j.phase == .writing || j.phase == .published)

/-- A lock-mode save holds `read_only` and the exclusive gate. -/
def saving (s : Durable) : Bool := s.saves.any fun j => j.kind == .lock

/-- A `DUMP LOAD` holds both gates. -/
def loading (s : Durable) : Bool := s.rollback.any fun r => r.phase != .loaded

/-- A new save, with the sequence the WAL stands at. -/
def begin (s : Durable) (kind : SaveKind) (name : String) (content : Bytes) : Durable :=
  { s with
    saves := s.saves ++ [{ kind := kind, name := name, content := content,
                           sequence := s.wal.wal.currentSequence }]
    since := ⟨content, s.wal.wal.currentSequence, s.wal.acked⟩ :: s.since }

/-- The children that outlive their server: those still writing. -/
def orphans (s : Durable) : List Save :=
  (s.saves.filter fun j => j.kind == .fork && j.phase == .writing).map fun j =>
    { j with orphaned := true }

end Durable

section Machine

variable {σ : Type} (crc32 : Bytes → UInt32) (load : Bytes → Except Error σ)
  (replayRecord : σ → WalRecord → Except Error σ) (empty : σ)

/-- The file under this name has a valid sidecar. -/
def hasCheckpoint (d : SnapshotDir) (name : String) : Bool :=
  (readWalCheckpoint crc32 d name).toOption.isSome

/-- One step. -/
def durableStep (s : Durable) : DurableAction → Option Durable
  | .append io now op payload =>
    if s.up && !s.saving && !s.loading then
      some { s with wal := s.wal.append crc32 io now op payload }
    else none
  | .closeWal => if s.up then some { s with wal := s.wal.close } else none
  | .fork name content =>
    if s.up && !s.inProgress && !s.saving then some (s.begin .fork name content) else none
  | .lockSave name content =>
    if s.up && !s.saving && !s.loading then some (s.begin .lock name content) else none
  | .publish i mtime =>
    match s.saves[i]? with
    | some j =>
      if j.phase = .writing then
        some { s with
          dir := s.dir.publish { name := j.name, mtime := mtime, content := j.content }
          saves := s.saves.set i { j with
            phase := .published
            replaced := hasCheckpoint crc32 s.dir j.name } }
      else none
    | none => none
  | .complete i =>
    match s.saves[i]? with
    | some j =>
      if j.phase = .published ∧ j.orphaned = false then
        some { s with saves := s.saves.set i { j with phase := .completed } }
      else none
    | none => none
  | .fail i =>
    match s.saves[i]? with
    | some j =>
      if j.phase = .writing ∨ j.phase = .published then
        some { s with saves := s.saves.eraseIdx i }
      else none
    | none => none
  | .checkpoint i io =>
    match s.saves[i]? with
    | some j =>
      if j.phase = .completed then
        match writeWalCheckpoint crc32 io j.name j.sequence s.dir with
        | (dir, .ok ()) =>
          some { s with dir := dir, saves := s.saves.set i { j with phase := .checkpointed } }
        | (dir, .error _) =>
          -- `kFailed`, and no truncation
          some { s with dir := dir, saves := s.saves.eraseIdx i }
      else none
    | none => none
  | .truncate i io =>
    match s.saves[i]? with
    | some j =>
      if j.phase = .checkpointed then
        some { s with wal := s.wal.truncate io j.sequence, saves := s.saves.eraseIdx i }
      else none
    | none => none
  | .load name =>
    match s.dir.lookup name with
    | some f =>
      if s.up && !s.saving && !s.loading && f.isRegular && (load f.content).toOption.isSome then
        some { s with
          saves := s.saves.map fun j => { j with rolledBack := true }
          rollback := some { name := name, content := f.content,
                             sequence := s.wal.wal.currentSequence, acked := s.wal.acked }
          since := [] }
      else none
    | none => none
  | .loadStamp now =>
    match s.rollback with
    | some r =>
      if r.phase = .swapped ∧ (s.dir.lookup r.name).isSome then
        some { s with
          dir := s.dir.touch r.name now
          rollback := some { r with stamp := now, phase := .stamped } }
      else none
    | none => none
  | .loadCheckpoint io =>
    match s.rollback with
    | some r =>
      if r.phase = .stamped then
        match writeWalCheckpoint crc32 io r.name r.sequence s.dir with
        | (dir, .ok ()) =>
          some { s with dir := dir, rollback := some { r with phase := .checkpointed } }
        | (dir, .error _) => some { s with dir := dir, rollback := none }
      else none
    | none => none
  | .loadTruncate io =>
    match s.rollback with
    | some r =>
      if r.phase = .checkpointed then
        match (truncate s.wal.cfg io r.sequence s.wal.wal).2 with
        | .ok () =>
          some { s with
            wal := s.wal.truncate io r.sequence
            rollback := some { r with phase := .loaded } }
        | .error _ => some { s with wal := s.wal.truncate io r.sequence, rollback := none }
      else none
    | none => none
  | .loadFails =>
    match s.rollback with
    | some r => if r.phase = .swapped then some { s with rollback := none } else none
    | none => none
  | .cleanup order throwsAt =>
    if s.up ∧ sortedAutos s.dir order then
      some { s with dir := cleanupOldSnapshots s.retain order throwsAt s.dir }
    else none
  | .crash keep =>
    some { s with
      wal := s.wal.crash keep
      up := false
      saves := s.orphans
      rollback := s.rollback.filter fun r => r.phase = .loaded }
  | .start cfg io =>
    if s.up then none
    else
      match loadNewestValidSnapshot crc32 load s.dir true empty with
      | .error _ => some s
      | .ok _ =>
        match (recover crc32 load replayRecord empty cfg io s.dir s.wal.wal).2 with
        | .ok _ => some { s with wal := s.wal.open crc32 cfg io, up := true }
        | .error _ => some { s with wal := (s.wal.open crc32 cfg io).close }

/-! ## 3. One step -/

/-- Updating one save leaves the others in the list. -/
theorem mem_set_of_ne {α : Type} {l : List α} {i : Nat} {a b x : α} (ha : l[i]? = some a)
    (hb : b ∈ l) (hne : b ≠ a) : b ∈ l.set i x := by
  obtain ⟨k, hk⟩ := List.mem_iff_getElem?.mp hb
  refine List.mem_iff_getElem?.mpr ⟨k, ?_⟩
  have hki : i ≠ k := by
    rintro rfl
    rw [ha] at hk
    exact hne (Option.some.inj hk).symm
  rw [List.getElem?_set_ne hki, hk]

theorem mem_eraseIdx_of_ne {α : Type} {l : List α} {i : Nat} {a b : α} (ha : l[i]? = some a)
    (hb : b ∈ l) (hne : b ≠ a) : b ∈ l.eraseIdx i := by
  obtain ⟨k, hk⟩ := List.mem_iff_getElem?.mp hb
  refine List.mem_eraseIdx_iff_getElem?.mpr ⟨k, ?_, hk⟩
  rintro rfl
  rw [ha] at hk
  exact hne (Option.some.inj hk).symm

theorem mem_set_self {α : Type} {l : List α} {i : Nat} {a x : α} (ha : l[i]? = some a) :
    x ∈ l.set i x :=
  List.mem_set (List.getElem?_eq_some_iff.mp ha).1 x

variable {crc32 load replayRecord empty} {s s' : Durable}

theorem append_step {io : AppendIo} {now : Nat} {op : WalOpType} {payload : Bytes}
    (h : durableStep crc32 load replayRecord empty s (.append io now op payload) = some s') :
    s.up = true ∧ s.loading = false ∧
      s' = { s with wal := s.wal.append crc32 io now op payload } := by
  simp only [durableStep] at h
  split at h
  · rename_i hc
    simp only [Bool.and_eq_true, Bool.not_eq_true'] at hc
    exact ⟨hc.1.1, hc.2, (Option.some.inj h).symm⟩
  · cases h

theorem closeWal_step (h : durableStep crc32 load replayRecord empty s .closeWal = some s') :
    s.up = true ∧ s' = { s with wal := s.wal.close } := by
  simp only [durableStep] at h
  split at h
  · exact ⟨‹_›, (Option.some.inj h).symm⟩
  · cases h

theorem fork_step {name : String} {content : Bytes}
    (h : durableStep crc32 load replayRecord empty s (.fork name content) = some s') :
    s.up = true ∧ s' = s.begin .fork name content := by
  simp only [durableStep] at h
  split at h
  · rename_i hc
    simp only [Bool.and_eq_true] at hc
    exact ⟨hc.1.1, (Option.some.inj h).symm⟩
  · cases h

theorem lockSave_step {name : String} {content : Bytes}
    (h : durableStep crc32 load replayRecord empty s (.lockSave name content) = some s') :
    s.up = true ∧ s' = s.begin .lock name content := by
  simp only [durableStep] at h
  split at h
  · rename_i hc
    simp only [Bool.and_eq_true] at hc
    exact ⟨hc.1.1, (Option.some.inj h).symm⟩
  · cases h

theorem publish_step {i mtime : Nat}
    (h : durableStep crc32 load replayRecord empty s (.publish i mtime) = some s') :
    ∃ j, s.saves[i]? = some j ∧ j.phase = .writing ∧
      s' = { s with
        dir := s.dir.publish { name := j.name, mtime := mtime, content := j.content }
        saves := s.saves.set i { j with
          phase := .published
          replaced := hasCheckpoint crc32 s.dir j.name } } := by
  simp only [durableStep] at h
  split at h
  · rename_i j hj
    split at h
    · exact ⟨j, hj, ‹_›, (Option.some.inj h).symm⟩
    · cases h
  · cases h

theorem complete_step {i : Nat}
    (h : durableStep crc32 load replayRecord empty s (.complete i) = some s') :
    ∃ j, s.saves[i]? = some j ∧ j.phase = .published ∧ j.orphaned = false ∧
      s' = { s with saves := s.saves.set i { j with phase := .completed } } := by
  simp only [durableStep] at h
  split at h
  · rename_i j hj
    split at h
    · rename_i hc
      exact ⟨j, hj, hc.1, hc.2, (Option.some.inj h).symm⟩
    · cases h
  · cases h

theorem fail_step {i : Nat}
    (h : durableStep crc32 load replayRecord empty s (.fail i) = some s') :
    ∃ j, s.saves[i]? = some j ∧ (j.phase = .writing ∨ j.phase = .published) ∧
      s' = { s with saves := s.saves.eraseIdx i } := by
  simp only [durableStep] at h
  split at h
  · rename_i j hj
    split at h
    · exact ⟨j, hj, ‹_›, (Option.some.inj h).symm⟩
    · cases h
  · cases h

/-- The sidecar of a completed save: nothing has happened and the save is given up, or the
    sidecar is in place and the save goes on or is given up all the same. -/
theorem checkpoint_step {i : Nat} {io : CheckpointIo}
    (h : durableStep crc32 load replayRecord empty s (.checkpoint i io) = some s') :
    ∃ j res, s.saves[i]? = some j ∧ j.phase = .completed ∧
      ∃ dir, writeWalCheckpoint crc32 io j.name j.sequence s.dir = (dir, res) ∧
        ((res = .ok () ∧
            s' = { s with dir := dir, saves := s.saves.set i { j with phase := .checkpointed } }) ∨
          ((∃ e, res = .error e) ∧ s' = { s with dir := dir, saves := s.saves.eraseIdx i })) := by
  simp only [durableStep] at h
  split at h
  · rename_i j hj
    split at h
    · rename_i hphase
      split at h
      · rename_i dir hw
        exact ⟨j, .ok (), hj, hphase, dir, hw, .inl ⟨rfl, (Option.some.inj h).symm⟩⟩
      · rename_i dir e hw
        exact ⟨j, .error e, hj, hphase, dir, hw, .inr ⟨⟨e, rfl⟩, (Option.some.inj h).symm⟩⟩
    · cases h
  · cases h

theorem truncate_step {i : Nat} {io : TruncateIo}
    (h : durableStep crc32 load replayRecord empty s (.truncate i io) = some s') :
    ∃ j, s.saves[i]? = some j ∧ j.phase = .checkpointed ∧
      s' = { s with wal := s.wal.truncate io j.sequence, saves := s.saves.eraseIdx i } := by
  simp only [durableStep] at h
  split at h
  · rename_i j hj
    split at h
    · exact ⟨j, hj, ‹_›, (Option.some.inj h).symm⟩
    · cases h
  · cases h

theorem load_step {name : String}
    (h : durableStep crc32 load replayRecord empty s (.load name) = some s') :
    ∃ f, s.dir.lookup name = some f ∧ s.up = true ∧ s.loading = false ∧
      (∃ stores, load f.content = .ok stores) ∧
      s' = { s with
        saves := s.saves.map fun j => { j with rolledBack := true }
        rollback := some { name := name, content := f.content,
                           sequence := s.wal.wal.currentSequence, acked := s.wal.acked }
        since := [] } := by
  simp only [durableStep] at h
  split at h
  · rename_i f hf
    split at h
    · rename_i hc
      simp only [Bool.and_eq_true, Bool.not_eq_true'] at hc
      refine ⟨f, hf, hc.1.1.1.1, hc.1.1.2, ?_, (Option.some.inj h).symm⟩
      cases hl : load f.content with
      | error e => rw [hl] at hc; cases hc.2
      | ok stores => exact ⟨stores, rfl⟩
    · cases h
  · cases h

theorem loadStamp_step {now : Nat}
    (h : durableStep crc32 load replayRecord empty s (.loadStamp now) = some s') :
    ∃ r, s.rollback = some r ∧ r.phase = .swapped ∧
      s' = { s with
        dir := s.dir.touch r.name now
        rollback := some { r with stamp := now, phase := .stamped } } := by
  simp only [durableStep] at h
  split at h
  · rename_i r hr
    split at h
    · rename_i hc
      exact ⟨r, hr, hc.1, (Option.some.inj h).symm⟩
    · cases h
  · cases h

theorem loadCheckpoint_step {io : CheckpointIo}
    (h : durableStep crc32 load replayRecord empty s (.loadCheckpoint io) = some s') :
    ∃ r res, s.rollback = some r ∧ r.phase = .stamped ∧
      ∃ dir, writeWalCheckpoint crc32 io r.name r.sequence s.dir = (dir, res) ∧
        ((res = .ok () ∧
            s' = { s with dir := dir, rollback := some { r with phase := .checkpointed } }) ∨
          ((∃ e, res = .error e) ∧ s' = { s with dir := dir, rollback := none })) := by
  simp only [durableStep] at h
  split at h
  · rename_i r hr
    split at h
    · rename_i hphase
      split at h
      · rename_i dir hw
        exact ⟨r, .ok (), hr, hphase, dir, hw, .inl ⟨rfl, (Option.some.inj h).symm⟩⟩
      · rename_i dir e hw
        exact ⟨r, .error e, hr, hphase, dir, hw, .inr ⟨⟨e, rfl⟩, (Option.some.inj h).symm⟩⟩
    · cases h
  · cases h

theorem loadTruncate_step {io : TruncateIo}
    (h : durableStep crc32 load replayRecord empty s (.loadTruncate io) = some s') :
    ∃ r, s.rollback = some r ∧ r.phase = .checkpointed ∧
      (s' = { s with
          wal := s.wal.truncate io r.sequence
          rollback := some { r with phase := .loaded } } ∨
        s' = { s with wal := s.wal.truncate io r.sequence, rollback := none }) := by
  simp only [durableStep] at h
  split at h
  · rename_i r hr
    split at h
    · rename_i hphase
      split at h
      · exact ⟨r, hr, hphase, .inl (Option.some.inj h).symm⟩
      · exact ⟨r, hr, hphase, .inr (Option.some.inj h).symm⟩
    · cases h
  · cases h

theorem loadFails_step
    (h : durableStep crc32 load replayRecord empty s .loadFails = some s') :
    s' = { s with rollback := none } := by
  simp only [durableStep] at h
  split at h
  · split at h
    · exact (Option.some.inj h).symm
    · cases h
  · cases h

theorem cleanup_step {order : List SnapshotFile} {throwsAt : Option Nat}
    (h : durableStep crc32 load replayRecord empty s (.cleanup order throwsAt) = some s') :
    sortedAutos s.dir order ∧
      s' = { s with dir := cleanupOldSnapshots s.retain order throwsAt s.dir } := by
  simp only [durableStep] at h
  split at h
  · rename_i hc
    exact ⟨hc.2, (Option.some.inj h).symm⟩
  · cases h

theorem crash_step {keep : Nat}
    (h : durableStep crc32 load replayRecord empty s (.crash keep) = some s') :
    s' = { s with
      wal := s.wal.crash keep
      up := false
      saves := s.orphans
      rollback := s.rollback.filter fun r => r.phase = .loaded } :=
  (Option.some.inj h).symm

/-- A start leaves the snapshot directory alone; it is refused before `Open`, or the WAL is
    opened, and closed again if the replay fails. -/
theorem start_step {cfg : WalConfig} {io : OpenIo}
    (h : durableStep crc32 load replayRecord empty s (.start cfg io) = some s') :
    s.up = false ∧
      (s' = s ∨ s' = { s with wal := (s.wal.open crc32 cfg io).close } ∨
        ((∃ w rec, recover crc32 load replayRecord empty cfg io s.dir s.wal.wal = (w, .ok rec)) ∧
          s' = { s with wal := s.wal.open crc32 cfg io, up := true })) := by
  simp only [durableStep] at h
  split at h
  · cases h
  · rename_i hup
    refine ⟨by simpa using hup, ?_⟩
    split at h
    · exact .inl (Option.some.inj h).symm
    · cases hr : recover crc32 load replayRecord empty cfg io s.dir s.wal.wal with
      | mk w res =>
        rw [hr] at h
        cases res with
        | error e => exact .inr (.inl (Option.some.inj h).symm)
        | ok rec => exact .inr (.inr ⟨⟨w, rec, rfl⟩, (Option.some.inj h).symm⟩)

end Machine

end Nvecd.Server
