/-
  File:      Nvecd/Server/Recovery.lean
  Subject:   Startup recovery with the WAL enabled (`InitializeComponents`,
             `server/nvecd_server.cpp`): the newest usable checkpointed snapshot, then `Open`,
             then a replay of everything behind its checkpoint.

  How a snapshot file is read and how a record is applied are parameters: recovery itself only
  decides which file is read and which records are applied.

  * `recover` -- the recovery path;
  * `recovery_complete` -- if it succeeds, every acknowledged record behind the base's
    checkpoint is still in the log and has been applied, in order;
  * `recovery_without_base_loses_record` -- with no base the replay starts from sequence 0,
    where the floor check is switched off.
-/
import Nvecd.Storage.SnapshotDir
import Nvecd.Storage.WalRun

namespace Nvecd.Server

open Nvecd.Lib Nvecd.Utils Nvecd.Storage

/-! ## 1. The recovery path -/

/-- What a successful recovery ends with. -/
structure Recovered (σ : Type) where
  base : RecoverySnapshot σ
  replayed : Nat
  stores : σ

section Recover

variable {σ : Type} (crc32 : Bytes → UInt32) (load : Bytes → Except Error σ)
  (replayRecord : σ → WalRecord → Except Error σ) (empty : σ)

/-- The sequence recovery replays from. -/
def replayFloor (checkpoint : Nat) : Nat := if checkpoint = 0 then 0 else checkpoint + 1

/-- The recovery part of `InitializeComponents` with `wal.enabled`. -/
def recover (cfg : WalConfig) (io : OpenIo) (snapshots : SnapshotDir) (w : WriteAheadLog) :
    WriteAheadLog × Except Error (Recovered σ) :=
  match loadNewestValidSnapshot crc32 load snapshots true empty with
  | .error e => (w, .error e)
  | .ok base =>
    match openWal crc32 cfg io w with
    | (w, .error e) => (w, .error e)
    | (w, .ok ()) =>
      match replayValidated crc32 cfg (replayFloor base.checkpoint) replayRecord base.stores w with
      | .error e => (w, .error e)
      | .ok (replayed, stores) => (w, .ok ⟨base, replayed, stores⟩)

variable {crc32 load replayRecord empty}

/-- Recovery that succeeds, taken apart. -/
theorem recover_ok {cfg : WalConfig} {io : OpenIo} {snapshots : SnapshotDir}
    {w w' : WriteAheadLog} {rec : Recovered σ}
    (h : recover crc32 load replayRecord empty cfg io snapshots w = (w', .ok rec)) :
    loadNewestValidSnapshot crc32 load snapshots true empty = .ok rec.base ∧
    openWal crc32 cfg io w = (w', .ok ()) ∧
    replayValidated crc32 cfg (replayFloor rec.base.checkpoint) replayRecord rec.base.stores w' =
      .ok (rec.replayed, rec.stores) := by
  unfold recover at h
  split at h
  · cases (Prod.mk.inj h).2
  rename_i base hbase
  split at h
  · cases (Prod.mk.inj h).2
  rename_i w₁ hopen
  split at h
  · cases (Prod.mk.inj h).2
  rename_i replayed stores hreplay
  obtain ⟨rfl, hrec⟩ := Prod.mk.inj h
  obtain rfl := Except.ok.inj hrec
  exact ⟨hbase, hopen, hreplay⟩

end Recover

/-! ## 2. No gap behind the floor -/

theorem contiguous_above {rs : List WalRecord} {p q : Nat} (hc : Contiguous (some p) rs)
    (hlt : p < q) {b : WalRecord} (hb : b ∈ rs) (hq : q ≤ b.sequence) :
    ∃ r ∈ rs, r.sequence = q := by
  induction rs generalizing p with
  | nil => cases hb
  | cons r rs ih =>
    have hr : r.sequence = p + 1 := by
      have := hc.1
      simp only [breaksSequence, Bool.or_eq_false_iff, bne_eq_false_iff_eq] at this
      exact this.2
    by_cases he : q = p + 1
    · exact ⟨r, List.mem_cons_self, by omega⟩
    · rcases List.mem_cons.mp hb with rfl | hb
      · omega
      · obtain ⟨r', hr', he'⟩ := ih hc.2 (by omega) hb
        exact ⟨r', List.mem_cons_of_mem r hr', he'⟩

/-- Between two records of a contiguous log every number is there. -/
theorem contiguous_between {rs : List WalRecord} {previous : Option Nat} {q : Nat}
    (hc : Contiguous previous rs) (hinc : rs.Pairwise fun a b => a.sequence < b.sequence)
    {a b : WalRecord} (ha : a ∈ rs) (hb : b ∈ rs) (hqa : a.sequence ≤ q) (hqb : q ≤ b.sequence) :
    ∃ r ∈ rs, r.sequence = q := by
  obtain ⟨pre, post, rfl⟩ := List.append_of_mem ha
  by_cases he : q = a.sequence
  · exact ⟨a, ha, he.symm⟩
  · have hpost : b ∈ post := by
      rcases List.mem_append.mp hb with h | h
      · have := (List.pairwise_append.mp hinc).2.2 b h a List.mem_cons_self
        omega
      · rcases List.mem_cons.mp h with rfl | h
        · omega
        · exact h
    have hc' : Contiguous (some a.sequence) post := (contiguous_append.1 hc).2.2
    obtain ⟨r, hr, hrq⟩ := contiguous_above hc' (by omega) hpost hqb
    exact ⟨r, List.mem_append_right _ (List.mem_cons_of_mem a hr), hrq⟩

/-! ## 3. Complete or refused -/

section Complete

variable {crc32 : Bytes → UInt32}

/-- What a replay that succeeds right after an `Open` has done: the floor is in the log (or
    above it, or zero), and every stored record from it on has been applied. -/
theorem replay_opened {σ : Type} {cfg : WalConfig} {io : OpenIo} {segs : List Segment}
    {s : WalRun} {w : WriteAheadLog} {fromSequence n : Nat}
    {callback : σ → WalRecord → Except Error σ} {init final : σ} (h : WalInv crc32 segs s)
    (hio : io.opendirFails = false) (hroom : hasRoom s.wal.dir)
    (hopen : openWal crc32 cfg io s.wal = (w, .ok ()))
    (hreplay : replayValidated crc32 cfg fromSequence callback init w = .ok (n, final)) :
    Contiguous none (recordsOf segs) ∧
    (fromSequence = 0 ∨ (∃ r ∈ recordsOf segs, r.sequence = fromSequence) ∨
      ∀ r ∈ recordsOf segs, r.sequence < fromSequence) ∧
    ((recordsOf segs).filter fun r => fromSequence ≤ r.sequence).foldlM callback init =
      .ok final := by
  obtain ⟨m, hcont, -, rfl, hs'⟩ := openWal_ok h.segments hio (h.room hroom) hopen
  have ha := @attached_opened crc32 segs m
  have hrec : recordsOf (keptSegments segs ++ [freshSegment m]) = recordsOf segs := by
    rw [recordsOf_append, recordsOf_eq_of_contents (contents_keptSegments segs)]
    simp [recordsOf, freshSegment]
  rw [replayValidated_eq hs' (ha.all_sealed hs') rfl (hrec ▸ hcont), hrec] at hreplay
  refine ⟨hcont, ?_⟩
  cases hf : ((recordsOf segs).filter fun r => fromSequence ≤ r.sequence).foldlM callback init with
  | error e => rw [hf] at hreplay; cases hreplay
  | ok acc =>
    rw [hf] at hreplay
    simp only [bind, Except.bind] at hreplay
    split at hreplay
    · cases hreplay
    · rename_i hfloor
      refine ⟨?_, by rw [← (Prod.mk.inj (Except.ok.inj hreplay)).2]⟩
      by_cases h0 : fromSequence = 0
      · exact .inl h0
      by_cases hany : ∃ r ∈ recordsOf segs, r.sequence = fromSequence
      · exact .inr (.inl hany)
      refine .inr (.inr fun r hr => ?_)
      have hany' : ((recordsOf segs).any fun r => r.sequence == fromSequence) = false := by
        rw [List.any_eq_false]
        exact fun r hr he => hany ⟨r, hr, by simpa using he⟩
      by_contra hge
      refine hfloor ?_
      have hle : fromSequence ≤ maxSequenceOf (recordsOf segs) :=
        le_trans (Nat.le_of_not_lt hge) (le_maxSequenceOf hr)
      simpa [hany', h0, opened] using hle

/-- A replay from the floor of a checkpoint that no truncation is above: it cannot be refused,
    and it applies exactly the records behind the checkpoint. -/
theorem replay_behind {σ : Type} {cfg : WalConfig} {io : OpenIo} {segs : List Segment}
    {s : WalRun} {w : WriteAheadLog} {c : Nat} (h : WalInv crc32 segs s)
    (hio : io.opendirFails = false) (hroom : hasRoom s.wal.dir)
    (hopen : openWal crc32 cfg io s.wal = (w, .ok ())) (hc : ∀ t ∈ s.checkpoints, t ≤ c)
    (callback : σ → WalRecord → Except Error σ) (init : σ) :
    replayValidated crc32 cfg (replayFloor c) callback init w =
      (((recordsOf segs).filter fun r => c < r.sequence).foldlM callback init).map
        fun acc => (((recordsOf segs).filter fun r => c < r.sequence).length, acc) := by
  by_cases h0 : c = 0
  · obtain ⟨n, hcont, -, rfl, hs'⟩ := openWal_ok h.segments hio (h.room hroom) hopen
    have ha := @attached_opened crc32 segs n
    have hrec : recordsOf (keptSegments segs ++ [freshSegment n]) = recordsOf segs := by
      rw [recordsOf_append, recordsOf_eq_of_contents (contents_keptSegments segs)]
      simp [recordsOf, freshSegment]
    have hpos : ∀ r ∈ recordsOf segs, 0 < r.sequence := by
      intro r hr
      obtain ⟨seg, hseg, hrs⟩ := List.mem_flatMap.mp hr
      exact (h.segments.fits seg hseg r hrs).2
    have hall : ((recordsOf segs).filter fun r => 0 ≤ r.sequence) =
        (recordsOf segs).filter fun r => 0 < r.sequence :=
      List.filter_congr fun r hr => by simp [hpos r hr]
    rw [replayFloor, if_pos h0, h0, replayValidated_eq hs' (ha.all_sealed hs') rfl (hrec ▸ hcont),
      hrec, hall]
    rfl
  · rw [replayFloor, if_neg h0, replay_after_open h hio hroom hopen hc callback init]
    rfl

/-- Recovery from a base that no truncation is above. -/
theorem recover_of_base {σ : Type} {load : Bytes → Except Error σ}
    {replayRecord : σ → WalRecord → Except Error σ} {empty : σ} {cfg : WalConfig} {io : OpenIo}
    {segs : List Segment} {s : WalRun} {snapshots : SnapshotDir} {w : WriteAheadLog}
    {base : RecoverySnapshot σ} (h : WalInv crc32 segs s) (hopen : walOk s (.open cfg io))
    (hbase : loadNewestValidSnapshot crc32 load snapshots true empty = .ok base)
    (hw : openWal crc32 cfg io s.wal = (w, .ok ()))
    (hfloor : ∀ t ∈ s.checkpoints, t ≤ base.checkpoint) :
    recover crc32 load replayRecord empty cfg io snapshots s.wal =
      (w, (((recordsOf segs).filter fun r => base.checkpoint < r.sequence).foldlM replayRecord
        base.stores).map fun stores =>
          ⟨base, ((recordsOf segs).filter fun r => base.checkpoint < r.sequence).length, stores⟩) := by
  unfold recover
  rw [hbase]
  simp only [hw, replay_behind h hopen.1 hopen.2 hw hfloor]
  cases ((recordsOf segs).filter fun r => base.checkpoint < r.sequence).foldlM replayRecord
      base.stores <;> rfl

/-- **Recovery is complete or refused.** After every run that meets `walOk`, for any snapshot
    directory: if recovery succeeds with a base of checkpoint `c`, then every acknowledged
    record above `c` is still in the log, and the stores are the base's with exactly the stored
    records above `c` applied in order. Without a base (`c = 0`) the log must still start at
    record 1. -/
theorem recovery_complete {σ : Type} {load : Bytes → Except Error σ}
    {replayRecord : σ → WalRecord → Except Error σ} {empty : σ} {cfg₀ cfg : WalConfig}
    {acts : List WalAction} {s : WalRun} {io : OpenIo} {snapshots : SnapshotDir}
    {w : WriteAheadLog} {rec : Recovered σ}
    (hrun : run (walStep crc32) (WalRun.initial cfg₀) acts = some s)
    (hok : Meets (walStep crc32) walOk (WalRun.initial cfg₀) acts)
    (hopen : walOk s (.open cfg io))
    (hfirst : ∀ base, loadNewestValidSnapshot crc32 load snapshots true empty = .ok base →
      base.checkpoint = 0 → ∀ r ∈ (storedRecords crc32 s.wal.dir).head?, r.sequence = 1)
    (h : recover crc32 load replayRecord empty cfg io snapshots s.wal = (w, .ok rec)) :
    loadNewestValidSnapshot crc32 load snapshots true empty = .ok rec.base ∧
    (∀ r ∈ s.acked, rec.base.checkpoint < r.sequence → r ∈ storedRecords crc32 s.wal.dir) ∧
    ((storedRecords crc32 s.wal.dir).filter fun r => rec.base.checkpoint < r.sequence).foldlM
      replayRecord rec.base.stores = .ok rec.stores := by
  obtain ⟨hbase, hopened, hreplay⟩ := recover_ok h
  obtain ⟨segs, hinv⟩ := walInv_run hrun hok
  obtain ⟨hcont, hfloor, hfold⟩ := replay_opened hinv hopen.1 hopen.2 hopened hreplay
  have hstored := hinv.segments.storedRecords
  have hpos : ∀ r ∈ recordsOf segs, 0 < r.sequence := by
    intro r hr
    obtain ⟨seg, hseg, hrs⟩ := List.mem_flatMap.mp hr
    exact (hinv.segments.fits seg hseg r hrs).2
  rw [hstored] at hfirst ⊢
  refine ⟨hbase, ?_, ?_⟩
  · intro r hr hlt
    -- the log reaches from the floor to this record's number without a gap
    obtain ⟨b, hb, hbq⟩ : ∃ b ∈ recordsOf segs, r.sequence ≤ b.sequence := by
      rcases (hinv.log.ackedBelow r hr).mono hinv.log.durable_subset with h0 | hex
      · omega
      · exact hex
    have hlow : ∃ a ∈ recordsOf segs, a.sequence ≤ r.sequence := by
      by_cases hc : rec.base.checkpoint = 0
      · cases hhead : (recordsOf segs).head? with
        | none => rw [List.head?_eq_none_iff.mp hhead] at hb; cases hb
        | some a =>
          have ha1 := hfirst rec.base hbase hc a hhead
          exact ⟨a, List.mem_of_head? hhead, by omega⟩
      · rw [replayFloor, if_neg hc] at hfloor
        rcases hfloor with h0 | ⟨a, ha, he⟩ | hall
        · omega
        · exact ⟨a, ha, by omega⟩
        · have := hall b hb
          omega
    obtain ⟨a, ha, haq⟩ := hlow
    obtain ⟨r', hr', he⟩ := contiguous_between hcont hinv.segments.increasing ha hb haq hbq
    exact hinv.log.same r hr r' hr' he ▸ hr'
  · rw [← hfold]
    refine congrArg (fun l => List.foldlM replayRecord rec.base.stores l)
      (List.filter_congr fun r hr => ?_)
    have := hpos r hr
    unfold replayFloor
    split
    · rename_i hc
      simp only [hc, Nat.zero_le, decide_true, decide_eq_true_eq]
      exact this
    · rfl

end Complete

/-! ## 4. Two recoveries -/

/-- Two records in two segments, a checkpoint over the first, a crash. -/
def truncatedRun : List WalAction :=
  [.open defaultWalConfig {}, .append {} 0 .kVecDel [1], .close, .open defaultWalConfig {},
    .append {} 0 .kVecDel [2], .truncate {} 1, .crash 34]

/-- Stores that remember which records were applied. -/
def logRecord (stores : List Nat) (r : WalRecord) : Except Error (List Nat) :=
  .ok (stores ++ [r.sequence])

/-- **No base, no floor check**: without a snapshot recovery succeeds with record 2 alone,
    although record 1 was acknowledged. -/
theorem recovery_without_base_loses_record :
    ∃ s w rec, run (walStep crc32) (WalRun.initial defaultWalConfig) truncatedRun = some s ∧
      recover crc32 (fun _ => .ok [1]) logRecord [] defaultWalConfig {} {} s.wal =
        (w, .ok rec) ∧
      rec.base.checkpoint = 0 ∧ rec.stores = [2] ∧
      ∃ r ∈ s.acked, r.sequence = 1 ∧ r ∉ storedRecords crc32 s.wal.dir := by
  have hrun : (run (walStep crc32) (WalRun.initial defaultWalConfig) truncatedRun).map (fun s =>
      ((recover crc32 (fun _ => .ok [1]) logRecord [] defaultWalConfig {} {} s.wal).2.toOption.map
        fun rec => (rec.base.checkpoint, rec.stores),
        s.acked.any fun r => r.sequence == 1 && !(storedRecords crc32 s.wal.dir).contains r)) =
      some (some (0, [2]), true) := by decide +kernel
  obtain ⟨s, hs, he⟩ := Option.map_eq_some_iff.mp hrun
  simp only [Prod.mk.injEq] at he
  obtain ⟨hrec, hacked⟩ := he
  cases hw : recover crc32 (fun _ => .ok [1]) logRecord [] defaultWalConfig {} {} s.wal with
  | mk w res =>
    rw [hw] at hrec
    cases res with
    | error e => cases hrec
    | ok rec =>
      simp only [Except.toOption, Option.map_some, Option.some.injEq, Prod.mk.injEq] at hrec
      obtain ⟨r, hr, hr'⟩ := List.any_eq_true.mp hacked
      simp only [Bool.and_eq_true, beq_iff_eq, Bool.not_eq_true', List.contains_eq_mem,
        decide_eq_false_iff_not] at hr'
      exact ⟨s, w, rec, hs, hw, hrec.1, hrec.2, r, hr, hr'.1, hr'.2⟩

/-- The directory that goes with `truncatedRun`: the snapshot record 1 was checkpointed in. -/
def checkpointedDir : SnapshotDir :=
  { files := [⟨"base.nvec", true, 5, [7]⟩]
    sidecars := [("base.nvec", encodeCheckpoint crc32 1 [7])] }

theorem recovery_complete_checkpointedDir :
    ∃ s w rec, run (walStep crc32) (WalRun.initial defaultWalConfig) truncatedRun = some s ∧
      recover crc32 (fun _ => .ok [1]) logRecord [] defaultWalConfig {} checkpointedDir s.wal =
        (w, .ok rec) ∧
      rec.base.checkpoint = 1 ∧ rec.stores = [1, 2] ∧
      ∀ r ∈ s.acked, rec.base.checkpoint < r.sequence → r ∈ storedRecords crc32 s.wal.dir := by
  have hrun : (run (walStep crc32) (WalRun.initial defaultWalConfig) truncatedRun).map (fun s =>
      ((recover crc32 (fun _ => .ok [1]) logRecord [] defaultWalConfig {} checkpointedDir
        s.wal).2.toOption.map fun rec => (rec.base.checkpoint, rec.stores),
        decide (walOk s (.open defaultWalConfig {})))) = some (some (1, [1, 2]), true) := by
    decide +kernel
  have hok : Meets (walStep crc32) walOk (WalRun.initial defaultWalConfig) truncatedRun := by
    decide +kernel
  have hbase : (loadNewestValidSnapshot crc32 (fun _ => .ok ([1] : List Nat)) checkpointedDir
      true []).toOption.map (·.checkpoint) = some 1 := by decide +kernel
  obtain ⟨s, hs, he⟩ := Option.map_eq_some_iff.mp hrun
  simp only [Prod.mk.injEq, decide_eq_true_eq] at he
  obtain ⟨hrec, hopen⟩ := he
  cases hw : recover crc32 (fun _ => .ok [1]) logRecord [] defaultWalConfig {} checkpointedDir
      s.wal with
  | mk w res =>
    rw [hw] at hrec
    cases res with
    | error e => cases hrec
    | ok rec =>
      simp only [Except.toOption, Option.map_some, Option.some.injEq, Prod.mk.injEq] at hrec
      have hfirst : ∀ base, loadNewestValidSnapshot crc32 (fun _ => .ok ([1] : List Nat))
          checkpointedDir true [] = .ok base → base.checkpoint = 0 →
          ∀ r ∈ (storedRecords crc32 s.wal.dir).head?, r.sequence = 1 := by
        intro base hb h0
        rw [hb] at hbase
        simp only [Except.toOption, Option.map_some, Option.some.injEq] at hbase
        omega
      have hcomplete := recovery_complete hs hok hopen hfirst hw
      exact ⟨s, w, rec, hs, hw, hrec.1, hrec.2, hcomplete.2.1⟩

end Nvecd.Server
