/-
  File:      Nvecd/Storage/WalRun.lean
  Subject:   Runs of one WAL directory over any number of restarts: appends, rotations,
             truncations, closes, crashes and opens, in any order.

  * `LogInv` -- what a run keeps about its records, in terms of records alone: acknowledged
    records are covered by a checkpoint or still there, and no number above the checkpoints
    is missing;
  * `WalInv` -- the same over a directory of segments, with the object that writes to it;
  * `walInv_step` -- every step that meets `walOk` keeps it;
  * `wal_continuity` -- the next sequence number is above everything acknowledged or
    checkpointed before, and a replay behind the checkpoint delivers what came after it.

  `walOk` leaves out what the code gets wrong: the sequence number is stored nowhere but in the
  records, so a truncation that deletes the last record-bearing segment, while the current one
  holds only its header, makes the next `Open` start again from zero.
-/
import Nvecd.Lib.Crc32
import Nvecd.Lib.Machine
import Nvecd.Storage.WalSpec

namespace Nvecd.Storage

open Nvecd.Lib Nvecd.Utils

/-! ## 1. The log behind the files -/

/-- `q` is zero or at most the number of one of the records. -/
def Below (rs : List WalRecord) (q : Nat) : Prop := q = 0 ∨ ∃ r ∈ rs, q ≤ r.sequence

theorem Below.mono {rs rs' : List WalRecord} {q : Nat} (h : Below rs q) (hsub : rs ⊆ rs') :
    Below rs' q := by
  rcases h with h | ⟨r, hr, hq⟩
  · exact .inl h
  · exact .inr ⟨r, hsub hr, hq⟩

theorem Below.le {rs : List WalRecord} {p q : Nat} (h : Below rs q) (hpq : p ≤ q) :
    Below rs p := by
  rcases h with h | ⟨r, hr, hq⟩
  · exact .inl (by omega)
  · exact .inr ⟨r, hr, le_trans hpq hq⟩

theorem below_iff {rs : List WalRecord} {q : Nat} : Below rs q ↔ q ≤ maxSequenceOf rs := by
  constructor
  · rintro (h | ⟨r, hr, hq⟩)
    · omega
    · exact le_trans hq (le_maxSequenceOf hr)
  · intro h
    by_cases hnil : rs = []
    · subst hnil
      exact .inl (Nat.le_zero.mp h)
    · obtain ⟨r, hr, he⟩ := exists_maxSequenceOf hnil
      exact .inr ⟨r, hr, he ▸ h⟩

/-- **What a run keeps about its log.** `records` is everything in the files, `durable` the part
    a crash cannot take. -/
structure LogInv (records durable acked : List WalRecord) (checkpoints : List Nat) : Prop where
  durable_subset : durable ⊆ records
  ackedBelow : ∀ r ∈ acked, Below durable r.sequence
  checkpointsBelow : ∀ t ∈ checkpoints, Below durable t
  kept : ∀ r ∈ acked, (∃ t ∈ checkpoints, r.sequence ≤ t) ∨ r ∈ durable
  noGap : ∀ q, 0 < q → (∀ t ∈ checkpoints, t < q) → Below records q →
    ∃ r ∈ records, r.sequence = q
  same : ∀ r ∈ acked, ∀ r' ∈ records, r'.sequence = r.sequence → r' = r

namespace LogInv

variable {records durable acked : List WalRecord} {checkpoints : List Nat}

theorem empty : LogInv [] [] [] [] where
  durable_subset := List.Subset.refl _
  ackedBelow := by simp
  checkpointsBelow := by simp
  kept := by simp
  noGap := by
    rintro q hq - (h | ⟨r, hr, -⟩)
    · omega
    · cases hr
  same := by simp

/-- More of the log becomes durable. -/
theorem settle (h : LogInv records durable acked checkpoints) {durable' : List WalRecord}
    (hsub : durable ⊆ durable') (hsub' : durable' ⊆ records) :
    LogInv records durable' acked checkpoints where
  durable_subset := hsub'
  ackedBelow := fun r hr => (h.ackedBelow r hr).mono hsub
  checkpointsBelow := fun t ht => (h.checkpointsBelow t ht).mono hsub
  kept := fun r hr => (h.kept r hr).imp_right (hsub ·)
  noGap := h.noGap
  same := h.same

/-- A record with the next number is written. -/
theorem push (h : LogInv records durable acked checkpoints) {r : WalRecord}
    (hseq : r.sequence = maxSequenceOf records + 1) :
    LogInv (records ++ [r]) durable acked checkpoints where
  durable_subset := fun _ hx => List.mem_append_left _ (h.durable_subset hx)
  ackedBelow := h.ackedBelow
  checkpointsBelow := h.checkpointsBelow
  kept := h.kept
  noGap := by
    intro q hq hcp hb
    by_cases hlast : q = r.sequence
    · exact ⟨r, by simp, hlast.symm⟩
    · rw [below_iff, maxSequenceOf_append] at hb
      have hone : maxSequenceOf [r] = r.sequence := by simp [maxSequenceOf]
      have hb' : Below records q := below_iff.2 (by omega)
      obtain ⟨r', hr', he⟩ := h.noGap q hq hcp hb'
      exact ⟨r', List.mem_append_left _ hr', he⟩
  same := by
    intro a ha r' hr' he
    rcases List.mem_append.mp hr' with hr' | hr'
    · exact h.same a ha r' hr' he
    · -- the new number is above every acknowledged one
      have hle := below_iff.1 ((h.ackedBelow a ha).mono h.durable_subset)
      rw [List.mem_singleton.mp hr'] at he
      omega

/-- A durable record is acknowledged. -/
theorem ack (h : LogInv records durable acked checkpoints)
    (hinc : records.Pairwise fun a b => a.sequence < b.sequence) {r : WalRecord}
    (hr : r ∈ durable) : LogInv records durable (r :: acked) checkpoints where
  durable_subset := h.durable_subset
  ackedBelow := by
    intro r' hr'
    rcases List.mem_cons.mp hr' with rfl | hr'
    · exact .inr ⟨r', hr, le_rfl⟩
    · exact h.ackedBelow r' hr'
  checkpointsBelow := h.checkpointsBelow
  kept := by
    intro r' hr'
    rcases List.mem_cons.mp hr' with rfl | hr'
    · exact .inr hr
    · exact h.kept r' hr'
  noGap := h.noGap
  same := by
    intro a ha r' hr' he
    rcases List.mem_cons.mp ha with rfl | ha
    · by_contra hne
      have hp : records.Pairwise fun a b => a.sequence ≠ b.sequence :=
        hinc.imp fun hab => Nat.ne_of_lt hab
      have : Std.Symm fun a b : WalRecord => a.sequence ≠ b.sequence := ⟨fun _ _ hab => hab.symm⟩
      exact hp.forall hr' (h.durable_subset hr) hne he
    · exact h.same a ha r' hr' he

/-- A crash takes the end of the log, behind the durable part. -/
theorem lose (h : LogInv records durable acked checkpoints)
    (hinc : records.Pairwise fun a b => a.sequence < b.sequence) {records' : List WalRecord}
    (hpre : records' <+: records) (hsub : durable ⊆ records') :
    LogInv records' durable acked checkpoints where
  durable_subset := hsub
  ackedBelow := h.ackedBelow
  checkpointsBelow := h.checkpointsBelow
  kept := h.kept
  noGap := by
    intro q hq hcp hb
    obtain ⟨lost, rfl⟩ := hpre
    obtain ⟨r, hr, he⟩ := h.noGap q hq hcp (hb.mono (List.subset_append_left _ _))
    rcases List.mem_append.mp hr with hr | hr
    · exact ⟨r, hr, he⟩
    · -- a lost record is above everything that is left
      rcases hb with h0 | ⟨r', hr', hq'⟩
      · omega
      · have := (List.pairwise_append.mp hinc).2.2 r' hr' r hr
        omega
  same := fun a ha r' hr' => h.same a ha r' (hpre.subset hr')

/-- A checkpoint at `upTo` deletes records it covers, and something at least as high stays. -/
theorem checkpoint (h : LogInv records durable acked checkpoints) {upTo : Nat}
    {records' durable' : List WalRecord} (hup : upTo ≤ maxSequenceOf acked)
    (hsub : durable' ⊆ records') (hrec : records' ⊆ records)
    (hgone : ∀ r ∈ records, r ∉ records' → r.sequence ≤ upTo)
    (hgone' : ∀ r ∈ durable, r ∉ durable' → r.sequence ≤ upTo)
    (htop : ∀ q, Below durable q → Below durable' q) :
    LogInv records' durable' acked (upTo :: checkpoints) where
  durable_subset := hsub
  ackedBelow := fun r hr => htop _ (h.ackedBelow r hr)
  checkpointsBelow := by
    intro t ht
    rcases List.mem_cons.mp ht with rfl | ht
    · rcases below_iff.2 hup with h0 | ⟨r, hr, hle⟩
      · exact .inl h0
      · exact (htop _ (h.ackedBelow r hr)).le hle
    · exact htop _ (h.checkpointsBelow t ht)
  kept := by
    intro r hr
    rcases h.kept r hr with ⟨t, ht, hle⟩ | hd
    · exact .inl ⟨t, List.mem_cons_of_mem _ ht, hle⟩
    · by_cases hd' : r ∈ durable'
      · exact .inr hd'
      · exact .inl ⟨upTo, List.mem_cons_self, hgone' r hd hd'⟩
  noGap := by
    intro q hq hcp hb
    obtain ⟨r, hr, he⟩ := h.noGap q hq (fun t ht => hcp t (List.mem_cons_of_mem _ ht))
      (hb.mono hrec)
    by_cases hr' : r ∈ records'
    · exact ⟨r, hr', he⟩
    · have h₁ := hgone r hr hr'
      have h₂ := hcp upTo List.mem_cons_self
      omega
  same := fun a ha r' hr' => h.same a ha r' (hrec hr')

end LogInv

/-! ## 2. The machine -/

/-- A WAL directory in use. Beside the object stand what a run remembers: the acknowledged
    records, the checkpoints `Truncate` was called with, and which file a crash may shorten,
    down to how many bytes. -/
structure WalRun where
  cfg : WalConfig
  wal : WriteAheadLog
  acked : List WalRecord := []
  checkpoints : List Nat := []
  unsynced : Option (Nat × Nat) := none

inductive WalAction where
  | append (io : AppendIo) (now : Nat) (op : WalOpType) (payload : Bytes)
  | truncate (io : TruncateIo) (upTo : Nat)
  | close
  /-- `SyncLoop` finds that its fsync fails. -/
  | syncFails
  /-- The process dies; of the file it was writing, `keep` bytes survive. -/
  | crash (keep : Nat)
  | open (cfg : WalConfig) (io : OpenIo)

/-- An empty directory. -/
def WalRun.initial (cfg : WalConfig) : WalRun := { cfg := cfg, wal := { dir := [] } }

section Machine

variable (crc32 : Bytes → UInt32)

namespace WalRun

/-- `Append`. Once it has answered, what it has written has to survive. -/
def append (s : WalRun) (io : AppendIo) (now : Nat) (op : WalOpType) (payload : Bytes) : WalRun :=
  match Storage.append crc32 s.cfg io now op payload s.wal with
  | (w, .ok seq) =>
    { s with
      wal := w
      acked := ⟨seq, now % 2 ^ 64, op.toByte, payload⟩ :: s.acked
      unsynced := some (w.currentFileNumber, w.currentFileSize) }
  | (w, .error _) =>
    { s with
      wal := w
      unsynced := if w.currentFileNumber = s.wal.currentFileNumber then s.unsynced
        else some (w.currentFileNumber, kWalFileHeaderSize) }

/-- `Truncate`. -/
def truncate (s : WalRun) (io : TruncateIo) (upTo : Nat) : WalRun :=
  { s with
    wal := (Storage.truncate s.cfg io upTo s.wal).1
    checkpoints := upTo :: s.checkpoints }

/-- `Close`; a failed background fsync has the same effect. -/
def close (s : WalRun) : WalRun := { s with wal := Storage.close s.wal }

/-- A crash leaves the directory, with the file being written cut at some byte. -/
def crash (s : WalRun) (keep : Nat) : WalRun :=
  { s with
    wal := { dir := match s.unsynced with
      | none => s.wal.dir
      | some (n, _) => s.wal.dir.truncateTo n keep }
    unsynced := none }

/-- `Open`. What an earlier process left is taken to have reached the disk. -/
def «open» (s : WalRun) (cfg : WalConfig) (io : OpenIo) : WalRun :=
  match openWal crc32 cfg io s.wal with
  | (w, .ok ()) =>
    { s with cfg := cfg, wal := w, unsynced := some (w.currentFileNumber, kWalFileHeaderSize) }
  | (w, .error _) => { s with cfg := cfg, wal := w, unsynced := none }

end WalRun

/-- One step; every one of them is always possible. -/
def walStep (s : WalRun) : WalAction → Option WalRun
  | .append io now op payload => some (s.append crc32 io now op payload)
  | .truncate io upTo => some (s.truncate io upTo)
  | .close => some s.close
  | .syncFails => some s.close
  | .crash keep => some (s.crash keep)
  | .open cfg io => some (s.open crc32 cfg io)

section Sequence

variable {crc32} {s : WalRun}

@[simp] theorem WalRun.append_checkpoints (io : AppendIo) (now : Nat) (op : WalOpType)
    (payload : Bytes) : (s.append crc32 io now op payload).checkpoints = s.checkpoints := by
  unfold WalRun.append
  split <;> rfl

@[simp] theorem WalRun.open_checkpoints (cfg : WalConfig) (io : OpenIo) :
    (s.open crc32 cfg io).checkpoints = s.checkpoints := by
  unfold WalRun.open
  split <;> rfl

theorem WalRun.append_sequence_le {io : AppendIo} {now : Nat} {op : WalOpType} {payload : Bytes}
    (h : s.wal.currentSequence ≤ kMaxU64) :
    s.wal.currentSequence ≤ (s.append crc32 io now op payload).wal.currentSequence ∧
      (s.append crc32 io now op payload).wal.currentSequence ≤ kMaxU64 := by
  have hle := @Storage.append_sequence_le crc32 s.cfg io now op payload s.wal h
  unfold WalRun.append
  split <;> rename_i heq <;> rw [heq] at hle <;> exact hle

theorem WalRun.open_sequence_le {cfg : WalConfig} {io : OpenIo}
    (h : s.wal.currentSequence ≤ kMaxU64) :
    (s.open crc32 cfg io).wal.currentSequence ≤ kMaxU64 := by
  have hle := @openWal_sequence_le crc32 cfg io s.wal h
  unfold WalRun.open
  split <;> rename_i heq <;> rw [heq] at hle <;> exact hle

@[simp] theorem WalRun.truncate_sequence (io : TruncateIo) (upTo : Nat) :
    (s.truncate io upTo).wal.currentSequence = s.wal.currentSequence := by
  simp [WalRun.truncate, truncate_fst]

end Sequence

/-- The file holds a record that a crash has to leave. -/
def durableFile (unsynced : Option (Nat × Nat)) (f : WalFile) : Prop :=
  match unsynced with
  | none => True
  | some (n, bytes) => f.fileNumber = n → kWalFileHeaderSize < bytes

instance (v : Option (Nat × Nat)) (f : WalFile) : Decidable (durableFile v f) :=
  match v with
  | none => isTrue trivial
  | some (n, bytes) => inferInstanceAs (Decidable (f.fileNumber = n → kWalFileHeaderSize < bytes))

/-- Every file `Truncate` deletes is outlived by one with a durable record at least as high. -/
def outlived (s : WalRun) (io : TruncateIo) (upTo : Nat) : Prop :=
  ∀ f ∈ s.wal.files, deletes s.wal io upTo f = true →
    ∃ g ∈ s.wal.files, deletes s.wal io upTo g = false ∧ f.maxSequence ≤ g.maxSequence ∧
      durableFile s.unsynced g

/-- A new segment's number still has six digits. -/
def hasRoom (dir : Dir) : Prop := ∀ e ∈ dir, e.number < 999999

/-- **The steps on which the sequence continues**: a truncation goes at most up to the highest
    acknowledged record and leaves one as high as any it deletes, a crash leaves acknowledged
    bytes, the directory can be listed, and file numbers stay within the six digits the scan
    reads. -/
def walOk (s : WalRun) : WalAction → Prop
  | .append .. => hasRoom s.wal.dir
  | .truncate io upTo => upTo ≤ maxSequenceOf s.acked ∧ outlived s io upTo
  | .crash keep => ∀ v ∈ s.unsynced, v.2 ≤ keep
  | .open _ io => io.opendirFails = false ∧ hasRoom s.wal.dir
  | _ => True

instance (s : WalRun) (io : TruncateIo) (upTo : Nat) : Decidable (outlived s io upTo) :=
  inferInstanceAs (Decidable (∀ f ∈ s.wal.files, _ → ∃ g ∈ s.wal.files, _))

instance (dir : Dir) : Decidable (hasRoom dir) := inferInstanceAs (Decidable (∀ e ∈ dir, _))

instance (s : WalRun) : ∀ a, Decidable (walOk s a)
  | .append .. => inferInstanceAs (Decidable (hasRoom _))
  | .truncate io upTo => inferInstanceAs (Decidable (_ ∧ outlived s io upTo))
  | .crash keep => inferInstanceAs (Decidable (∀ v ∈ s.unsynced, v.2 ≤ keep))
  | .open .. => inferInstanceAs (Decidable (_ ∧ hasRoom _))
  | .close => isTrue trivial
  | .syncFails => isTrue trivial

/-! ## 3. The invariant -/

/-- The records of a segment that a crash cannot take. -/
def Segment.durable (unsynced : Option (Nat × Nat)) (s : Segment) : List WalRecord :=
  match unsynced with
  | none => s.records
  | some (n, bytes) =>
    if s.number = n then fitting crc32 (bytes - kWalFileHeaderSize) s.records else s.records

def durableOf (unsynced : Option (Nat × Nat)) (segs : List Segment) : List WalRecord :=
  segs.flatMap (Segment.durable crc32 unsynced)

/-- **The invariant of a run**: the directory is a list of segments, the object (if it has a
    file open) describes it, only the last segment is unsynced, and the log is complete. -/
structure WalInv (segs : List Segment) (s : WalRun) : Prop where
  segments : SegmentsOn crc32 segs s.wal.dir
  files : FilesOn segs s.wal.files
  attached : s.wal.currentFd ≠ none →
    ∃ pre last, segs = pre ++ [last] ∧ Attached crc32 pre last s.wal
  unsynced : ∀ n bytes, s.unsynced = some (n, bytes) → kWalFileHeaderSize ≤ bytes ∧
    ∀ seg ∈ segs, seg.number = n → (∀ t ∈ segs, t.number ≤ n) ∧
      (kWalFileHeaderSize < bytes →
        fitting crc32 (bytes - kWalFileHeaderSize) seg.records ≠ [])
  log : LogInv (recordsOf segs) (durableOf crc32 s.unsynced segs) s.acked s.checkpoints

/-- Every record in the new log was in the old one or has been acknowledged. -/
def Traced (segs segs' : List Segment) (s' : WalRun) : Prop :=
  ∀ r ∈ recordsOf segs', r ∈ recordsOf segs ∨ r ∈ s'.acked

/-- The step leaves no complete record without an acknowledgement: no `fsync` fails behind one. -/
def acknowledges (s : WalRun) : WalAction → Prop
  | .append io .. => s.cfg.syncOnWrite = true → io.write ≠ .fsyncFails
  | _ => True

instance (s : WalRun) : ∀ a, Decidable (acknowledges s a)
  | .append io .. => inferInstanceAs (Decidable (_ → io.write ≠ .fsyncFails))
  | .truncate .. => isTrue trivial
  | .crash _ => isTrue trivial
  | .open .. => isTrue trivial
  | .close => isTrue trivial
  | .syncFails => isTrue trivial

variable {crc32}

theorem Traced.of_subset {segs segs' : List Segment} {s' : WalRun}
    (h : recordsOf segs' ⊆ recordsOf segs) : Traced segs segs' s' := fun _ hr => .inl (h hr)

theorem durable_subset (unsynced : Option (Nat × Nat)) (s : Segment) :
    Segment.durable crc32 unsynced s ⊆ s.records := by
  unfold Segment.durable
  split
  · exact List.Subset.refl _
  · split
    · exact (fitting_isPrefix _ _).subset
    · exact List.Subset.refl _

theorem durableOf_subset (unsynced : Option (Nat × Nat)) (segs : List Segment) :
    durableOf crc32 unsynced segs ⊆ recordsOf segs := by
  intro r hr
  obtain ⟨s, hs, hrs⟩ := List.mem_flatMap.mp hr
  exact List.mem_flatMap.mpr ⟨s, hs, durable_subset unsynced s hrs⟩

/-- Nothing is at risk when the file a crash may shorten holds no record. -/
theorem recordsOf_subset_durableOf {unsynced : Option (Nat × Nat)} {segs : List Segment}
    (h : ∀ n bytes, unsynced = some (n, bytes) → ∀ s ∈ segs, s.number = n →
      (frames crc32 s.records).length ≤ bytes - kWalFileHeaderSize) :
    recordsOf segs ⊆ durableOf crc32 unsynced segs := by
  intro r hr
  obtain ⟨s, hs, hrs⟩ := List.mem_flatMap.mp hr
  refine List.mem_flatMap.mpr ⟨s, hs, ?_⟩
  unfold Segment.durable
  split
  · exact hrs
  · rename_i n bytes
    split
    · rename_i hn
      rw [fitting_of_length_le (h n bytes rfl s hs hn)]
      exact hrs
    · exact hrs

theorem recordsOf_eq_of_contents {segs segs' : List Segment} (h : contents segs' = contents segs) :
    recordsOf segs' = recordsOf segs := by
  rw [recordsOf_eq_contents, h, ← recordsOf_eq_contents]

/-- A state without an unsynced file: everything in the files is durable. -/
theorem LogInv.settled {segs segs' : List Segment} {unsynced unsynced' : Option (Nat × Nat)}
    {acked : List WalRecord} {checkpoints : List Nat}
    (h : LogInv (recordsOf segs) (durableOf crc32 unsynced segs) acked checkpoints)
    (hrec : recordsOf segs' = recordsOf segs)
    (hsafe : recordsOf segs' ⊆ durableOf crc32 unsynced' segs') :
    LogInv (recordsOf segs') (durableOf crc32 unsynced' segs') acked checkpoints := by
  rw [← hrec] at h
  exact h.settle (fun r hr => hsafe (h.durable_subset hr)) (durableOf_subset _ _)

/-! ## 4. One step -/

theorem WalInv.initial (cfg : WalConfig) : WalInv crc32 [] (WalRun.initial cfg) where
  segments := ⟨rfl, List.Pairwise.nil, by simp, by simp, by simp, List.Pairwise.nil⟩
  files := fun f hf => by cases hf
  attached := fun h => absurd rfl h
  unsynced := fun n bytes h => by cases h
  log := LogInv.empty

theorem WalInv.close {segs : List Segment} {s : WalRun} (h : WalInv crc32 segs s) :
    WalInv crc32 segs s.close where
  segments := h.segments
  files := h.files
  attached := fun hfd => absurd rfl hfd
  unsynced := h.unsynced
  log := h.log

/-- A state with no file open and nothing unsynced. -/
theorem WalInv.idle {segs : List Segment} {s : WalRun} {durable : List WalRecord}
    (hs : SegmentsOn crc32 segs s.wal.dir) (hf : FilesOn segs s.wal.files)
    (hfd : s.wal.currentFd = none) (hv : s.unsynced = none)
    (hlog : LogInv (recordsOf segs) durable s.acked s.checkpoints) : WalInv crc32 segs s where
  segments := hs
  files := hf
  attached := fun hne => absurd hfd hne
  unsynced := fun n bytes h => by rw [hv] at h; cases h
  log := by
    rw [hv]
    exact hlog.settle hlog.durable_subset (List.Subset.refl _)

theorem WalInv.room {segs : List Segment} {s : WalRun} (h : WalInv crc32 segs s)
    (hroom : hasRoom s.wal.dir) : ∀ seg ∈ segs, seg.number < 999999 := by
  intro seg hseg
  refine hroom (seg.entry crc32) ?_
  rw [h.segments.dir_eq]
  exact List.mem_map_of_mem hseg

theorem WalInv.open {segs : List Segment} {s : WalRun} (h : WalInv crc32 segs s)
    {cfg : WalConfig} {io : OpenIo} (hio : io.opendirFails = false)
    (hroom : hasRoom s.wal.dir) :
    ∃ segs', WalInv crc32 segs' (s.open crc32 cfg io) ∧ recordsOf segs' = recordsOf segs := by
  have hroom' := h.room hroom
  unfold WalRun.open
  split
  · rename_i w hopen
    obtain ⟨n, hc, hlt, rfl, hs'⟩ := openWal_ok h.segments hio hroom' hopen
    have hrec : recordsOf (keptSegments segs ++ [freshSegment n]) = recordsOf segs := by
      rw [recordsOf_append, recordsOf_eq_of_contents (contents_keptSegments segs)]
      simp [recordsOf, freshSegment]
    refine ⟨keptSegments segs ++ [freshSegment n], ⟨hs', filesOn_map _, fun _ =>
      ⟨keptSegments segs, freshSegment n, rfl, ?_⟩, ?_, ?_⟩, hrec⟩
    · refine ⟨rfl, rfl, ?_, rfl, freshSegment_sealed n, ?_⟩
      · simp [opened, freshSegment, Segment.bytes, kWalFileHeaderSize]
      · rw [hrec]; rfl
    · intro n' bytes hv
      obtain ⟨rfl, rfl⟩ : n = n' ∧ kWalFileHeaderSize = bytes := by simpa [opened] using hv
      refine ⟨le_rfl, fun seg hseg _ => ⟨?_, fun hlt => absurd hlt (lt_irrefl _)⟩⟩
      intro t ht
      exact hs'.number_le_last t ht
    · refine h.log.settled hrec (recordsOf_subset_durableOf fun n' bytes hv seg hseg hn => ?_)
      obtain ⟨rfl, rfl⟩ : n = n' ∧ kWalFileHeaderSize = bytes := by simpa [opened] using hv
      -- only the fresh segment has this number
      have hfresh : seg = freshSegment n := hs'.number_inj hseg (by simp) hn
      simp [hfresh, freshSegment]
  · rename_i w e hopen
    obtain ⟨segs', hs', hcont, hf, hfd, -⟩ := openWal_error h.segments hio h.files hroom' hopen
    have hlog := h.log
    rw [← recordsOf_eq_of_contents hcont] at hlog
    exact ⟨segs', WalInv.idle hs' hf hfd rfl hlog, recordsOf_eq_of_contents hcont⟩

/-- The last segment, cut at byte `keep`. -/
theorem cut_last {pre : List Segment} {last : Segment} {dir : Dir}
    (hs : SegmentsOn crc32 (pre ++ [last]) dir) {keep : Nat} (hkeep : kWalFileHeaderSize ≤ keep) :
    ∃ last', SegmentsOn crc32 (pre ++ [last']) (dir.truncateTo last.number keep) ∧
      last'.number = last.number ∧
      last'.records = fitting crc32 (keep - kWalFileHeaderSize) last.records := by
  have hdir : ∀ last' : Segment, last'.number = last.number →
      last'.bytes crc32 = (last.bytes crc32).take keep →
      dir.truncateTo last.number keep = (pre ++ [last']).map (Segment.entry crc32) := by
    intro last' hnum hbytes
    rw [hs.dir_eq, Dir.truncateTo]
    exact @map_entries_at crc32 pre [] last last' hs.numbers_ne (fun b => b.take keep) hnum hbytes
  have hinc := hs.increasing
  rw [recordsOf_append, recordsOf_singleton] at hinc
  have hlen : fileHeader.length ≤ keep := by simpa [kWalFileHeaderSize] using hkeep
  rcases hs.shape last (by simp) with ⟨hhead, htail⟩ | ⟨hshort, hrec, htl⟩
  · obtain ⟨tail', htail', he⟩ := take_frames (fun r hr => (hs.fits last (by simp) r hr).1)
      htail (keep - kWalFileHeaderSize)
    let last' : Segment :=
      { last with
        records := fitting crc32 (keep - kWalFileHeaderSize) last.records
        tail := tail' }
    refine ⟨last', ?_, rfl, rfl⟩
    rw [hdir last' rfl ?_]
    · refine hs.replaceLast rfl (.inl ⟨hhead, htail'⟩) (fun r hr => ?_) ?_
      · exact hs.fits last (by simp) r ((fitting_isPrefix _ _).subset hr)
      · exact hinc.sublist ((List.Sublist.refl _).append (fitting_isPrefix _ _).sublist)
    · simp only [last', Segment.bytes, hhead]
      rw [List.take_append, List.take_of_length_le hlen, length_fileHeader]
      exact congrArg _ he.symm
  · refine ⟨last, ?_, rfl, by rw [hrec]; rfl⟩
    rw [hdir last rfl ?_]
    · exact hs.dir_eq ▸ hs
    · refine (List.take_of_length_le ?_).symm
      simp only [Segment.bytes, hrec, htl, frames_nil, List.append_nil]
      omega

theorem truncateTo_absent {segs : List Segment} {dir : Dir} (hs : SegmentsOn crc32 segs dir)
    {n keep : Nat} (h : ∀ seg ∈ segs, seg.number ≠ n) : dir.truncateTo n keep = dir := by
  rw [hs.dir_eq, Dir.truncateTo, List.map_map]
  exact List.map_congr_left fun seg hseg => if_neg (h seg hseg)

/-- A segment with the highest number is the last one. -/
theorem eq_append_last {segs : List Segment} {dir : Dir} (hs : SegmentsOn crc32 segs dir)
    {seg : Segment} (hseg : seg ∈ segs) (hmax : ∀ t ∈ segs, t.number ≤ seg.number) :
    ∃ pre, segs = pre ++ [seg] := by
  obtain ⟨pre, post, rfl⟩ := List.append_of_mem hseg
  cases post with
  | nil => exact ⟨pre, rfl⟩
  | cons t post =>
    have h₁ := (List.pairwise_cons.mp (List.pairwise_append.mp hs.ordered).2.1).1 t
      List.mem_cons_self
    have h₂ := hmax t (by simp)
    omega

theorem WalInv.crash {segs : List Segment} {s : WalRun} (h : WalInv crc32 segs s) {keep : Nat}
    (hkeep : ∀ v ∈ s.unsynced, v.2 ≤ keep) :
    ∃ segs', WalInv crc32 segs' (s.crash keep) ∧ recordsOf segs' <+: recordsOf segs := by
  cases hv : s.unsynced with
  | none =>
    refine ⟨segs, WalInv.idle ?_ (fun f hf => by cases hf) rfl rfl h.log, List.prefix_rfl⟩
    simpa [WalRun.crash, hv] using h.segments
  | some v =>
    obtain ⟨n, bytes⟩ := v
    obtain ⟨hheader, hlast⟩ := h.unsynced n bytes hv
    have hbytes : bytes ≤ keep := hkeep (n, bytes) hv
    by_cases hmem : ∃ seg ∈ segs, seg.number = n
    · obtain ⟨seg, hseg, rfl⟩ := hmem
      obtain ⟨pre, rfl⟩ := eq_append_last h.segments hseg (hlast seg hseg rfl).1
      obtain ⟨seg', hs', hnum, hrec⟩ := cut_last h.segments (le_trans hheader hbytes)
      -- the cut is behind the durable records of this segment
      have hpre : recordsOf (pre ++ [seg']) <+: recordsOf (pre ++ [seg]) := by
        rw [recordsOf_append, recordsOf_append, recordsOf_singleton, recordsOf_singleton, hrec]
        exact (List.prefix_append_right_inj _).mpr (fitting_isPrefix _ _)
      have hdur : durableOf crc32 s.unsynced (pre ++ [seg]) ⊆ recordsOf (pre ++ [seg']) := by
        rw [hv]
        intro r hr
        rw [durableOf, List.flatMap_append, List.mem_append] at hr
        rw [recordsOf_append, recordsOf_singleton, hrec, List.mem_append]
        rcases hr with hr | hr
        · exact .inl (durableOf_subset _ _ hr)
        · refine .inr ((fitting_mono (Nat.sub_le_sub_right hbytes _) _).subset ?_)
          simpa [Segment.durable] using hr
      refine ⟨pre ++ [seg'], WalInv.idle ?_ (fun f hf => by cases hf) rfl rfl
        (h.log.lose h.segments.increasing hpre hdur), hpre⟩
      simpa [WalRun.crash, hv] using hs'
    · have habs : ∀ seg ∈ segs, seg.number ≠ n := fun seg hseg hn => hmem ⟨seg, hseg, hn⟩
      refine ⟨segs, WalInv.idle ?_ (fun f hf => by cases hf) rfl rfl h.log, List.prefix_rfl⟩
      simpa [WalRun.crash, hv, truncateTo_absent h.segments habs] using h.segments

/-- Of two record-bearing segments the one with the lower highest number comes first. -/
theorem SegmentsOn.records_lt {segs : List Segment} {dir : Dir} (hs : SegmentsOn crc32 segs dir)
    {a b : Segment} (ha : a ∈ segs) (hb : b ∈ segs) (hne : a ≠ b) {x : WalRecord}
    (hx : x ∈ a.records) (hle : a.file.maxSequence ≤ b.file.maxSequence) :
    ∀ y ∈ b.records, x.sequence < y.sequence := by
  have hp := (List.pairwise_flatMap.mp hs.increasing).2
  have hsymm : segs.Pairwise fun a b =>
      (∀ x ∈ a.records, ∀ y ∈ b.records, x.sequence < y.sequence) ∨
      (∀ y ∈ b.records, ∀ x ∈ a.records, y.sequence < x.sequence) :=
    hp.imp fun h => .inl h
  have : Std.Symm fun a b : Segment =>
      (∀ x ∈ a.records, ∀ y ∈ b.records, x.sequence < y.sequence) ∨
      (∀ y ∈ b.records, ∀ x ∈ a.records, y.sequence < x.sequence) := ⟨fun _ _ h => h.symm⟩
  rcases hsymm.forall ha hb hne with h | h
  · exact h x hx
  · intro y hy
    exfalso
    obtain ⟨m, hm, hmax⟩ := exists_maxSequenceOf (List.ne_nil_of_mem hy)
    have h₁ := h m hm x hx
    have h₂ : x.sequence ≤ a.file.maxSequence := le_maxSequenceOf hx
    simp only [Segment.file] at h₂ hle
    omega

theorem deletes_le {w : WriteAheadLog} {io : TruncateIo} {upTo : Nat} {f : WalFile}
    (h : deletes w io upTo f = true) : f.maxSequence ≤ upTo ∧ 0 < f.maxSequence ∧
      f.fileNumber ≠ w.currentFileNumber := by
  simp only [deletes, truncatable, Bool.and_eq_true, decide_eq_true_eq, bne_iff_ne] at h
  exact ⟨h.1.1.1, h.1.1.2, h.1.2⟩

/-- What a truncation that `outlived` allows does to the segments. -/
structure Truncated (crc32 : Bytes → UInt32) (segs segs' : List Segment)
    (v : Option (Nat × Nat)) (upTo : Nat) : Prop where
  sublist : segs'.Sublist segs
  covered : ∀ seg ∈ segs, seg ∉ segs' → ∀ r ∈ seg.records, r.sequence ≤ upTo
  outlived : ∀ seg ∈ segs, seg ∉ segs' → ∀ r ∈ seg.records, ∃ seg' ∈ segs',
    seg.file.maxSequence ≤ seg'.file.maxSequence ∧
      ∃ r' ∈ Segment.durable crc32 v seg', r.sequence ≤ r'.sequence

theorem Truncated.logInv {segs segs' : List Segment} {v : Option (Nat × Nat)} {upTo : Nat}
    {acked : List WalRecord} {checkpoints : List Nat} (h : Truncated crc32 segs segs' v upTo)
    (hlog : LogInv (recordsOf segs) (durableOf crc32 v segs) acked checkpoints)
    (hup : upTo ≤ maxSequenceOf acked) :
    LogInv (recordsOf segs') (durableOf crc32 v segs') acked (upTo :: checkpoints) := by
  refine hlog.checkpoint hup (durableOf_subset _ _) (recordsOf_sublist h.sublist).subset ?_ ?_ ?_
  · intro r hr hout
    obtain ⟨seg, hseg, hrs⟩ := List.mem_flatMap.mp hr
    exact h.covered seg hseg (fun hin => hout (List.mem_flatMap.mpr ⟨seg, hin, hrs⟩)) r hrs
  · intro r hr hout
    obtain ⟨seg, hseg, hrs⟩ := List.mem_flatMap.mp hr
    exact h.covered seg hseg (fun hin => hout (List.mem_flatMap.mpr ⟨seg, hin, hrs⟩)) r
      (durable_subset v seg hrs)
  · rintro q (h0 | ⟨r, hr, hq⟩)
    · exact .inl h0
    · obtain ⟨seg, hseg, hrs⟩ := List.mem_flatMap.mp hr
      by_cases hin : seg ∈ segs'
      · exact .inr ⟨r, List.mem_flatMap.mpr ⟨seg, hin, hrs⟩, hq⟩
      · obtain ⟨seg', hseg', -, r', hr', hle⟩ :=
          h.outlived seg hseg hin r (durable_subset v seg hrs)
        exact .inr ⟨r', List.mem_flatMap.mpr ⟨seg', hseg', hr'⟩, le_trans hq hle⟩

theorem Truncated.maxSequenceOf {segs segs' : List Segment} {v : Option (Nat × Nat)} {upTo : Nat}
    (h : Truncated crc32 segs segs' v upTo) :
    maxSequenceOf (recordsOf segs') = maxSequenceOf (recordsOf segs) := by
  apply le_antisymm
  · exact maxSequenceOf_le.2 fun r hr =>
      le_maxSequenceOf ((recordsOf_sublist h.sublist).subset hr)
  · refine maxSequenceOf_le.2 fun r hr => ?_
    obtain ⟨seg, hseg, hrs⟩ := List.mem_flatMap.mp hr
    by_cases hin : seg ∈ segs'
    · exact le_maxSequenceOf (List.mem_flatMap.mpr ⟨seg, hin, hrs⟩)
    · obtain ⟨seg', hseg', -, r', hr', hle⟩ := h.outlived seg hseg hin r hrs
      exact le_trans hle
        (le_maxSequenceOf (List.mem_flatMap.mpr ⟨seg', hseg', durable_subset v seg' hr'⟩))

theorem WalInv.truncated {segs : List Segment} {s : WalRun} (h : WalInv crc32 segs s)
    {io : TruncateIo} {upTo : Nat} (hout : Storage.outlived s io upTo) :
    ∃ segs', Truncated crc32 segs segs' s.unsynced upTo ∧
      SegmentsOn crc32 segs' (s.truncate io upTo).wal.dir ∧
      FilesOn segs' (s.truncate io upTo).wal.files ∧
      (∀ seg ∈ segs, seg ∉ segs' → deletes s.wal io upTo seg.file = true) ∧
      (s.wal.files = segs.map Segment.file →
        (s.truncate io upTo).wal.files = segs'.map Segment.file) := by
  obtain ⟨hs', hf', hgone, hfiles⟩ :=
    @truncate_segments crc32 s.cfg io upTo segs s.wal h.segments h.files
  refine ⟨_, ⟨List.filter_sublist, ?_, ?_⟩, hs', hf',
    fun seg hseg hn => (hgone seg hseg hn).1, hfiles⟩
  · intro seg hseg hn r hr
    exact le_trans (le_maxSequenceOf hr) (deletes_le (hgone seg hseg hn).1).1
  · intro seg hseg hn r hr
    obtain ⟨hdel, hmem⟩ := hgone seg hseg hn
    obtain ⟨g, hg, hkeep, hle, hdur⟩ := hout seg.file hmem hdel
    have hpos := (deletes_le hdel).2.1
    obtain ⟨t, ht, rfl⟩ := h.files g hg (lt_of_lt_of_le hpos hle)
    have hin : t ∈ segs.filter fun s' => !s.wal.files.any fun f =>
        deletes s.wal io upTo f && f.fileNumber == s'.number := by
      by_contra hnot
      rw [(hgone t ht hnot).1] at hkeep
      cases hkeep
    have hne : seg ≠ t := fun he => hn (he ▸ hin)
    have hrecs : t.records ≠ [] :=
      (Segment.file_maxSequence_pos fun r' hr' => (h.segments.fits t ht r' hr').2).mp
        (lt_of_lt_of_le hpos hle)
    -- the surviving segment has a durable record, and it lies above all of the deleted one's
    have hsome : Segment.durable crc32 s.unsynced t ≠ [] := by
      unfold Segment.durable
      split
      · exact hrecs
      · rename_i n bytes hv
        split
        · rename_i hn'
          rw [hv] at hdur
          exact ((h.unsynced n bytes hv).2 t ht hn').2 (hdur hn')
        · exact hrecs
    obtain ⟨r', hr'⟩ := List.exists_mem_of_ne_nil _ hsome
    exact ⟨t, hin, hle, r', hr', Nat.le_of_lt
      (h.segments.records_lt hseg ht hne hr hle r' (durable_subset _ _ hr'))⟩

theorem WalInv.truncate {segs : List Segment} {s : WalRun} (h : WalInv crc32 segs s)
    {io : TruncateIo} {upTo : Nat} (hup : upTo ≤ maxSequenceOf s.acked)
    (hout : Storage.outlived s io upTo) :
    ∃ segs', WalInv crc32 segs' (s.truncate io upTo) ∧ (recordsOf segs').Sublist (recordsOf segs) := by
  obtain ⟨segs', ht, hs', hf', hgone, hfiles⟩ := h.truncated hout
  refine ⟨segs', ⟨hs', hf', ?_, ?_, ht.logInv h.log hup⟩, recordsOf_sublist ht.sublist⟩
  · intro hfd
    have hfd' : s.wal.currentFd ≠ none := by
      simpa [WalRun.truncate, truncate_fst] using hfd
    obtain ⟨pre, last, rfl, ha⟩ := h.attached hfd'
    -- the current segment is never deleted
    have hlast : last ∈ segs' := by
      by_contra hout'
      exact (deletes_le (hgone last (by simp) hout')).2.2 ha.number.symm
    obtain ⟨pre', rfl⟩ := eq_append_last hs' hlast fun t htm =>
      h.segments.number_le_last t (ht.sublist.subset htm)
    refine ⟨pre', last, rfl, ?_, ?_, ?_, hfiles ha.files, ha.isSealed, ?_⟩
    · simpa [WalRun.truncate, truncate_fst] using ha.fd
    · simpa [WalRun.truncate, truncate_fst] using ha.number
    · simpa [WalRun.truncate, truncate_fst] using ha.size
    · rw [ht.maxSequenceOf, ← ha.sequence]
      simp [WalRun.truncate, truncate_fst]
  · intro n bytes hv
    obtain ⟨hle, hseg⟩ := h.unsynced n bytes hv
    refine ⟨hle, fun seg hmem hn => ?_⟩
    obtain ⟨hmax, hfit⟩ := hseg seg (ht.sublist.subset hmem) hn
    exact ⟨fun t htm => hmax t (ht.sublist.subset htm), hfit⟩

theorem append_of_closed {cfg : WalConfig} {io : AppendIo} {now : Nat} {op : WalOpType}
    {payload : Bytes} {w : WriteAheadLog} (h : w.currentFd = none) :
    append crc32 cfg io now op payload w =
      (w, .error (makeError .kWalNotOpen "WAL is not open")) := by
  rw [append, if_pos (.inr h)]

/-- What is durable in segments that are not the one a crash may shorten. -/
theorem durable_of_ne {n bytes : Nat} {seg : Segment} (h : seg.number ≠ n) :
    Segment.durable crc32 (some (n, bytes)) seg = seg.records := by
  simp [Segment.durable, h]

theorem subset_durableOf_of_ne {n bytes : Nat} {segs : List Segment}
    (h : ∀ seg ∈ segs, seg.number ≠ n) : recordsOf segs ⊆ durableOf crc32 (some (n, bytes)) segs := by
  intro r hr
  obtain ⟨seg, hseg, hrs⟩ := List.mem_flatMap.mp hr
  exact List.mem_flatMap.mpr ⟨seg, hseg, by rw [durable_of_ne (h seg hseg)]; exact hrs⟩

theorem durableOf_append (v : Option (Nat × Nat)) (segs segs' : List Segment) :
    durableOf crc32 v (segs ++ segs') = durableOf crc32 v segs ++ durableOf crc32 v segs' := by
  simp [durableOf]

/-- Records that are appended to a segment leave its durable part durable. -/
theorem durable_push_subset {v : Option (Nat × Nat)} {seg seg' : Segment}
    (hnum : seg'.number = seg.number) (hrec : seg.records <+: seg'.records) :
    Segment.durable crc32 v seg ⊆ Segment.durable crc32 v seg' := by
  obtain ⟨more, he⟩ := hrec
  unfold Segment.durable
  split
  · exact he ▸ List.subset_append_left _ _
  · rw [hnum]
    split
    · rw [← he]
      exact (fitting_append_isPrefix _ _ _).subset
    · exact he ▸ List.subset_append_left _ _

/-- An `Append` that has written its record, in a segment that now ends the directory. -/
theorem WalInv.write {segs pre : List Segment} {last last' : Segment} {s s' : WalRun}
    (h : WalInv crc32 segs s) {r : WalRecord}
    (hrec : recordsOf (pre ++ [last]) = recordsOf segs)
    (hrecs : last'.records = last.records ++ [r] ∨ last'.records = last.records)
    (hseq : r.sequence = maxSequenceOf (recordsOf segs) + 1)
    (hs' : SegmentsOn crc32 (pre ++ [last']) s'.wal.dir)
    (hf' : FilesOn (pre ++ [last']) s'.wal.files) (hfd : s'.wal.currentFd = none)
    (hun : ∀ n bytes, s'.unsynced = some (n, bytes) → kWalFileHeaderSize ≤ bytes ∧
      ∀ seg ∈ pre ++ [last'], seg.number = n → (∀ t ∈ pre ++ [last'], t.number ≤ n) ∧
        (kWalFileHeaderSize < bytes →
          fitting crc32 (bytes - kWalFileHeaderSize) seg.records ≠ []))
    (hdur : durableOf crc32 s.unsynced segs ⊆ durableOf crc32 s'.unsynced (pre ++ [last']))
    (hacked : s'.acked = s.acked) (hcp : s'.checkpoints = s.checkpoints) :
    WalInv crc32 (pre ++ [last']) s' where
  segments := hs'
  files := hf'
  attached := fun hne => absurd hfd hne
  unsynced := hun
  log := by
    rw [hacked, hcp]
    rcases hrecs with he | he
    · have hR : recordsOf (pre ++ [last']) = recordsOf segs ++ [r] := by
        rw [← hrec, recordsOf_append, recordsOf_append, recordsOf_singleton, recordsOf_singleton,
          he, List.append_assoc]
      have hlog := h.log.push hseq
      rw [← hR] at hlog
      exact hlog.settle hdur (durableOf_subset _ _)
    · have hR : recordsOf (pre ++ [last']) = recordsOf segs := by
        rw [← hrec, recordsOf_append, recordsOf_append, recordsOf_singleton, recordsOf_singleton,
          he]
      have hlog := h.log
      rw [← hR] at hlog
      exact hlog.settle hdur (durableOf_subset _ _)

/-- An `Append` that fails after writing: the record or a torn part of it may be there. -/
theorem WalInv.append_failed {pre pre₁ : List Segment} {last last₁ last' : Segment}
    {s : WalRun} {w₁ w' : WriteAheadLog} {r : WalRecord} (h : WalInv crc32 (pre ++ [last]) s)
    (ha : Attached crc32 pre last s.wal) (hseq : r.sequence = s.wal.currentSequence + 1)
    (hbase : (pre₁ = pre ∧ last₁ = last ∧ w₁ = s.wal) ∨
      (pre₁ = pre ++ [last] ∧ last₁ = freshSegment (last.number + 1) ∧ w₁ = rotated s.wal))
    (hlast' : last' = last₁.push r ∨ ∃ tail, last' = { last₁ with tail := tail })
    (hnum : w'.currentFileNumber = last₁.number) (hfd : w'.currentFd = none)
    (hs' : SegmentsOn crc32 (pre₁ ++ [last']) w'.dir)
    (hf' : FilesOn (pre₁ ++ [last']) w'.files) :
    WalInv crc32 (pre₁ ++ [last']) { s with
      wal := w'
      unsynced := if w'.currentFileNumber = s.wal.currentFileNumber then s.unsynced
        else some (w'.currentFileNumber, kWalFileHeaderSize) } := by
  have hnum' : last'.number = last₁.number := by
    rcases hlast' with rfl | ⟨tail, rfl⟩ <;> rfl
  have hrecs : last'.records = last₁.records ++ [r] ∨ last'.records = last₁.records := by
    rcases hlast' with rfl | ⟨tail, rfl⟩
    · exact .inl rfl
    · exact .inr rfl
  have hprefix : last₁.records <+: last'.records := by
    rcases hrecs with he | he
    · exact ⟨[r], he.symm⟩
    · exact ⟨[], by rw [he, List.append_nil]⟩
  have hseq' : r.sequence = maxSequenceOf (recordsOf (pre ++ [last])) + 1 := by
    rw [hseq, ha.sequence]
  rcases hbase with ⟨rfl, rfl, rfl⟩ | ⟨rfl, rfl, rfl⟩
  · have hsame : w'.currentFileNumber = s.wal.currentFileNumber := hnum.trans ha.number.symm
    refine h.write rfl hrecs hseq' hs' hf' hfd ?_ ?_ rfl rfl
    · simp only [if_pos hsame]
      intro n bytes hv
      obtain ⟨hle, hseg⟩ := h.unsynced n bytes hv
      refine ⟨hle, fun seg hmem hn => ?_⟩
      rcases List.mem_append.mp hmem with hm | hm
      · have hle' := (hseg seg (List.mem_append_left _ hm) hn).1 last₁ (by simp)
        have hlt := ((List.pairwise_append.mp hs'.ordered).2.2 seg hm last' (by simp)).1
        omega
      · rw [List.mem_singleton.mp hm] at hn ⊢
        obtain ⟨hmax, hfit⟩ := hseg last₁ (by simp) (hnum' ▸ hn)
        refine ⟨fun t ht => ?_, fun hlt hnil => hfit hlt ?_⟩
        · rw [← hn]
          exact hs'.number_le_last t ht
        · obtain ⟨more, he⟩ := hprefix
          rw [← he] at hnil
          exact List.prefix_nil.mp (hnil ▸ fitting_append_isPrefix _ _ _)
    · simp only [if_pos hsame]
      rw [durableOf_append, durableOf_append]
      refine List.append_subset.mpr ⟨List.subset_append_left _ _, fun x hx => ?_⟩
      refine List.mem_append_right _ ?_
      simp only [durableOf, List.flatMap_singleton] at hx ⊢
      exact durable_push_subset hnum' hprefix hx
  · have hdiff : w'.currentFileNumber ≠ s.wal.currentFileNumber := by
      rw [hnum, ha.number]
      simp [freshSegment]
    have hn₁ : w'.currentFileNumber = last'.number := hnum.trans hnum'.symm
    refine h.write ?_ hrecs hseq' hs' hf' hfd ?_ ?_ rfl rfl
    · rw [recordsOf_append, recordsOf_singleton]
      simp [freshSegment]
    · simp only [if_neg hdiff]
      intro n bytes hv
      obtain ⟨rfl, rfl⟩ : w'.currentFileNumber = n ∧ kWalFileHeaderSize = bytes := by
        simpa using hv
      refine ⟨le_rfl, fun seg _ _ => ⟨fun t ht => ?_, fun hlt => absurd hlt (lt_irrefl _)⟩⟩
      rw [hn₁]
      exact hs'.number_le_last t ht
    · simp only [if_neg hdiff]
      rw [durableOf_append _ (pre ++ [last])]
      refine fun x hx => List.mem_append_left _
        (subset_durableOf_of_ne (fun seg hseg => ?_) (durableOf_subset _ _ hx))
      have := h.segments.number_le_last seg hseg
      rw [hnum]
      simp only [freshSegment]
      omega

/-- An `Append` that succeeds: the record is there, and durable from now on. -/
theorem WalInv.append_acked {pre pre₁ : List Segment} {last last₁ : Segment}
    {s : WalRun} {w₁ w' : WriteAheadLog} {r : WalRecord} (h : WalInv crc32 (pre ++ [last]) s)
    (ha : Attached crc32 pre last s.wal) (hseq : r.sequence = s.wal.currentSequence + 1)
    (hbase : (pre₁ = pre ∧ last₁ = last ∧ w₁ = s.wal) ∨
      (pre₁ = pre ++ [last] ∧ last₁ = freshSegment (last.number + 1) ∧ w₁ = rotated s.wal))
    (hs' : SegmentsOn crc32 (pre₁ ++ [last₁.push r]) w'.dir)
    (ha' : Attached crc32 pre₁ (last₁.push r) w') :
    WalInv crc32 (pre₁ ++ [last₁.push r]) { s with
      wal := w'
      acked := r :: s.acked
      unsynced := some (w'.currentFileNumber, w'.currentFileSize) } := by
  have hrec : recordsOf (pre₁ ++ [last₁.push r]) = recordsOf (pre ++ [last]) ++ [r] := by
    rcases hbase with ⟨rfl, rfl, -⟩ | ⟨rfl, rfl, -⟩
    · simp [recordsOf, Segment.push]
    · simp [recordsOf, Segment.push, freshSegment]
  have hframes : (frames crc32 (last₁.push r).records).length =
      w'.currentFileSize - kWalFileHeaderSize := by
    rw [ha'.size, Segment.bytes, ha'.isSealed.1, ha'.isSealed.2]
    simp [kWalFileHeaderSize]
  have hsafe : recordsOf (pre₁ ++ [last₁.push r]) ⊆
      durableOf crc32 (some (w'.currentFileNumber, w'.currentFileSize))
        (pre₁ ++ [last₁.push r]) := by
    refine recordsOf_subset_durableOf fun n bytes hv seg hseg hn => ?_
    obtain ⟨rfl, rfl⟩ : w'.currentFileNumber = n ∧ w'.currentFileSize = bytes := by simpa using hv
    have hl : seg = last₁.push r := hs'.number_inj hseg (by simp) (hn.trans ha'.number)
    rw [hl, hframes]
  refine ⟨hs', ha'.files ▸ filesOn_map _, fun _ => ⟨pre₁, _, rfl, ha'⟩, ?_, ?_⟩
  · intro n bytes hv
    obtain ⟨rfl, rfl⟩ : w'.currentFileNumber = n ∧ w'.currentFileSize = bytes := by simpa using hv
    refine ⟨?_, fun seg hseg hn => ⟨fun t ht => ?_, fun _ => ?_⟩⟩
    · rw [ha'.size, Segment.bytes, ha'.isSealed.1]
      simp [kWalFileHeaderSize]
    · rw [ha'.number]
      exact hs'.number_le_last t ht
    · have hl : seg = last₁.push r := hs'.number_inj hseg (by simp) (hn.trans ha'.number)
      rw [hl, ← hframes, fitting_of_length_le le_rfl]
      simp [Segment.push]
  · have hlog := h.log.push (r := r) (by rw [hseq, ha.sequence])
    rw [← hrec] at hlog
    have hall := hlog.settle (fun x hx => hsafe (hlog.durable_subset hx)) (durableOf_subset _ _)
    exact hall.ack hs'.increasing (hsafe (by rw [hrec]; simp))

theorem WalInv.append {segs : List Segment} {s : WalRun} (h : WalInv crc32 segs s)
    {io : AppendIo} {now : Nat} {op : WalOpType} {payload : Bytes} (hroom : hasRoom s.wal.dir) :
    ∃ segs', WalInv crc32 segs' (s.append crc32 io now op payload) ∧
      (acknowledges s (.append io now op payload) →
        Traced segs segs' (s.append crc32 io now op payload)) := by
  by_cases hfd : s.wal.currentFd = none
  · refine ⟨segs, ?_, fun _ => Traced.of_subset (List.Subset.refl _)⟩
    simp only [WalRun.append, append_of_closed hfd, if_true]
    exact h
  obtain ⟨pre, last, rfl, ha⟩ := h.attached hfd
  have hlt := h.room hroom last (by simp)
  cases happ : Storage.append crc32 s.cfg io now op payload s.wal with
  | mk w' res =>
    rcases append_cases ha h.segments hlt happ with
      ⟨e, rfl, rfl⟩ | ⟨e, segs', rfl, -, hd⟩ | ⟨-, hmax, hlen, pre₁, last₁, w₁, ha₁, hs₁, hbase, hw⟩
    · refine ⟨pre ++ [last], ?_, fun _ => Traced.of_subset (List.Subset.refl _)⟩
      simp only [WalRun.append, happ, if_true]
      exact h
    · refine ⟨segs', ?_, fun _ r hr => .inl (recordsOf_eq_of_contents hd.contents ▸ hr)⟩
      simp only [WalRun.append, happ]
      have hlog := h.log
      rw [← recordsOf_eq_of_contents hd.contents] at hlog
      rcases hd.number with ⟨hn, rfl⟩ | ⟨hn, hsegs⟩
      · rw [if_pos (hn.trans ha.number.symm)]
        exact ⟨hd.segments, hd.files, fun hne => absurd hd.fd hne, h.unsynced, h.log⟩
      · rw [if_neg (by rw [hn, ha.number]; omega), hn]
        refine ⟨hd.segments, hd.files, fun hne => absurd hd.fd hne, ?_, ?_⟩
        · intro n bytes hv
          obtain ⟨rfl, rfl⟩ : last.number + 1 = n ∧ kWalFileHeaderSize = bytes := by simpa using hv
          exact ⟨le_rfl, fun seg _ _ =>
            ⟨fun t ht => (hsegs t ht).1, fun hlt => absurd hlt (lt_irrefl _)⟩⟩
        · have hsafe : recordsOf segs' ⊆
              durableOf crc32 (some (last.number + 1, kWalFileHeaderSize)) segs' := by
            refine recordsOf_subset_durableOf fun n bytes hv seg hseg hn' => ?_
            obtain ⟨rfl, rfl⟩ : last.number + 1 = n ∧ kWalFileHeaderSize = bytes := by
              simpa using hv
            simp [(hsegs seg hseg).2 hn']
          exact hlog.settle (fun x hx => hsafe (hlog.durable_subset hx)) (durableOf_subset _ _)
    · have hseq₁ : w₁.currentSequence = s.wal.currentSequence := by
        rcases hbase with ⟨-, -, rfl⟩ | ⟨-, -, rfl⟩ <;> rfl
      obtain ⟨hnum, hcase⟩ := writeRecord_cases ha₁ hs₁ (hseq₁ ▸ hmax) hlen hw
      have hold : recordsOf (pre₁ ++ [last₁]) = recordsOf (pre ++ [last]) := by
        rcases hbase with ⟨rfl, rfl, -⟩ | ⟨rfl, rfl, -⟩
        · rfl
        · simp [recordsOf, freshSegment]
      rcases hcase with ⟨rfl, -, hs', ha'⟩ | ⟨e, rfl, -, hfd', last', hlast', hs', hf'⟩
      · refine ⟨pre₁ ++ [last₁.push (nextRecord w₁ now op payload)], ?_, fun _ r hr => ?_⟩
        · simp only [WalRun.append, happ]
          exact h.append_acked ha (by simp [nextRecord, hseq₁]) hbase hs' ha'
        · rw [recordsOf_append, recordsOf_singleton, Segment.push, ← List.append_assoc,
            ← recordsOf_singleton, ← recordsOf_append, hold] at hr
          rcases List.mem_append.mp hr with hr | hr
          · exact .inl hr
          · rw [List.mem_singleton.mp hr]
            simp only [WalRun.append, happ]
            exact .inr List.mem_cons_self
      · refine ⟨pre₁ ++ [last'], ?_, fun hack => ?_⟩
        · simp only [WalRun.append, happ]
          exact h.append_failed ha (by simp [nextRecord, hseq₁]) hbase
            (hlast'.imp And.left fun htail => htail.imp fun _ => And.left) hnum hfd' hs' hf'
        · rcases hlast' with ⟨-, hsync, hio⟩ | ⟨tail, rfl, -⟩
          · exact absurd hio (hack hsync)
          · refine Traced.of_subset ?_
            rw [← hold, recordsOf_append, recordsOf_append, recordsOf_singleton,
              recordsOf_singleton]
            exact List.Subset.refl _

/-- **One step** of a run that meets `walOk` keeps the invariant, and adds no record it does not
    acknowledge. -/
theorem walInv_step {segs : List Segment} {s s' : WalRun} {a : WalAction}
    (h : WalInv crc32 segs s) (hok : walOk s a) (hstep : walStep crc32 s a = some s') :
    ∃ segs', WalInv crc32 segs' s' ∧ (acknowledges s a → Traced segs segs' s') := by
  cases a with
  | append io now op payload =>
    obtain rfl := Option.some.inj hstep
    exact h.append hok
  | truncate io upTo =>
    obtain rfl := Option.some.inj hstep
    obtain ⟨segs', h', hsub⟩ := h.truncate hok.1 hok.2
    exact ⟨segs', h', fun _ => Traced.of_subset hsub.subset⟩
  | close =>
    obtain rfl := Option.some.inj hstep
    exact ⟨segs, h.close, fun _ => Traced.of_subset (List.Subset.refl _)⟩
  | syncFails =>
    obtain rfl := Option.some.inj hstep
    exact ⟨segs, h.close, fun _ => Traced.of_subset (List.Subset.refl _)⟩
  | crash keep =>
    obtain rfl := Option.some.inj hstep
    obtain ⟨segs', h', hpre⟩ := h.crash hok
    exact ⟨segs', h', fun _ => Traced.of_subset hpre.subset⟩
  | «open» cfg io =>
    obtain rfl := Option.some.inj hstep
    obtain ⟨segs', h', he⟩ := h.open hok.1 hok.2
    exact ⟨segs', h', fun _ r hr => .inl (he ▸ hr)⟩

/-- **A run** all of whose steps meet `walOk` keeps the invariant. -/
theorem walInv_run {cfg : WalConfig} {acts : List WalAction} {s : WalRun}
    (hrun : run (walStep crc32) (WalRun.initial cfg) acts = some s)
    (hok : Meets (walStep crc32) walOk (WalRun.initial cfg) acts) :
    ∃ segs, WalInv crc32 segs s := by
  have hstep : ∀ s a s', (∃ segs, WalInv crc32 segs s) → walOk s a →
      walStep crc32 s a = some s' → ∃ segs, WalInv crc32 segs s' := by
    rintro s a s' ⟨segs, h⟩ hok hstep
    obtain ⟨segs', h', -⟩ := walInv_step h hok hstep
    exact ⟨segs', h'⟩
  exact run_inv_of_meets hstep ⟨[], WalInv.initial cfg⟩ hok hrun

/-! ## 5. Sequence continuity -/

/-- An `Append` that succeeds returns the next number, where the log then stands, and had a file
    open. -/
theorem append_ok {cfg : WalConfig} {io : AppendIo} {now : Nat} {op : WalOpType}
    {payload : Bytes} {w w' : WriteAheadLog} {q : Nat}
    (h : Storage.append crc32 cfg io now op payload w = (w', .ok q)) :
    w.currentFd ≠ none ∧ q = w.currentSequence + 1 ∧ w'.currentSequence = q := by
  have hwrite : ∀ v : WriteAheadLog, v.currentSequence = w.currentSequence →
      writeRecord crc32 cfg io.write now op payload v = (w', .ok q) →
      q = w.currentSequence + 1 ∧ w'.currentSequence = q := by
    intro v hv hw
    simp only [writeRecord, poison] at hw
    repeat' split at hw
    all_goals cases (Prod.mk.inj hw).2
    all_goals exact ⟨by rw [hv], by rw [← (Prod.mk.inj hw).1]⟩
  unfold Storage.append at h
  split at h
  · cases (Prod.mk.inj h).2
  rename_i hopen
  refine ⟨fun hnone => hopen (.inr hnone), ?_⟩
  split at h
  · cases (Prod.mk.inj h).2
  split at h
  · cases (Prod.mk.inj h).2
  split at h
  · dsimp only at h
    split at h
    · cases (Prod.mk.inj h).2
    · rename_i hok
      exact hwrite _ (rotateFile_sequence cfg io.rotate
        { w with files := setBackMax w.files w.currentSequence }) h
  · exact hwrite w rfl h

theorem attached_opened {segs : List Segment} {n : Nat} :
    Attached crc32 (keptSegments segs) (freshSegment n) (opened crc32 segs n) where
  fd := rfl
  number := rfl
  size := by simp [opened, freshSegment, Segment.bytes, kWalFileHeaderSize]
  files := rfl
  isSealed := freshSegment_sealed n
  sequence := by
    rw [recordsOf_append, recordsOf_eq_of_contents (contents_keptSegments segs)]
    simp [opened, recordsOf, freshSegment]

/-- After an `Open` that succeeds the sequence stands at the last record. -/
theorem WalInv.opened_sequence {segs : List Segment} {s : WalRun} {cfg : WalConfig} {io : OpenIo}
    {w : WriteAheadLog} (h : WalInv crc32 segs s) (hio : io.opendirFails = false)
    (hroom : hasRoom s.wal.dir) (hopen : openWal crc32 cfg io s.wal = (w, .ok ())) :
    w.currentSequence = maxSequenceOf (recordsOf segs) := by
  obtain ⟨n, -, -, rfl, -⟩ := openWal_ok h.segments hio (h.room hroom) hopen
  rfl

/-- A replay behind the last checkpoint, right after an `Open` that succeeded: everything in
    the files above the checkpoint goes to the callback, and the floor check passes. -/
theorem replay_after_open {τ : Type} {cfg : WalConfig} {io : OpenIo} {segs : List Segment}
    {s : WalRun} {w : WriteAheadLog} {c : Nat} (h : WalInv crc32 segs s)
    (hio : io.opendirFails = false) (hroom : hasRoom s.wal.dir)
    (hopen : openWal crc32 cfg io s.wal = (w, .ok ())) (hc : ∀ t ∈ s.checkpoints, t ≤ c)
    (callback : τ → WalRecord → Except Error τ) (init : τ) :
    replayValidated crc32 cfg (c + 1) callback init w =
      (((recordsOf segs).filter fun r => c + 1 ≤ r.sequence).foldlM callback init).map
        fun acc => (((recordsOf segs).filter fun r => c + 1 ≤ r.sequence).length, acc) := by
  obtain ⟨n, hcont, -, rfl, hs'⟩ := openWal_ok h.segments hio (h.room hroom) hopen
  have ha := @attached_opened crc32 segs n
  have hrec : recordsOf (keptSegments segs ++ [freshSegment n]) = recordsOf segs := by
    rw [recordsOf_append, recordsOf_eq_of_contents (contents_keptSegments segs)]
    simp [recordsOf, freshSegment]
  rw [replayValidated_eq hs' (ha.all_sealed hs') rfl (hrec ▸ hcont), hrec]
  have hfloor : (!(c + 1 == 0 || (recordsOf segs).any fun r => r.sequence == c + 1) &&
      decide (c + 1 ≤ (opened crc32 segs n).currentSequence)) = false := by
    by_cases hle : c + 1 ≤ maxSequenceOf (recordsOf segs)
    · -- the floor is within the log, and no number above the checkpoints is missing
      obtain ⟨r, hr, he⟩ := h.log.noGap (c + 1) (by omega)
        (fun t ht => Nat.lt_succ_of_le (hc t ht)) (below_iff.2 hle)
      have hany : ((recordsOf segs).any fun r => r.sequence == c + 1) = true :=
        List.any_eq_true.mpr ⟨r, hr, by simp [he]⟩
      simp [hany]
    · simp [opened, hle]
  simp only [hfloor, Bool.false_eq_true, if_false]
  rfl

/-- **Sequence continuity across restarts.** In every state that a run meeting `walOk` reaches,
    an `Append` that succeeds returns a number above every acknowledged one and above every
    checkpoint; and if the run has just opened the log, a replay behind the last checkpoint
    delivers, in order, every record acknowledged after it. -/
theorem wal_continuity {cfg : WalConfig} {acts : List WalAction} {s : WalRun}
    (hrun : run (walStep crc32) (WalRun.initial cfg) acts = some s)
    (hok : Meets (walStep crc32) walOk (WalRun.initial cfg) acts) :
    (∀ io now op payload w q, append crc32 s.cfg io now op payload s.wal = (w, .ok q) →
      (∀ r ∈ s.acked, r.sequence < q) ∧ ∀ t ∈ s.checkpoints, t < q) ∧
    (∀ acts' cfg' io, acts = acts' ++ [.open cfg' io] → s.wal.isOpen = true →
      ∀ c, (∀ t ∈ s.checkpoints, t ≤ c) → ∃ delivered : List WalRecord,
        (∀ r ∈ s.acked, c < r.sequence → r ∈ delivered) ∧
        (∀ r ∈ delivered, c < r.sequence) ∧
        delivered.Pairwise (fun a b => a.sequence < b.sequence) ∧
        ∀ (τ : Type) (callback : τ → WalRecord → Except Error τ) (init : τ),
          replayValidated crc32 s.cfg (c + 1) callback init s.wal =
            (delivered.foldlM callback init).map fun acc => (delivered.length, acc)) := by
  refine ⟨?_, ?_⟩
  · intro io now op payload w q happ
    obtain ⟨segs, h⟩ := walInv_run hrun hok
    obtain ⟨hfd, rfl, -⟩ := append_ok happ
    obtain ⟨pre, last, rfl, ha⟩ := h.attached hfd
    have hbelow : ∀ p, Below (durableOf crc32 s.unsynced (pre ++ [last])) p →
        p < s.wal.currentSequence + 1 := by
      intro p hp
      rw [ha.sequence]
      exact Nat.lt_succ_of_le (below_iff.1 (hp.mono (durableOf_subset _ _)))
    exact ⟨fun r hr => hbelow _ (h.log.ackedBelow r hr),
      fun t ht => hbelow _ (h.log.checkpointsBelow t ht)⟩
  · rintro acts' cfg' io rfl hopen c hc
    obtain ⟨t, hrun', hstep⟩ := run_snoc.1 hrun
    obtain ⟨hok', hio, hroom⟩ := (meets_snoc hrun').mp hok
    obtain ⟨segs, h⟩ := walInv_run hrun' hok'
    obtain rfl := Option.some.inj hstep
    simp only [WalRun.open] at hopen hc ⊢
    cases hres : openWal crc32 cfg' io t.wal with
    | mk w res =>
      cases res with
      | error e =>
        obtain ⟨-, -, -, -, -, hclosed⟩ :=
          openWal_error h.segments hio h.files (h.room hroom) hres
        simp only [hres, hclosed] at hopen
        cases hopen
      | ok u =>
        simp only [hres] at hc ⊢
        refine ⟨(recordsOf segs).filter fun r => c + 1 ≤ r.sequence, ?_, ?_, ?_, ?_⟩
        · intro r hr hlt
          rcases h.log.kept r hr with ⟨t', ht', hle⟩ | hd
          · have := hc t' ht'
            omega
          · exact List.mem_filter.mpr ⟨h.log.durable_subset hd, decide_eq_true hlt⟩
        · intro r hr
          exact of_decide_eq_true (List.mem_filter.mp hr).2
        · exact h.segments.increasing.sublist List.filter_sublist
        · intro τ callback init
          exact replay_after_open h hio hroom hres hc callback init

end Machine

/-! ## 6. Two runs -/

/-- The default configuration (`storage/wal.h`). -/
def defaultWalConfig : WalConfig := ⟨"wal", 67108864, false⟩

/-- One record, a restart, a checkpoint over it, a crash, a restart. -/
def resetRun : List WalAction :=
  [.open defaultWalConfig {}, .append {} 0 .kVecDel [1], .close, .open defaultWalConfig {},
    .truncate {} 1, .crash 8, .open defaultWalConfig {}]

/-- The same with a second record before the checkpoint. -/
def continuedRun : List WalAction :=
  [.open defaultWalConfig {}, .append {} 0 .kVecDel [1], .close, .open defaultWalConfig {},
    .append {} 0 .kVecDel [2], .truncate {} 1, .crash 34, .open defaultWalConfig {}]

/-- **The sequence starts again**: after `resetRun` the next record gets number 1, which is
    both acknowledged and checkpointed already. -/
theorem sequence_reused_after_truncate :
    ∃ s w, run (walStep crc32) (WalRun.initial defaultWalConfig) resetRun = some s ∧
      append crc32 s.cfg {} 0 .kVecDel [3] s.wal = (w, .ok 1) ∧
      (∃ r ∈ s.acked, r.sequence = 1) ∧ 1 ∈ s.checkpoints := by
  have hrun : (run (walStep crc32) (WalRun.initial defaultWalConfig) resetRun).map (fun s =>
      ((append crc32 s.cfg {} 0 .kVecDel [3] s.wal).2.toOption, s.acked.map (·.sequence),
        s.checkpoints)) = some (some 1, [1], [1]) := by decide +kernel
  obtain ⟨s, hs, he⟩ := Option.map_eq_some_iff.mp hrun
  simp only [Prod.mk.injEq] at he
  obtain ⟨happ, hacked, hcp⟩ := he
  refine ⟨s, (append crc32 s.cfg {} 0 .kVecDel [3] s.wal).1, hs, ?_, ?_, by simp [hcp]⟩
  · cases hres : (append crc32 s.cfg {} 0 .kVecDel [3] s.wal).2 with
    | error e => rw [hres] at happ; cases happ
    | ok q =>
      rw [hres] at happ
      cases happ
      exact Prod.ext rfl hres
  · have : 1 ∈ s.acked.map (·.sequence) := by simp [hacked]
    obtain ⟨r, hr, he⟩ := List.mem_map.mp this
    exact ⟨r, hr, he⟩

/-- `continuedRun` meets the condition: its next record gets number 3. -/
theorem wal_continuity_continuedRun :
    ∃ s, run (walStep crc32) (WalRun.initial defaultWalConfig) continuedRun = some s ∧
      s.acked.map (·.sequence) = [2, 1] ∧
      ∀ io now op payload w q, append crc32 s.cfg io now op payload s.wal = (w, .ok q) →
        (∀ r ∈ s.acked, r.sequence < q) ∧ ∀ t ∈ s.checkpoints, t < q := by
  have hrun : (run (walStep crc32) (WalRun.initial defaultWalConfig) continuedRun).map
      (fun s => s.acked.map (·.sequence)) = some [2, 1] := by decide +kernel
  have hok : Meets (walStep crc32) walOk (WalRun.initial defaultWalConfig) continuedRun := by
    decide +kernel
  obtain ⟨s, hs, hacked⟩ := Option.map_eq_some_iff.mp hrun
  exact ⟨s, hs, hacked, (wal_continuity hs hok).1⟩

end Nvecd.Storage
