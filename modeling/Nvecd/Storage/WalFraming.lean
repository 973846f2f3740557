/-
  File:      Nvecd/Storage/WalFraming.lean
  Subject:   The round trip of the write-ahead log: what was appended is what is replayed.

  Appends, truncations, closes and opens in any order, with any `max_file_size`, the system calls
  doing what they are asked. Beside the object stands the log: every record that was appended,
  with the segment it went to, until that segment is removed.

  A truncation may remove all records and leave the current segment with its header only; the
  object then goes on from its own `current_sequence_`, not from the last record. So the
  invariant compares the object with its segments as if it stood at the last record (`atLast`).

  * `FramingAction`, `framingStep` -- the machine;
  * `Framed` -- the invariant, kept by every step that meets `framingOk`;
  * `wal_framing`.
-/
import Nvecd.Storage.WalCrash

namespace Nvecd.Storage

open Nvecd.Lib Nvecd.Utils

/-! ## 1. The machine -/

/-- The object, with the records appended so far, each with the number of its segment. -/
structure FramedWal where
  cfg : WalConfig
  wal : WriteAheadLog
  log : List (Nat × WalRecord) := []

def FramedWal.initial (cfg : WalConfig) : FramedWal := { cfg := cfg, wal := { dir := [] } }

inductive FramingAction where
  | append (now : Nat) (op : WalOpType) (payload : Bytes)
  | truncate (upTo : Nat)
  | close
  | open (cfg : WalConfig)

section Machine

variable (crc32 : Bytes → UInt32)

namespace FramedWal

/-- `Append`; a record it returns a number for is in the log. -/
def append (s : FramedWal) (now : Nat) (op : WalOpType) (payload : Bytes) : FramedWal :=
  match Storage.append crc32 s.cfg {} now op payload s.wal with
  | (w, .ok seq) =>
    { s with
      wal := w
      log := s.log ++ [(w.currentFileNumber, ⟨seq, now % 2 ^ 64, op.toByte, payload⟩)] }
  | (w, .error _) => { s with wal := w }

/-- `Truncate`; the records of the segments it removes leave the log. -/
def truncate (s : FramedWal) (upTo : Nat) : FramedWal :=
  let w := (Storage.truncate s.cfg {} upTo s.wal).1
  { s with wal := w, log := s.log.filter fun e => w.dir.contains e.1 }

def close (s : FramedWal) : FramedWal := { s with wal := Storage.close s.wal }

/-- `Open`. -/
def «open» (s : FramedWal) (cfg : WalConfig) : FramedWal :=
  { s with cfg := cfg, wal := (openWal crc32 cfg {} s.wal).1 }

end FramedWal

def framingStep (s : FramedWal) : FramingAction → Option FramedWal
  | .append now op payload => some (s.append crc32 now op payload)
  | .truncate upTo => some (s.truncate upTo)
  | .close => some s.close
  | .open cfg => some (s.open crc32 cfg)

/-- **No segment gets a number with seven digits.** -/
def framingOk (s : FramedWal) : FramingAction → Prop
  | .append _ _ payload =>
    needsRotation s.cfg s.wal (8 + (kWalRecordHeaderSize + payload.length)) → hasRoom s.wal.dir
  | .open _ => hasRoom s.wal.dir
  | _ => True

instance (s : FramedWal) : ∀ a, Decidable (framingOk s a)
  | .append _ _ payload => inferInstanceAs
      (Decidable (needsRotation _ _ (8 + (kWalRecordHeaderSize + payload.length)) → hasRoom _))
  | .open _ => inferInstanceAs (Decidable (hasRoom _))
  | .truncate _ => isTrue trivial
  | .close => isTrue trivial

/-! ## 2. The invariant -/

/-- The object as if it had its segment open and stood at the last of these records. -/
def atLast (segs : List Segment) (w : WriteAheadLog) : WriteAheadLog :=
  { w with
    currentFd := some w.currentFileNumber
    currentSequence := maxSequenceOf (recordsOf segs) }

/-- The records with the numbers of their segments. -/
def numbered (segs : List Segment) : List (Nat × WalRecord) :=
  segs.flatMap fun seg => seg.records.map fun r => (seg.number, r)

/-- **The invariant.** -/
structure Framed (segs : List Segment) (s : FramedWal) : Prop where
  segments : SegmentsOn crc32 segs s.wal.dir
  contiguous : Contiguous none (recordsOf segs)
  log : s.log = numbered segs
  fd : s.wal.currentFd = none ∨ s.wal.currentFd = some s.wal.currentFileNumber
  current : segs = [] ∧ s.wal.files = [] ∧ s.wal.currentFd = none ∨
    ∃ pre last, segs = pre ++ [last] ∧ Attached crc32 pre last (atLast segs s.wal)
  sequence : recordsOf segs ≠ [] → s.wal.currentSequence = maxSequenceOf (recordsOf segs)
  bound : s.wal.currentSequence ≤ kMaxU64

variable {crc32} {segs : List Segment} {s : FramedWal}

theorem framed_initial (cfg : WalConfig) : Framed crc32 [] (FramedWal.initial cfg) where
  segments := ⟨rfl, List.Pairwise.nil, by simp, by simp, by simp, List.Pairwise.nil⟩
  contiguous := trivial
  log := rfl
  fd := .inl rfl
  current := .inl ⟨rfl, rfl, rfl⟩
  sequence := fun h => absurd rfl h
  bound := Nat.zero_le _

theorem numbered_append (segs segs' : List Segment) :
    numbered (segs ++ segs') = numbered segs ++ numbered segs' := by
  simp [numbered]

theorem map_snd_numbered (segs : List Segment) :
    (numbered segs).map Prod.snd = recordsOf segs := by
  rw [numbered, List.map_flatMap, recordsOf]
  refine List.flatMap_congr fun seg _ => ?_
  rw [List.map_map]
  exact List.map_id _

theorem Framed.files (h : Framed crc32 segs s) : s.wal.files = segs.map Segment.file := by
  rcases h.current with ⟨rfl, hf, -⟩ | ⟨pre, last, rfl, ha⟩
  · exact hf
  · exact ha.files

theorem Framed.all_sealed (h : Framed crc32 segs s) : ∀ seg ∈ segs, seg.Sealed := by
  rcases h.current with ⟨rfl, -⟩ | ⟨pre, last, rfl, ha⟩
  · simp
  · exact ha.all_sealed h.segments

theorem Framed.room (h : Framed crc32 segs s) (hroom : hasRoom s.wal.dir) :
    ∀ seg ∈ segs, seg.number < 999999 := by
  intro seg hseg
  refine hroom (seg.entry crc32) ?_
  rw [h.segments.dir_eq]
  exact List.mem_map_of_mem hseg

/-- What the records of the last segment say about the object. -/
theorem Framed.attached (h : Framed crc32 segs s) (hfd : s.wal.currentFd ≠ none) :
    ∃ pre last, segs = pre ++ [last] ∧ Attached crc32 pre last (atLast segs s.wal) ∧
      s.wal.currentFd = some last.number ∧
      (recordsOf segs ≠ [] → Attached crc32 pre last s.wal) := by
  rcases h.current with ⟨-, -, hnone⟩ | ⟨pre, last, rfl, ha⟩
  · exact absurd hnone hfd
  · have hopen : s.wal.currentFd = some last.number :=
      (h.fd.resolve_left hfd).trans (congrArg some ha.number)
    exact ⟨pre, last, rfl, ha, hopen, fun hne =>
      ⟨hopen, ha.number, ha.size, ha.files, ha.isSealed, h.sequence hne⟩⟩

/-! ## 3. Close and Open -/

theorem Framed.close (h : Framed crc32 segs s) : Framed crc32 segs s.close where
  segments := h.segments
  contiguous := h.contiguous
  log := h.log
  fd := .inl rfl
  current := by
    rcases h.current with ⟨hnil, hf, -⟩ | ⟨pre, last, hsegs, ha⟩
    · exact .inl ⟨hnil, hf, rfl⟩
    · exact .inr ⟨pre, last, hsegs, ha.fd, ha.number, ha.size, ha.files, ha.isSealed, ha.sequence⟩
  sequence := h.sequence
  bound := h.bound

theorem numbered_eq_contents (segs : List Segment) :
    numbered segs = (contents segs).flatMap fun c => c.2.map fun r => (c.1, r) := by
  induction segs with
  | nil => rfl
  | cons seg segs ih =>
    have hcons : numbered (seg :: segs) =
        (seg.records.map fun r => (seg.number, r)) ++ numbered segs := rfl
    rw [hcons, ih]
    cases hr : seg.records with
    | nil => simp [contents, hr]
    | cons r rs => simp [contents, hr]

/-- **`Open`** keeps the records and goes on behind the last of them. -/
theorem Framed.open (h : Framed crc32 segs s) (cfg : WalConfig) (hroom : hasRoom s.wal.dir) :
    ∃ segs', Framed crc32 segs' (s.open crc32 cfg) := by
  obtain ⟨n, hopen, -, hs'⟩ := openWal_succeeds h.segments
    (fun seg hseg => (h.all_sealed seg hseg).1) h.contiguous (h.room hroom)
  have hcont := contents_opened segs n
  have hrec : recordsOf (keptSegments segs ++ [freshSegment n]) = recordsOf segs :=
    recordsOf_eq_of_contents hcont
  have hwal : (s.open crc32 cfg).wal = opened crc32 segs n := by rw [FramedWal.open, hopen]
  have hsame : atLast (keptSegments segs ++ [freshSegment n]) (opened crc32 segs n) =
      opened crc32 segs n := by
    rw [atLast, hrec]
    rfl
  refine ⟨keptSegments segs ++ [freshSegment n], ?_⟩
  constructor
  · rw [hwal]
    exact hs'
  · rw [hrec]
    exact h.contiguous
  · rw [numbered_eq_contents, hcont, ← numbered_eq_contents]
    exact h.log
  · rw [hwal]
    exact .inr rfl
  · refine .inr ⟨_, _, rfl, ?_⟩
    rw [hwal, hsame]
    exact attached_opened
  · intro _
    rw [hwal, hrec]
    rfl
  · rw [hwal]
    refine maxSequenceOf_le.2 fun r hr => ?_
    obtain ⟨seg, hseg, hr⟩ := List.mem_flatMap.mp hr
    exact (h.segments.fits seg hseg r hr).1.sequence

/-! ## 4. Append -/

/-- The new number is above all records. -/
theorem Framed.above (h : Framed crc32 segs s) :
    ∀ r ∈ recordsOf segs, r.sequence ≤ s.wal.currentSequence := by
  intro r hr
  rw [h.sequence (List.ne_nil_of_mem hr)]
  exact le_maxSequenceOf hr

/-- The record is written behind the others. -/
theorem Framed.written {pre : List Segment} {last : Segment}
    (h : Framed crc32 (pre ++ [last]) s) (hfd : s.wal.currentFd = some last.number)
    (ha : Attached crc32 pre last (atLast (pre ++ [last]) s.wal))
    (hmax : s.wal.currentSequence < kMaxU64) (now : Nat) (op : WalOpType) {payload : Bytes}
    (hlen : payload.length ≤ kMaxWalRecordBodySize - kWalRecordHeaderSize) :
    Framed crc32 (pre ++ [last.push (nextRecord s.wal now op payload)])
      { s with
        wal := Storage.written crc32 last.number (nextRecord s.wal now op payload) s.wal
        log := s.log ++ [(last.number, nextRecord s.wal now op payload)] } := by
  have hfits : (nextRecord s.wal now op payload).Fits := nextRecord_fits hmax hlen
  have hseq : (nextRecord s.wal now op payload).sequence = s.wal.currentSequence + 1 := rfl
  generalize nextRecord s.wal now op payload = r at hfits hseq ⊢
  have hrec : recordsOf (pre ++ [last.push r]) = recordsOf (pre ++ [last]) ++ [r] := by
    simp [recordsOf, Segment.push]
  have hone : maxSequenceOf [r] = s.wal.currentSequence + 1 := by simp [maxSequenceOf, hseq]
  have habove : maxSequenceOf (recordsOf (pre ++ [last])) ≤ s.wal.currentSequence :=
    maxSequenceOf_le.2 h.above
  have hlast : maxSequenceOf last.records ≤ s.wal.currentSequence := by
    refine le_trans ?_ habove
    rw [recordsOf_append, recordsOf_singleton, maxSequenceOf_append]
    exact le_max_right _ _
  constructor
  · refine h.segments.push ha.isSealed hfits (by omega) fun r' hr' => ?_
    rw [hseq]
    exact Nat.lt_succ_of_le (h.above r' hr')
  · rw [hrec]
    refine contiguous_next h.segments.increasing h.contiguous (fun hne => ?_) hfits.sequence
    rw [hseq, h.sequence hne]
  · rw [h.log, numbered_append, numbered_append, List.append_assoc]
    simp [numbered, Segment.push]
  · exact .inr (hfd.trans (congrArg some ha.number.symm))
  · refine .inr ⟨pre, last.push r, rfl, ?_⟩
    constructor
    · exact congrArg some ha.number
    · exact ha.number
    · rw [Segment.bytes_push ha.isSealed, List.length_append, ← ha.size]
      rfl
    · have hmaxLast : maxSequenceOf (last.records ++ [r]) = s.wal.currentSequence + 1 := by
        rw [maxSequenceOf_append, hone]
        exact max_eq_right (Nat.le_succ_of_le hlast)
      have hfiles := h.files
      simp only [atLast, Storage.written, hfiles, List.map_append, List.map_singleton,
        setBackMax_append, Segment.file, Segment.push, hmaxLast]
    · exact ha.isSealed
    · rfl
  · intro _
    rw [hrec, maxSequenceOf_append, hone]
    exact (max_eq_right (Nat.le_succ_of_le habove)).symm
  · exact hmax

/-- A rotation adds a segment without records. -/
theorem Framed.rotated {pre : List Segment} {last : Segment}
    (h : Framed crc32 (pre ++ [last]) s) (ha : Attached crc32 pre last s.wal)
    (hroom : last.number < 999999) :
    Framed crc32 ((pre ++ [last]) ++ [freshSegment (last.number + 1)])
      { s with wal := Storage.rotated s.wal } := by
  have hrec : recordsOf ((pre ++ [last]) ++ [freshSegment (last.number + 1)]) =
      recordsOf (pre ++ [last]) := by
    rw [recordsOf_append, recordsOf_singleton]
    exact List.append_nil _
  have ha' := ha.rotated
  constructor
  · exact ha.segmentsOn_rotated h.segments hroom
  · rw [hrec]
    exact h.contiguous
  · rw [numbered_append, ← h.log]
    exact (List.append_nil _).symm
  · exact .inr rfl
  · exact .inr ⟨_, _, rfl, congrArg some ha'.number, ha'.number, ha'.size, ha'.files, ha'.isSealed,
      rfl⟩
  · intro hne
    rw [hrec] at hne ⊢
    exact h.sequence hne
  · exact h.bound

/-- **`Append`**, with or without a rotation. -/
theorem Framed.append (h : Framed crc32 segs s) {now : Nat} {op : WalOpType} {payload : Bytes}
    (hok : framingOk s (.append now op payload)) :
    ∃ segs', Framed crc32 segs' (s.append crc32 now op payload) := by
  by_cases hfd : s.wal.currentFd = none
  · refine ⟨segs, ?_⟩
    simp only [FramedWal.append, append_of_closed hfd]
    exact h
  obtain ⟨pre, last, rfl, ha, hopen, hatt⟩ := h.attached hfd
  unfold FramedWal.append Storage.append
  by_cases hisOpen : ¬ s.wal.isOpen ∨ s.wal.currentFd = none
  · rw [if_pos hisOpen]
    exact ⟨_, h⟩
  rw [if_neg hisOpen]
  by_cases hseq : s.wal.currentSequence = kMaxU64
  · rw [if_pos hseq]
    exact ⟨_, h⟩
  rw [if_neg hseq]
  by_cases hlen : payload.length > kMaxWalRecordBodySize - kWalRecordHeaderSize
  · rw [if_pos hlen]
    exact ⟨_, h⟩
  rw [if_neg hlen]
  have hmax : s.wal.currentSequence < kMaxU64 := lt_of_le_of_ne h.bound hseq
  by_cases hrot : needsRotation s.cfg s.wal (8 + (kWalRecordHeaderSize + payload.length))
  · -- a segment that is over the limit has a record, so the object stands at the last one
    have hne : last.records ≠ [] := by
      intro hnil
      have hsize : kWalFileHeaderSize < s.wal.currentFileSize := hrot.2
      have hbytes : s.wal.currentFileSize = (last.bytes crc32).length := ha.size
      rw [hbytes, Segment.length_bytes ha.isSealed, hnil] at hsize
      simp at hsize
    have hne' : recordsOf (pre ++ [last]) ≠ [] := by
      rw [recordsOf_append, recordsOf_singleton]
      exact List.append_ne_nil_of_right_ne_nil _ hne
    have ha₀ := hatt hne'
    have hroom := h.room (hok hrot) last (by simp)
    have hnum : ∀ e ∈ s.wal.dir, e.number ≤ s.wal.currentFileNumber := by
      rw [h.segments.dir_eq, ha₀.number]
      intro e he
      obtain ⟨seg, hseg, rfl⟩ := List.mem_map.mp he
      exact h.segments.number_le_last seg hseg
    have hsmall : s.wal.currentFileNumber < kMaxU32 := by
      rw [ha₀.number]
      exact lt_trans hroom (by decide)
    rw [if_pos hrot, ha₀.setBackMax_files h.segments hne]
    simp only [rotateFile_succeeds hnum hsmall]
    rw [writeRecord_complete (n := last.number + 1) (by rw [Storage.rotated, ha₀.number])
      (fun k => by simp), if_neg (by simp)]
    have ha₁ := ha₀.rotated
    have hw := (h.rotated ha₀ hroom).written
      ha₁.fd ⟨congrArg some ha₁.number, ha₁.number, ha₁.size, ha₁.files, ha₁.isSealed, rfl⟩ hmax now op
      (Nat.le_of_not_lt hlen)
    have hn : (Storage.written crc32 (last.number + 1)
        (nextRecord (Storage.rotated s.wal) now op payload)
        (Storage.rotated s.wal)).currentFileNumber = last.number + 1 := ha₁.number
    simp only [hn]
    exact ⟨_, hw⟩
  · rw [if_neg hrot, writeRecord_complete hopen (fun k => by simp), if_neg (by simp)]
    have hw := h.written hopen ha hmax now op (Nat.le_of_not_lt hlen)
    have hn : (Storage.written crc32 last.number (nextRecord s.wal now op payload)
        s.wal).currentFileNumber = last.number := ha.number
    simp only [hn]
    exact ⟨_, hw⟩

/-! ## 5. Truncate -/

theorem filter_numbered {p : Segment → Bool} {q : Nat → Bool}
    (h : ∀ seg ∈ segs, q seg.number = p seg) :
    (numbered segs).filter (fun e => q e.1) = numbered (segs.filter p) := by
  induction segs with
  | nil => rfl
  | cons seg segs ih =>
    have hcons : numbered (seg :: segs) =
        (seg.records.map fun r => (seg.number, r)) ++ numbered segs := rfl
    have hseg := h seg List.mem_cons_self
    rw [hcons, List.filter_append, ih fun t ht => h t (List.mem_cons_of_mem seg ht)]
    cases hp : p seg with
    | true =>
      rw [List.filter_cons_of_pos hp, List.filter_eq_self.mpr]
      · rfl
      · intro e he
        obtain ⟨r, -, rfl⟩ := List.mem_map.mp he
        rw [hseg, hp]
    | false =>
      rw [List.filter_cons_of_neg (by simp [hp]), List.filter_eq_nil_iff.mpr]
      · rfl
      · intro e he
        obtain ⟨r, -, rfl⟩ := List.mem_map.mp he
        simp [hseg, hp]

/-- `Truncate` deletes a segment exactly if its metadata says so. -/
theorem Framed.deleted (h : Framed crc32 segs s) {seg : Segment} (hseg : seg ∈ segs)
    (upTo : Nat) :
    (s.wal.files.any fun f => deletes s.wal {} upTo f && f.fileNumber == seg.number) =
      truncatable s.wal upTo seg.file := by
  rw [Bool.eq_iff_iff, List.any_eq_true, h.files]
  constructor
  · rintro ⟨f, hf, hd⟩
    obtain ⟨t, ht, rfl⟩ := List.mem_map.mp hf
    rw [Bool.and_eq_true, beq_iff_eq] at hd
    rw [h.segments.number_inj hseg ht hd.2.symm]
    simpa [deletes] using hd.1
  · intro hd
    refine ⟨seg.file, List.mem_map_of_mem hseg, ?_⟩
    rw [Bool.and_eq_true]
    exact ⟨by simpa [deletes] using hd, beq_self_eq_true seg.number⟩

/-- **`Truncate`** removes a front part of the records, and of these only covered ones. -/
theorem Framed.truncate (h : Framed crc32 segs s) (upTo : Nat) :
    (∃ segs', Framed crc32 segs' (s.truncate upTo)) ∧
      ∀ e ∈ s.log, upTo < e.2.sequence → e ∈ (s.truncate upTo).log := by
  set segs' := segs.filter fun seg => !truncatable s.wal upTo seg.file with hsegs'
  have hfilter : segs.filter (fun seg => !s.wal.files.any fun f =>
      deletes s.wal {} upTo f && f.fileNumber == seg.number) = segs' :=
    List.filter_congr fun seg hseg => congrArg Bool.not (h.deleted hseg upTo)
  have hfilesOn : FilesOn segs s.wal.files := h.files ▸ filesOn_map segs
  obtain ⟨hs', -, -, hfiles'⟩ := @truncate_segments crc32 s.cfg {} upTo segs s.wal h.segments hfilesOn
  simp only [hfilter] at hs' hfiles'
  have hlog : (s.truncate upTo).log = numbered segs' := by
    simp only [FramedWal.truncate, h.log]
    refine filter_numbered (q := fun n => Dir.contains _ n) fun seg hseg => ?_
    rw [hs'.dir_eq, Bool.eq_iff_iff, Dir.contains, List.any_eq_true]
    constructor
    · rintro ⟨e, he, hn⟩
      obtain ⟨t, ht, rfl⟩ := List.mem_map.mp he
      have heq := h.segments.number_inj (List.mem_of_mem_filter ht) hseg (beq_iff_eq.mp hn)
      exact heq ▸ (List.mem_filter.mp ht).2
    · intro hkeep
      exact ⟨seg.entry crc32, List.mem_map_of_mem (List.mem_filter.mpr ⟨hseg, hkeep⟩),
        by simp [Segment.entry]⟩
  refine ⟨⟨segs', ?_⟩, fun e he hlt => ?_⟩
  swap
  · -- the segment of the record has a higher number than `upTo`
    rw [h.log] at he
    rw [hlog]
    obtain ⟨seg, hseg, he'⟩ := List.mem_flatMap.mp he
    obtain ⟨r, hr, rfl⟩ := List.mem_map.mp he'
    have hle : r.sequence ≤ seg.file.maxSequence := le_maxSequenceOf hr
    refine List.mem_flatMap.mpr ⟨seg, List.mem_filter.mpr ⟨hseg, ?_⟩, he'⟩
    have hno : ¬ seg.file.maxSequence ≤ upTo := by
      simp only at hlt
      omega
    simp [truncatable, hno]
  -- the removed segments stand in front
  obtain ⟨skipped, hrec⟩ : ∃ skipped, recordsOf segs = skipped ++ recordsOf segs' := by
    rcases h.current with ⟨rfl, -⟩ | ⟨pre, last, rfl, ha⟩
    · exact ⟨[], rfl⟩
    · have hsplit := h.segments.increasing
      rw [recordsOf_append] at hsplit
      obtain ⟨skipped, hpre, -⟩ := recordsOf_mayHold
        (List.pairwise_append.mp hsplit).1
        fun seg hseg r hr => (h.segments.fits seg (List.mem_append_left _ hseg) r hr).2
      have hkeep : segs' = pre.filter (mayHold (upTo + 1)) ++ [last] := by
        rw [hsegs', List.filter_append]
        congr 1
        · refine List.filter_congr fun seg hseg => ?_
          have hne : seg.number ≠ last.number :=
            (List.pairwise_append.mp h.segments.numbers_ne).2.2 seg hseg last
              (List.mem_singleton.mpr rfl)
          have hnum : s.wal.currentFileNumber = last.number := ha.number
          have hbne : (seg.number != last.number) = true := bne_iff_ne.mpr hne
          have harith : ∀ m : Nat, (!(decide (m ≤ upTo) && decide (0 < m))) =
              (decide (upTo + 1 ≤ m) || m == 0) := by
            intro m
            rw [Bool.eq_iff_iff]
            simp only [Bool.not_eq_true', Bool.and_eq_false_iff, decide_eq_false_iff_not,
              Bool.or_eq_true, decide_eq_true_eq, beq_iff_eq]
            omega
          simp only [truncatable, mayHold, hnum, Segment.file, hbne, Bool.and_true]
          exact harith _
        · have hnum : s.wal.currentFileNumber = last.number := ha.number
          simp [truncatable, hnum, Segment.file]
      refine ⟨skipped, ?_⟩
      rw [recordsOf_append, hpre, hkeep, recordsOf_append, List.append_assoc]
  have hwal : (s.truncate upTo).wal = (Storage.truncate s.cfg {} upTo s.wal).1 := rfl
  constructor
  · exact hs'
  · exact contiguous_of_append (hrec ▸ h.contiguous)
  · exact hlog
  · rw [hwal, truncate_fst]
    exact h.fd
  · rcases h.current with ⟨hnil, hf, hno⟩ | ⟨pre, last, hsegs, ha⟩
    · refine .inl ⟨by rw [hsegs', hnil]; rfl, ?_, ?_⟩
      · rw [hwal, truncate_fst, hf]
        rfl
      · rw [hwal, truncate_fst]
        exact hno
    · have hnum : s.wal.currentFileNumber = last.number := ha.number
      have hlast : segs' = (pre.filter fun seg => !truncatable s.wal upTo seg.file) ++ [last] := by
        rw [hsegs', hsegs, List.filter_append]
        congr 1
        simp [truncatable, hnum, Segment.file]
      refine .inr ⟨_, last, hlast, ?_⟩
      rw [hlast] at hfiles'
      constructor
      · rw [atLast, hwal, truncate_fst]
        exact congrArg some hnum
      · rw [atLast, hwal, truncate_fst]
        exact hnum
      · rw [atLast, hwal, truncate_fst]
        exact ha.size
      · exact hfiles' h.files
      · exact ha.isSealed
      · rw [atLast, hlast]
  · intro hne
    have hinc := hrec ▸ h.segments.increasing
    have hmax : maxSequenceOf skipped ≤ maxSequenceOf (recordsOf segs') := by
      obtain ⟨r, hr⟩ := List.exists_mem_of_ne_nil _ hne
      refine maxSequenceOf_le.2 fun r' hr' => ?_
      exact le_trans (Nat.le_of_lt ((List.pairwise_append.mp hinc).2.2 r' hr' r hr))
        (le_maxSequenceOf hr)
    have hseq := h.sequence (by rw [hrec]; exact List.append_ne_nil_of_right_ne_nil _ hne)
    rw [hrec, maxSequenceOf_append, max_eq_right hmax] at hseq
    rw [hwal, truncate_fst]
    exact hseq
  · rw [hwal, truncate_fst]
    exact h.bound

/-! ## 6. The round trip -/

theorem framed_run {cfg : WalConfig} {acts : List FramingAction}
    (hrun : run (framingStep crc32) (.initial cfg) acts = some s)
    (hok : Meets (framingStep crc32) framingOk (.initial cfg) acts) :
    ∃ segs, Framed crc32 segs s := by
  have hstep : ∀ s a s', (∃ segs, Framed crc32 segs s) → framingOk s a →
      framingStep crc32 s a = some s' → ∃ segs, Framed crc32 segs s' := by
    rintro s a s' ⟨segs, h⟩ hok hstep
    cases a with
    | append now op payload =>
      obtain rfl := Option.some.inj hstep
      exact h.append hok
    | truncate upTo =>
      obtain rfl := Option.some.inj hstep
      exact (h.truncate upTo).1
    | close =>
      obtain rfl := Option.some.inj hstep
      exact ⟨segs, h.close⟩
    | «open» cfg =>
      obtain rfl := Option.some.inj hstep
      exact h.open cfg hok
  exact run_inv_of_meets hstep ⟨[], framed_initial cfg⟩ hok hrun

/-- What lies at or above a floor follows directly upon each other, too. -/
theorem contiguous_filter {rs : List WalRecord} (k : Nat) {previous : Option Nat}
    (hc : Contiguous previous rs) (hinc : rs.Pairwise fun a b => a.sequence < b.sequence) :
    Contiguous none (rs.filter fun r => k ≤ r.sequence) := by
  induction rs generalizing previous with
  | nil => trivial
  | cons r rs ih =>
    obtain ⟨hlt, hinc'⟩ := List.pairwise_cons.mp hinc
    by_cases hk : k ≤ r.sequence
    · have hall : (r :: rs).filter (fun r => decide (k ≤ r.sequence)) = r :: rs := by
        refine List.filter_eq_self.mpr fun r' hr' => ?_
        rcases List.mem_cons.mp hr' with rfl | hr'
        · simpa using hk
        · have := hlt r' hr'
          rw [decide_eq_true_eq]
          omega
      rw [hall]
      exact ⟨rfl, hc.2⟩
    · rw [List.filter_cons_of_neg (by simpa using hk)]
      exact ih hc.2 hinc'

theorem isChain_of_contiguous {rs : List WalRecord} {previous : Option Nat}
    (hc : Contiguous previous rs) : rs.IsChain fun a b => b.sequence = a.sequence + 1 := by
  induction rs generalizing previous with
  | nil => exact .nil
  | cons r rs ih =>
    cases rs with
    | nil => exact .singleton r
    | cons r' rs =>
      have hnext : r'.sequence = r.sequence + 1 := by
        have := hc.2.1
        simp only [breaksSequence, Bool.or_eq_false_iff, bne_eq_false_iff_eq] at this
        exact this.2
      exact .cons_cons hnext (ih hc.2)

/-- **The round trip.** In every state that a run meeting `framingOk` reaches, `Replay(k)` calls
    the callback on exactly the appended records from `k` on that are not in a removed segment,
    each number following the one before, and then succeeds unless the record `k` itself has been
    removed; and `Truncate` removes no record above its argument. -/
theorem wal_framing {cfg : WalConfig} {acts : List FramingAction}
    (hrun : run (framingStep crc32) (.initial cfg) acts = some s)
    (hok : Meets (framingStep crc32) framingOk (.initial cfg) acts) :
    (∀ k, let delivered := (s.log.map Prod.snd).filter fun r => k ≤ r.sequence
      delivered.IsChain (fun a b => b.sequence = a.sequence + 1) ∧
      ∀ (τ : Type) (callback : τ → WalRecord → Except Error τ) (init : τ),
        (replaySegments crc32 s.cfg s.wal.dir k callback (replayPaths s.wal k)
          ⟨none, k == 0, 0, init⟩).map (fun p => p.2.acc) = delivered.foldlM callback init ∧
        replayValidated crc32 s.cfg k callback init s.wal =
          delivered.foldlM callback init >>= fun acc =>
            if (k ≠ 0 ∧ ∀ e ∈ s.log, e.2.sequence ≠ k) ∧ k ≤ s.wal.currentSequence then
              .error (makeError .kWalCorrupted
                ("WAL does not contain requested replay floor sequence " ++ toString k))
            else .ok (delivered.length, acc)) ∧
    ∀ upTo s', framingStep crc32 s (.truncate upTo) = some s' →
      ∀ e ∈ s.log, upTo < e.2.sequence → e ∈ s'.log := by
  obtain ⟨segs, h⟩ := framed_run hrun hok
  have hrec : s.log.map Prod.snd = recordsOf segs := by rw [h.log, map_snd_numbered]
  refine ⟨fun k => ⟨?_, fun τ callback init => ⟨?_, ?_⟩⟩, fun upTo s' hstep => ?_⟩
  · rw [hrec]
    exact isChain_of_contiguous (contiguous_filter k h.contiguous h.segments.increasing)
  · obtain ⟨previous, hloop⟩ := replaySegments_paths h.segments h.all_sealed h.files h.contiguous
    rw [hloop, hrec]
    cases ((recordsOf segs).filter fun r => k ≤ r.sequence).foldlM callback init with
    | error e => rfl
    | ok acc => rfl
  · have hfloor : (!(k == 0 || (recordsOf segs).any fun r => r.sequence == k) &&
        decide (k ≤ s.wal.currentSequence)) = true ↔
        (k ≠ 0 ∧ ∀ e ∈ s.log, e.2.sequence ≠ k) ∧ k ≤ s.wal.currentSequence := by
      rw [← hrec]
      simp
    rw [replayValidated_eq h.segments h.all_sealed h.files h.contiguous, hrec]
    simp only [hfloor]
  · obtain rfl := Option.some.inj hstep
    exact (h.truncate upTo).2

/-! ## 7. Two runs -/

/-- Each `Open` of a log without records takes the next number. -/
theorem open_next {cfg : WalConfig} {n : Nat} (hn : n < 999999) :
    openWal crc32 cfg {} (opened crc32 [] n) = (opened crc32 [] (n + 1), .ok ()) := by
  have hfresh : ∀ seg ∈ [freshSegment n], seg = freshSegment n := fun _ => List.mem_singleton.mp
  have hs : SegmentsOn crc32 [freshSegment n] (opened crc32 [] n).dir := by
    constructor
    · rfl
    · exact List.pairwise_singleton _ _
    · intro seg hseg
      rw [hfresh seg hseg]
      exact (freshSegment_sealed n).wellFormed
    · intro seg hseg
      rw [hfresh seg hseg]
      exact lt_trans hn (by decide)
    · intro seg hseg r hr
      rw [hfresh seg hseg] at hr
      cases hr
    · exact List.Pairwise.nil
  obtain ⟨n', hopen, hn', -⟩ := openWal_succeeds hs
    (fun seg hseg => by rw [hfresh seg hseg]; rfl) trivial
    (fun seg hseg => by rw [hfresh seg hseg]; exact hn)
  have hnext : n' = n + 1 := by
    rw [hn']
    simp [freshSegment]
  rw [hopen, hnext]
  rfl

/-- Restarts without an append count up the file numbers. -/
theorem run_opens (cfg : WalConfig) (k n : Nat) (hk : n + k ≤ 999999) :
    run (framingStep crc32) { cfg := cfg, wal := opened crc32 [] n }
        (List.replicate k (.open cfg)) =
      some { cfg := cfg, wal := opened crc32 [] (n + k) } := by
  induction k generalizing n with
  | zero => rfl
  | succ k ih =>
    have hstep : framingStep crc32 { cfg := cfg, wal := opened crc32 [] n } (.open cfg) =
        some { cfg := cfg, wal := opened crc32 [] (n + 1) } := by
      rw [framingStep, FramedWal.open, open_next (by omega)]
    rw [List.replicate_succ]
    refine run_cons_eq_some.2 ⟨_, hstep, ?_⟩
    rw [ih (n + 1) (by omega), Nat.add_right_comm, Nat.add_assoc]

end Machine

/-- A million starts, one record, a restart. -/
def millionStarts : List FramingAction :=
  List.replicate 1000000 (.open defaultWalConfig) ++
    [.append 0 .kVecDel [1], .close, .open defaultWalConfig]

/-- **The segment `wal-1000000.log` is never found again**: its record was appended and not
    removed, and `Replay(0)` does not deliver it. -/
theorem seven_digits_lost :
    ∃ s, run (framingStep crc32) (.initial defaultWalConfig) millionStarts = some s ∧
      s.log.map (·.2.sequence) = [1] ∧
      replayValidated crc32 s.cfg 0 (fun acc r => .ok (acc ++ [r])) [] s.wal = .ok (0, []) := by
  have hsplit : millionStarts = .open defaultWalConfig :: (List.replicate 999998 (.open defaultWalConfig) ++
      [.open defaultWalConfig, .append 0 .kVecDel [1], .close, .open defaultWalConfig]) := by
    have hcount : List.replicate 1000000 (FramingAction.open defaultWalConfig) =
        [.open defaultWalConfig] ++ List.replicate 999998 (.open defaultWalConfig) ++
          [.open defaultWalConfig] := by
      rw [← List.replicate_one, List.replicate_append_replicate, List.replicate_append_replicate]
    rw [millionStarts, hcount]
    simp only [List.append_assoc, List.cons_append, List.nil_append]
  have hfirst : (framingStep crc32 (.initial defaultWalConfig) (.open defaultWalConfig)).map
      (·.wal) = some (opened crc32 [] 1) := by decide +kernel
  have hlast : (run (framingStep crc32) { cfg := defaultWalConfig, wal := opened crc32 [] 999999 }
      [.open defaultWalConfig, .append 0 .kVecDel [1], .close, .open defaultWalConfig]).map (fun s =>
        (s.log.map (·.2.sequence),
          (replayValidated crc32 s.cfg 0 (fun acc r => .ok (acc ++ [r])) [] s.wal).toOption)) =
      some ([1], some (0, [])) := by decide +kernel
  obtain ⟨s, hs, he⟩ := Option.map_eq_some_iff.mp hlast
  obtain ⟨hlog, hreplay⟩ := Prod.mk.inj he
  refine ⟨s, ?_, hlog, ?_⟩
  · rw [hsplit]
    obtain ⟨t, ht, hwal⟩ := Option.map_eq_some_iff.mp hfirst
    have ht' : t = { cfg := defaultWalConfig, wal := opened crc32 [] 1 } := by
      obtain rfl := Option.some.inj ht
      rw [← hwal]
      rfl
    refine run_cons_eq_some.2 ⟨t, ht, ?_⟩
    rw [ht', run_append (run_opens defaultWalConfig 999998 1 (by decide))]
    exact hs
  · cases hres : replayValidated crc32 s.cfg 0 (fun acc r => .ok (acc ++ [r])) [] s.wal with
    | error e =>
      rw [hres] at hreplay
      cases hreplay
    | ok p =>
      rw [hres] at hreplay
      exact congrArg Except.ok (Option.some.inj hreplay)

/-- Three records in three segments, the first removed, a restart, a fourth record. -/
def framingRun : List FramingAction :=
  [.open smallSegments, .append 0 .kVecDel [1], .append 0 .kVecDel [2], .append 0 .kVecDel [3],
    .truncate 1, .close, .open smallSegments, .append 0 .kVecDel [4]]

theorem wal_framing_framingRun :
    ∃ s, run (framingStep crc32) (.initial smallSegments) framingRun = some s ∧
      s.log.map (·.2.payload) = [[2], [3], [4]] ∧
      ∀ k, ((s.log.map Prod.snd).filter fun r => k ≤ r.sequence).IsChain
        fun a b => b.sequence = a.sequence + 1 := by
  have hrun : (run (framingStep crc32) (.initial smallSegments) framingRun).map
      (fun s => s.log.map (·.2.payload)) = some [[2], [3], [4]] := by decide +kernel
  have hok : Meets (framingStep crc32) framingOk (.initial smallSegments) framingRun := by
    decide +kernel
  obtain ⟨s, hs, hlog⟩ := Option.map_eq_some_iff.mp hrun
  exact ⟨s, hs, hlog, fun k => ((wal_framing hs hok).1 k).1⟩

end Nvecd.Storage
