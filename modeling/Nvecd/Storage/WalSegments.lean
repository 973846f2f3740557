/-
  File:      Nvecd/Storage/WalSegments.lean
  Subject:   The WAL directory as a list of segments, each a list of records: what the bytes
             mean, and what the two walks over them (`ScanExistingFiles`, `ReplayValidated`)
             find there.

  * `Segment` -- a file as its number, header, complete records and torn tail;
  * `take_frames` -- a cut at any byte leaves the records that fit before it and a torn tail;
  * `scanRecords_ok`, `replayRecords_frames` -- the record loops over one segment;
  * `SegmentsOn` -- the directory holds exactly these segments, in the order of their numbers,
    and only the newest may end in a torn write.
-/
import Mathlib.Data.List.Pairwise
import Mathlib.Data.List.Sort
import Nvecd.Storage.Wal

namespace Nvecd.Storage

open Nvecd.Lib Nvecd.Utils

/-! ## 1. Frames in a row -/

section Frames

variable (crc32 : Bytes → UInt32)

/-- The frames of the records, one after the other. -/
def frames (rs : List WalRecord) : Bytes := rs.flatMap (encodeRecord crc32)

/-- What a write that stopped early leaves: a strict prefix of some record's frame. -/
def TornTail (tail : Bytes) : Prop :=
  ∃ r : WalRecord, r.Fits ∧ ∃ k < (encodeRecord crc32 r).length,
    tail = (encodeRecord crc32 r).take k

/-- The records whose frames lie entirely within the first `k` bytes. -/
def fitting : Nat → List WalRecord → List WalRecord
  | _, [] => []
  | k, r :: rs =>
    if (encodeRecord crc32 r).length ≤ k then
      r :: fitting (k - (encodeRecord crc32 r).length) rs
    else []

variable {crc32}

@[simp] theorem frames_nil : frames crc32 [] = [] := rfl

@[simp] theorem frames_cons (r : WalRecord) (rs : List WalRecord) :
    frames crc32 (r :: rs) = encodeRecord crc32 r ++ frames crc32 rs := rfl

@[simp] theorem frames_append (rs rs' : List WalRecord) :
    frames crc32 (rs ++ rs') = frames crc32 rs ++ frames crc32 rs' := by
  simp [frames]

theorem tornTail_nil : TornTail crc32 [] :=
  ⟨⟨0, 0, 0, []⟩, ⟨Nat.zero_le _, Nat.zero_le _, by decide⟩, 0, by simp, rfl⟩

theorem tornTail_take {tail : Bytes} (h : TornTail crc32 tail) (k : Nat) :
    TornTail crc32 (tail.take k) := by
  obtain ⟨r, hr, j, hj, rfl⟩ := h
  exact ⟨r, hr, min k j, lt_of_le_of_lt (Nat.min_le_right k j) hj, by rw [List.take_take]⟩

theorem readFrame_tornTail {tail : Bytes} (h : TornTail crc32 tail) :
    readFrame crc32 tail = .eof ∨ readFrame crc32 tail = .tornHeader ∨
      readFrame crc32 tail = .tornBody := by
  obtain ⟨r, hr, k, hk, rfl⟩ := h
  exact readFrame_torn hr hk

theorem readFrame_eof_iff {bytes : Bytes} : readFrame crc32 bytes = .eof ↔ bytes = [] := by
  constructor
  · intro h
    by_contra hne
    have hlen : ¬ bytes.length = 0 := by simpa using hne
    unfold readFrame at h
    rw [if_neg hlen] at h
    split at h
    · cases h
    · dsimp only at h
      repeat' split at h
      all_goals cases h
  · rintro rfl
    rfl

/-- **A cut at byte `k`** leaves the records that fit and a torn tail. -/
theorem take_frames {rs : List WalRecord} (hfit : ∀ r ∈ rs, r.Fits) {tail : Bytes}
    (htail : TornTail crc32 tail) (k : Nat) :
    ∃ tail', TornTail crc32 tail' ∧
      (frames crc32 rs ++ tail).take k = frames crc32 (fitting crc32 k rs) ++ tail' := by
  induction rs generalizing k with
  | nil => exact ⟨tail.take k, tornTail_take htail k, by simp [fitting]⟩
  | cons r rs ih =>
    by_cases hk : (encodeRecord crc32 r).length ≤ k
    · obtain ⟨tail', ht, he⟩ := ih (fun r' h => hfit r' (List.mem_cons_of_mem r h))
        (k - (encodeRecord crc32 r).length)
      refine ⟨tail', ht, ?_⟩
      simp only [fitting, if_pos hk, frames_cons, List.append_assoc]
      rw [List.take_append, List.take_of_length_le hk, he]
    · refine ⟨(encodeRecord crc32 r).take k,
        ⟨r, hfit r List.mem_cons_self, k, by omega, rfl⟩, ?_⟩
      simp only [fitting, if_neg hk, frames_cons, List.append_assoc, frames_nil,
        List.nil_append]
      exact List.take_append_of_le_length (by omega)

theorem fitting_isPrefix (k : Nat) (rs : List WalRecord) : fitting crc32 k rs <+: rs := by
  induction rs generalizing k with
  | nil => exact List.prefix_rfl
  | cons r rs ih =>
    unfold fitting
    split
    · exact (List.prefix_cons_inj r).mpr (ih _)
    · exact List.nil_prefix

theorem fitting_mono {k k' : Nat} (h : k ≤ k') (rs : List WalRecord) :
    fitting crc32 k rs <+: fitting crc32 k' rs := by
  induction rs generalizing k k' with
  | nil => exact List.prefix_rfl
  | cons r rs ih =>
    unfold fitting
    by_cases hk : (encodeRecord crc32 r).length ≤ k
    · rw [if_pos hk, if_pos (le_trans hk h)]
      exact (List.prefix_cons_inj r).mpr (ih (Nat.sub_le_sub_right h _))
    · rw [if_neg hk]
      exact List.nil_prefix

theorem fitting_of_length_le {k : Nat} {rs : List WalRecord}
    (h : (frames crc32 rs).length ≤ k) : fitting crc32 k rs = rs := by
  induction rs generalizing k with
  | nil => rfl
  | cons r rs ih =>
    rw [frames_cons, List.length_append] at h
    have hk : (encodeRecord crc32 r).length ≤ k := by omega
    simp only [fitting, if_pos hk]
    rw [ih (by omega)]

/-- More records behind it do not change what fits. -/
theorem fitting_append_isPrefix (k : Nat) (rs rs' : List WalRecord) :
    fitting crc32 k rs <+: fitting crc32 k (rs ++ rs') := by
  induction rs generalizing k with
  | nil => exact List.nil_prefix
  | cons r rs ih =>
    simp only [List.cons_append, fitting]
    split
    · exact (List.prefix_cons_inj r).mpr (ih _)
    · exact List.prefix_rfl

end Frames

/-! ## 2. Contiguity -/

/-- Each record's number is the one after its predecessor's: what both walks check. -/
def Contiguous : Option Nat → List WalRecord → Prop
  | _, [] => True
  | previous, r :: rs => breaksSequence previous r.sequence = false ∧
      Contiguous (some r.sequence) rs

/-- The last sequence number seen after walking over the records. -/
def lastSeen : Option Nat → List WalRecord → Option Nat
  | previous, [] => previous
  | _, r :: rs => lastSeen (some r.sequence) rs

theorem contiguous_append {previous : Option Nat} {rs rs' : List WalRecord} :
    Contiguous previous (rs ++ rs') ↔
      Contiguous previous rs ∧ Contiguous (lastSeen previous rs) rs' := by
  induction rs generalizing previous with
  | nil => simp [Contiguous, lastSeen]
  | cons r rs ih => simp only [List.cons_append, Contiguous, lastSeen, ih, and_assoc]

theorem lastSeen_append (previous : Option Nat) (rs rs' : List WalRecord) :
    lastSeen previous (rs ++ rs') = lastSeen (lastSeen previous rs) rs' := by
  induction rs generalizing previous with
  | nil => rfl
  | cons r rs ih => simp only [List.cons_append, lastSeen, ih]

/-- Dropping a front part keeps contiguity: the walk starts without a predecessor. -/
theorem contiguous_of_append {previous : Option Nat} {rs rs' : List WalRecord}
    (h : Contiguous previous (rs ++ rs')) : Contiguous none rs' := by
  have h' := (contiguous_append.1 h).2
  cases rs' with
  | nil => trivial
  | cons r rs' => exact ⟨rfl, h'.2⟩

/-! ## 3. The record loops -/

section Loops

variable {crc32 : Bytes → UInt32}

/-- `max_sequence` of a segment with these records. -/
def maxSequenceOf (rs : List WalRecord) : Nat := rs.foldl (fun m r => max m r.sequence) 0

theorem foldl_max_le {rs : List WalRecord} {m n : Nat} :
    rs.foldl (fun m r => max m r.sequence) m ≤ n ↔ m ≤ n ∧ ∀ r ∈ rs, r.sequence ≤ n := by
  induction rs generalizing m with
  | nil => simp
  | cons r rs ih =>
    simp only [List.foldl_cons, ih, max_le_iff, List.forall_mem_cons, and_assoc]

theorem maxSequenceOf_le {rs : List WalRecord} {n : Nat} :
    maxSequenceOf rs ≤ n ↔ ∀ r ∈ rs, r.sequence ≤ n := by
  simp [maxSequenceOf, foldl_max_le]

theorem le_maxSequenceOf {rs : List WalRecord} {r : WalRecord} (h : r ∈ rs) :
    r.sequence ≤ maxSequenceOf rs := maxSequenceOf_le.1 le_rfl r h

theorem exists_maxSequenceOf {rs : List WalRecord} (h : rs ≠ []) :
    ∃ r ∈ rs, r.sequence = maxSequenceOf rs := by
  by_contra hne
  have hlt : ∀ r ∈ rs, r.sequence < maxSequenceOf rs := fun r hr =>
    lt_of_le_of_ne (le_maxSequenceOf hr) fun he => hne ⟨r, hr, he⟩
  obtain ⟨r, hr⟩ := List.exists_mem_of_ne_nil rs h
  have hle : maxSequenceOf rs ≤ maxSequenceOf rs - 1 :=
    maxSequenceOf_le.2 fun r' hr' => by have := hlt r' hr'; omega
  have := hlt r hr
  omega

theorem length_frames_ge (rs : List WalRecord) : rs.length ≤ (frames crc32 rs).length := by
  induction rs with
  | nil => simp
  | cons r rs ih => simp; omega

/-- **The scan of one segment**: if it succeeds, the records continue the sequence without a
    gap, and it has measured them; a torn tail is only accepted in the newest segment. -/
theorem scanRecords_ok {path : String} {latest ftruncateFails : Bool} {turns : Nat}
    {sc sc' : SegmentScan} {rs : List WalRecord} {tail : Bytes}
    (hfit : ∀ r ∈ rs, r.Fits) (htail : TornTail crc32 tail)
    (h : scanRecords crc32 path latest ftruncateFails turns sc (frames crc32 rs ++ tail) =
      .ok sc') :
    Contiguous sc.previousSequence rs ∧
      sc' = ⟨lastSeen sc.previousSequence rs,
        rs.foldl (fun m r => max m r.sequence) sc.maxSequence,
        sc.validLength + (frames crc32 rs).length⟩ := by
  induction rs generalizing turns sc with
  | nil =>
    cases turns with
    | zero => cases h
    | succ turns =>
      simp only [frames_nil, List.nil_append, scanRecords] at h
      refine ⟨trivial, ?_⟩
      have hsc : sc' = sc := by
        rcases readFrame_tornTail htail with hf | hf | hf <;> rw [hf] at h <;>
          simp only at h
        · exact (Except.ok.inj h).symm
        · split at h
          · cases h
          · exact (Except.ok.inj h).symm
        · split at h
          · cases h
          · exact (Except.ok.inj h).symm
      simp [hsc, lastSeen]
  | cons r rs ih =>
    cases turns with
    | zero => cases h
    | succ turns =>
      simp only [frames_cons, List.append_assoc, scanRecords,
        readFrame_encodeRecord (hfit r List.mem_cons_self)] at h
      split at h
      · cases h
      · rename_i hbreak
        obtain ⟨hc, hsc⟩ := ih (fun r' hr' => hfit r' (List.mem_cons_of_mem r hr')) h
        refine ⟨⟨by simpa using hbreak, hc⟩, ?_⟩
        rw [hsc]
        simp only [lastSeen, List.foldl_cons, List.length_append, frames_cons]
        congr 1
        omega

/-- What a replay from `fromSequence` does with the records it walks over. -/
def replayFold {τ : Type} (fromSequence : Nat) (callback : τ → WalRecord → Except Error τ)
    (st : ReplayState τ) (rs : List WalRecord) : Except Error (ReplayState τ) :=
  ((rs.filter fun r => fromSequence ≤ r.sequence).foldlM callback st.acc).map fun acc =>
    { previousSequence := lastSeen st.previousSequence rs
      floorSeen := st.floorSeen || rs.any fun r => r.sequence == fromSequence
      count := st.count + (rs.filter fun r => fromSequence ≤ r.sequence).length
      acc := acc }

/-- **The replay of one intact segment** is the fold of the callback over its records at or
    above the floor. -/
theorem replayRecords_frames {τ : Type} {path : String} {latest : Bool} {fromSequence : Nat}
    {callback : τ → WalRecord → Except Error τ} {turns : Nat} {st : ReplayState τ}
    {rs : List WalRecord} (hfit : ∀ r ∈ rs, r.Fits) (hc : Contiguous st.previousSequence rs)
    (hturns : rs.length < turns) :
    replayRecords crc32 path latest fromSequence callback turns st (frames crc32 rs) =
      (replayFold fromSequence callback st rs).map fun st' => (false, st') := by
  induction rs generalizing turns st with
  | nil =>
    obtain ⟨turns, rfl⟩ : ∃ n, turns = n + 1 := ⟨turns - 1, by simp at hturns; omega⟩
    have heof : readFrame crc32 [] = .eof := readFrame_eof_iff.2 rfl
    simp only [frames_nil, replayRecords, heof, replayFold, List.filter_nil, List.foldlM_nil,
      lastSeen, List.any_nil, Bool.or_false, List.length_nil, Nat.add_zero]
    rfl
  | cons r rs ih =>
    obtain ⟨turns, rfl⟩ : ∃ n, turns = n + 1 := ⟨turns - 1, by simp at hturns; omega⟩
    have hfit' : ∀ r' ∈ rs, r'.Fits := fun r' hr' => hfit r' (List.mem_cons_of_mem r hr')
    have hlt : rs.length < turns := by simpa using hturns
    simp only [frames_cons, replayRecords, readFrame_encodeRecord (hfit r List.mem_cons_self),
      hc.1, Bool.false_eq_true, if_false]
    by_cases hlow : r.sequence < fromSequence
    · have hfilter : (decide (fromSequence ≤ r.sequence)) = false := by simp [hlow]
      rw [if_pos hlow, ih hfit' hc.2 hlt]
      simp only [replayFold, List.filter_cons, hfilter, List.any_cons, lastSeen,
        Bool.or_assoc, Bool.false_eq_true, if_false]
    · have hfilter : (decide (fromSequence ≤ r.sequence)) = true := by simp; omega
      rw [if_neg hlow]
      cases hcb : callback st.acc r with
      | error e =>
        simp only [replayFold, List.filter_cons, hfilter, if_true, List.foldlM_cons, hcb]
        rfl
      | ok acc =>
        simp only
        rw [ih hfit' hc.2 hlt]
        simp only [replayFold, List.filter_cons, hfilter, if_true, List.foldlM_cons, hcb,
          List.any_cons, lastSeen, List.length_cons, Bool.or_assoc]
        have hcount : ∀ n, st.count + 1 + n = st.count + (n + 1) := fun n => by omega
        simp only [hcount]
        rfl

end Loops

/-! ## 4. Segments -/

/-- A file of the WAL directory: its number, the header bytes, the complete records and
    whatever a write that stopped early left behind them. -/
structure Segment where
  number : Nat
  header : Bytes := fileHeader
  records : List WalRecord := []
  tail : Bytes := []

/-- The records of the segments, in order. -/
def recordsOf (segs : List Segment) : List WalRecord := segs.flatMap (·.records)

/-- What the segments hold: the record-bearing ones, by number. Header-only segments and torn
    tails come and go without changing it. -/
def contents (segs : List Segment) : List (Nat × List WalRecord) :=
  (segs.filter fun s => !s.records.isEmpty).map fun s => (s.number, s.records)

namespace Segment

/-- A whole header and nothing torn: what every segment but the newest is. -/
def Sealed (s : Segment) : Prop := s.header = fileHeader ∧ s.tail = []

/-- The segment with its torn tail cut off. -/
def cut (s : Segment) : Segment := { s with tail := [] }

/-- The metadata `files_` holds for the segment. -/
def file (s : Segment) : WalFile := ⟨s.number, maxSequenceOf s.records⟩

variable (crc32 : Bytes → UInt32)

def bytes (s : Segment) : Bytes := s.header ++ (frames crc32 s.records ++ s.tail)

def entry (s : Segment) : DirEntry := ⟨s.number, s.bytes crc32⟩

/-- Either the header is whole and a torn tail may follow the records, or the header itself is
    torn and nothing follows. -/
def WellFormed (s : Segment) : Prop :=
  (s.header = fileHeader ∧ TornTail crc32 s.tail) ∨
    (s.header.length < kWalFileHeaderSize ∧ s.records = [] ∧ s.tail = [])

variable {crc32}

theorem Sealed.wellFormed {s : Segment} (h : s.Sealed) : s.WellFormed crc32 :=
  .inl ⟨h.1, by rw [h.2]; exact tornTail_nil⟩

theorem file_maxSequence_pos {s : Segment} (h : ∀ r ∈ s.records, 0 < r.sequence) :
    0 < s.file.maxSequence ↔ s.records ≠ [] := by
  constructor
  · intro hpos hnil
    simp [file, hnil, maxSequenceOf] at hpos
  · intro hne
    obtain ⟨r, hr, he⟩ := exists_maxSequenceOf hne
    rw [file, ← he]
    exact h r hr

end Segment

section Directory

variable (crc32 : Bytes → UInt32)

/-- **The directory holds exactly these segments**: in the order of their numbers, with names
    the scan recognises, only the newest possibly torn, and with increasing record numbers. -/
structure SegmentsOn (segs : List Segment) (dir : Dir) : Prop where
  dir_eq : dir = segs.map (Segment.entry crc32)
  ordered : segs.Pairwise fun a b => a.number < b.number ∧ a.Sealed
  shape : ∀ s ∈ segs, s.WellFormed crc32
  named : ∀ s ∈ segs, s.number < 1000000
  fits : ∀ s ∈ segs, ∀ r ∈ s.records, r.Fits ∧ 0 < r.sequence
  increasing : (recordsOf segs).Pairwise fun a b => a.sequence < b.sequence

variable {crc32}

theorem recordsOf_sublist {segs segs' : List Segment} (h : segs'.Sublist segs) :
    (recordsOf segs').Sublist (recordsOf segs) := by
  induction h with
  | slnil => exact List.Sublist.slnil
  | cons s _ ih => exact ih.trans (List.sublist_append_right s.records _)
  | cons_cons s _ ih => exact (List.Sublist.refl s.records).append ih

/-- Deleting files keeps the layout. -/
theorem SegmentsOn.sublist {segs segs' : List Segment} {dir : Dir}
    (h : SegmentsOn crc32 segs dir) (hsub : segs'.Sublist segs) :
    SegmentsOn crc32 segs' (segs'.map (Segment.entry crc32)) where
  dir_eq := rfl
  ordered := h.ordered.sublist hsub
  shape := fun s hs => h.shape s (hsub.subset hs)
  named := fun s hs => h.named s (hsub.subset hs)
  fits := fun s hs => h.fits s (hsub.subset hs)
  increasing := h.increasing.sublist (recordsOf_sublist hsub)

theorem SegmentsOn.number_inj {segs : List Segment} {dir : Dir} (h : SegmentsOn crc32 segs dir)
    {a b : Segment} (ha : a ∈ segs) (hb : b ∈ segs) (he : a.number = b.number) : a = b := by
  by_contra hne
  have hp : segs.Pairwise fun a b => a.number ≠ b.number :=
    h.ordered.imp fun hab => Nat.ne_of_lt hab.1
  have : Std.Symm fun a b : Segment => a.number ≠ b.number := ⟨fun _ _ hab => hab.symm⟩
  exact hp.forall ha hb hne he

theorem lookup_entries {segs : List Segment} (hord : segs.Pairwise fun a b => a.number ≠ b.number)
    {s : Segment} (hs : s ∈ segs) :
    Dir.lookup (segs.map (Segment.entry crc32)) s.number = some (s.bytes crc32) := by
  induction segs with
  | nil => cases hs
  | cons t segs ih =>
    rw [List.pairwise_cons] at hord
    rcases List.mem_cons.mp hs with rfl | hs
    · simp [Dir.lookup, Segment.entry]
    · have hne : ¬ t.number = s.number := hord.1 s hs
      have hrec := ih hord.2 hs
      simp only [Dir.lookup, List.map_cons, Segment.entry] at hrec ⊢
      rw [List.find?_cons_of_neg (by simpa using hne)]
      exact hrec

theorem unlink_entries (segs : List Segment) (n : Nat) :
    Dir.unlink (segs.map (Segment.entry crc32)) n =
      (segs.filter fun s => s.number != n).map (Segment.entry crc32) := by
  rw [Dir.unlink, List.filter_map]
  rfl

theorem foldl_unlink_entries (segs : List Segment) (files : List WalFile) :
    files.foldl (fun dir f => Dir.unlink dir f.fileNumber) (segs.map (Segment.entry crc32)) =
      (segs.filter fun s => !files.any fun f => f.fileNumber == s.number).map
        (Segment.entry crc32) := by
  induction files generalizing segs with
  | nil => simp
  | cons f files ih =>
    rw [List.foldl_cons, unlink_entries, ih, List.filter_filter]
    congr 1
    apply List.filter_congr
    intro s _
    simp only [List.any_cons, Bool.not_or]
    rw [Bool.and_comm, bne, BEq.comm]

/-- `Dir.truncateTo` and `Dir.append` touch the one file they name. -/
theorem map_entries_at {pre rest : List Segment} {s t : Segment}
    (hord : (pre ++ s :: rest).Pairwise fun a b => a.number ≠ b.number) (f : Bytes → Bytes)
    (hnum : t.number = s.number) (hbytes : t.bytes crc32 = f (s.bytes crc32)) :
    (((pre ++ s :: rest).map (Segment.entry crc32)).map fun e =>
      if e.number = s.number then { e with bytes := f e.bytes } else e) =
      (pre ++ t :: rest).map (Segment.entry crc32) := by
  have hother : ∀ l : List Segment, (∀ a ∈ l, ¬ a.number = s.number) →
      ((l.map (Segment.entry crc32)).map fun e =>
        if e.number = s.number then { e with bytes := f e.bytes } else e) =
        l.map (Segment.entry crc32) := by
    intro l hl
    rw [List.map_map]
    exact List.map_congr_left fun a ha => if_neg (hl a ha)
  have hpre : ∀ a ∈ pre, ¬ a.number = s.number := fun a ha =>
    (List.pairwise_append.mp hord).2.2 a ha s List.mem_cons_self
  have hrest : ∀ a ∈ rest, ¬ a.number = s.number := fun a ha he =>
    (List.pairwise_cons.mp (List.pairwise_append.mp hord).2.1).1 a ha he.symm
  have hs : (if (s.entry crc32).number = s.number then
      { s.entry crc32 with bytes := f (s.entry crc32).bytes } else s.entry crc32) =
      t.entry crc32 := by
    rw [if_pos (by rfl)]
    simp only [Segment.entry, hnum, hbytes]
  simp only [List.map_append, List.map_cons, hother pre hpre, hother rest hrest, hs]

/-- A new segment without records at the end of a directory without torn writes. -/
theorem SegmentsOn.snoc {segs : List Segment} {dir : Dir} (h : SegmentsOn crc32 segs dir)
    (hsealed : ∀ s ∈ segs, s.Sealed) {t : Segment} (hlt : ∀ s ∈ segs, s.number < t.number)
    (hwf : t.WellFormed crc32) (hnamed : t.number < 1000000) (hnil : t.records = []) :
    SegmentsOn crc32 (segs ++ [t]) (dir ++ [t.entry crc32]) where
  dir_eq := by simp [h.dir_eq]
  ordered := by
    rw [List.pairwise_append]
    refine ⟨h.ordered, List.pairwise_singleton _ _, fun s hs t' ht' => ?_⟩
    rw [List.mem_singleton.mp ht']
    exact ⟨hlt s hs, hsealed s hs⟩
  shape := by
    intro s hs
    rcases List.mem_append.mp hs with hs | hs
    · exact h.shape s hs
    · rw [List.mem_singleton.mp hs]; exact hwf
  named := by
    intro s hs
    rcases List.mem_append.mp hs with hs | hs
    · exact h.named s hs
    · rw [List.mem_singleton.mp hs]; exact hnamed
  fits := by
    intro s hs
    rcases List.mem_append.mp hs with hs | hs
    · exact h.fits s hs
    · rw [List.mem_singleton.mp hs, hnil]; simp
  increasing := by
    have : recordsOf (segs ++ [t]) = recordsOf segs := by simp [recordsOf, hnil]
    rw [this]
    exact h.increasing

/-- A segment that is the last of the list may be replaced by another of its number. -/
theorem SegmentsOn.replaceLast {segs : List Segment} {s t : Segment} {dir : Dir}
    (h : SegmentsOn crc32 (segs ++ [s]) dir) (hnum : t.number = s.number)
    (hwf : t.WellFormed crc32) (hfits : ∀ r ∈ t.records, r.Fits ∧ 0 < r.sequence)
    (hinc : (recordsOf segs ++ t.records).Pairwise fun a b => a.sequence < b.sequence) :
    SegmentsOn crc32 (segs ++ [t]) ((segs ++ [t]).map (Segment.entry crc32)) where
  dir_eq := rfl
  ordered := by
    have h' := List.pairwise_append.mp h.ordered
    rw [List.pairwise_append]
    refine ⟨h'.1, List.pairwise_singleton _ _, fun a ha b hb => ?_⟩
    rw [List.mem_singleton.mp hb, hnum]
    exact h'.2.2 a ha s (List.mem_singleton.mpr rfl)
  shape := by
    intro a ha
    rcases List.mem_append.mp ha with ha | ha
    · exact h.shape a (List.mem_append_left _ ha)
    · rw [List.mem_singleton.mp ha]; exact hwf
  named := by
    intro a ha
    rcases List.mem_append.mp ha with ha | ha
    · exact h.named a (List.mem_append_left _ ha)
    · rw [List.mem_singleton.mp ha, hnum]
      exact h.named s (by simp)
  fits := by
    intro a ha
    rcases List.mem_append.mp ha with ha | ha
    · exact h.fits a (List.mem_append_left _ ha)
    · rw [List.mem_singleton.mp ha]; exact hfits
  increasing := by
    have : recordsOf (segs ++ [t]) = recordsOf segs ++ t.records := by simp [recordsOf]
    rw [this]
    exact hinc

theorem contents_append (segs segs' : List Segment) :
    contents (segs ++ segs') = contents segs ++ contents segs' := by
  simp [contents]

theorem recordsOf_eq_contents (segs : List Segment) :
    recordsOf segs = (contents segs).flatMap (·.2) := by
  induction segs with
  | nil => rfl
  | cons s segs ih =>
    have hcons : recordsOf (s :: segs) = s.records ++ recordsOf segs := rfl
    rw [hcons, ih]
    cases hr : s.records with
    | nil => simp [contents, hr]
    | cons r rs => simp [contents, hr]

/-! ## 5. The records in the directory -/

/-- The complete records at the front of a segment's frames. -/
def recordsIn (crc32 : Bytes → UInt32) : Nat → Bytes → List WalRecord
  | 0, _ => []
  | turns + 1, bytes =>
    match readFrame crc32 bytes with
    | .record r rest => r :: recordsIn crc32 turns rest
    | _ => []

/-- Every complete record in the directory's files, in file order. -/
def storedRecords (crc32 : Bytes → UInt32) (dir : Dir) : List WalRecord :=
  dir.flatMap fun e => recordsIn crc32 e.bytes.length (e.bytes.drop kWalFileHeaderSize)

theorem recordsIn_frames {rs : List WalRecord} (hfit : ∀ r ∈ rs, r.Fits) {tail : Bytes}
    (htail : TornTail crc32 tail) {turns : Nat} (hturns : rs.length ≤ turns) :
    recordsIn crc32 turns (frames crc32 rs ++ tail) = rs := by
  induction rs generalizing turns with
  | nil =>
    cases turns with
    | zero => rfl
    | succ turns =>
      simp only [frames_nil, List.nil_append, recordsIn]
      rcases readFrame_tornTail htail with hf | hf | hf <;> rw [hf]
  | cons r rs ih =>
    obtain ⟨turns, rfl⟩ : ∃ n, turns = n + 1 := ⟨turns - 1, by simp at hturns; omega⟩
    simp only [frames_cons, List.append_assoc, recordsIn,
      readFrame_encodeRecord (hfit r List.mem_cons_self)]
    rw [ih (fun r' hr' => hfit r' (List.mem_cons_of_mem r hr')) (by simpa using hturns)]

/-- What stands in the files is what the segments say. -/
theorem SegmentsOn.storedRecords {segs : List Segment} {dir : Dir}
    (h : SegmentsOn crc32 segs dir) : storedRecords crc32 dir = recordsOf segs := by
  rw [h.dir_eq, Storage.storedRecords, recordsOf, List.flatMap_map]
  refine List.flatMap_congr fun s hs => ?_
  simp only [Segment.entry]
  rcases h.shape s hs with ⟨hhead, htail⟩ | ⟨hshort, hrec, htl⟩
  · have hdrop : (s.bytes crc32).drop kWalFileHeaderSize = frames crc32 s.records ++ s.tail := by
      rw [Segment.bytes, hhead]
      exact List.drop_left' (by simp [kWalFileHeaderSize])
    have hlen := @length_frames_ge crc32 s.records
    rw [hdrop, recordsIn_frames (fun r hr => (h.fits s hs r hr).1) htail]
    simp only [Segment.bytes, List.length_append]
    omega
  · have hdrop : (s.bytes crc32).drop kWalFileHeaderSize = [] := by
      rw [Segment.bytes, hrec, htl]
      exact List.drop_eq_nil_of_le (by simp; omega)
    rw [hdrop, hrec]
    cases (s.bytes crc32).length with
    | zero => rfl
    | succ n => simp [recordsIn, readFrame]

end Directory

end Nvecd.Storage
