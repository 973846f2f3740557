/-
  File:      Nvecd/Storage/WalSpec.lean
  Subject:   What each operation of `WriteAheadLog` does to the segments of its directory: one
             statement per operation, in terms of records and file numbers only.

  * `openWal_ok`, `openWal_error` -- `Open`: scan, removal of empty segments, new segment;
  * `append_cases` -- `Append` with every way a rotation or a write can fail;
  * `truncate_dir`, `truncate_files` -- `Truncate`;
  * `replayValidated_eq` -- `ReplayValidated` on a directory whose segments are sealed.
-/
import Nvecd.Storage.WalSegments

namespace Nvecd.Storage

open Nvecd.Lib Nvecd.Utils

variable {crc32 : Bytes → UInt32}

/-! ## 1. Listing -/

theorem noAdjacentEqual_of_lt {l : List Nat} (h : l.Pairwise (· < ·)) :
    noAdjacentEqual l = true := by
  induction l with
  | nil => rfl
  | cons a l ih =>
    cases l with
    | nil => rfl
    | cons b l =>
      have hab : a < b := (List.pairwise_cons.mp h).1 b List.mem_cons_self
      simp only [noAdjacentEqual, ih (List.pairwise_cons.mp h).2, Bool.and_true, bne_iff_ne]
      omega

theorem SegmentsOn.numbers_lt {segs : List Segment} {dir : Dir} (h : SegmentsOn crc32 segs dir) :
    (segs.map (·.number)).Pairwise (· < ·) :=
  List.pairwise_map.mpr (h.ordered.imp fun hab => hab.1)

theorem SegmentsOn.numbers_ne {segs : List Segment} {dir : Dir} (h : SegmentsOn crc32 segs dir) :
    segs.Pairwise fun a b => a.number ≠ b.number :=
  h.ordered.imp fun hab => Nat.ne_of_lt hab.1

/-- The directory listing finds every segment, in order. -/
theorem SegmentsOn.listedNumbers {segs : List Segment} {dir : Dir}
    (h : SegmentsOn crc32 segs dir) : listedNumbers dir = segs.map (·.number) := by
  have hfm : ∀ l : List Segment, (∀ s ∈ l, s.number < 1000000) →
      ((l.map (Segment.entry crc32)).filterMap fun e => fileNumberOf (makeFileName e.number)) =
        l.map (·.number) := by
    intro l hl
    induction l with
    | nil => rfl
    | cons s l ih =>
      have hs : fileNumberOf (makeFileName (s.entry crc32).number) = some s.number := by
        rw [fileNumberOf_makeFileName]
        exact if_pos (hl s List.mem_cons_self)
      rw [List.map_cons, List.filterMap_cons, hs, List.map_cons,
        ih fun s' hs' => hl s' (List.mem_cons_of_mem s hs')]
  rw [Storage.listedNumbers, h.dir_eq, hfm segs h.named]
  exact (h.numbers_lt.imp fun hab => Nat.le_of_lt hab).insertionSort_eq

/-! ## 2. The scan -/

theorem validateFileHeader_whole (bytes : Bytes) :
    validateFileHeader (fileHeader ++ bytes) = .ok () := by
  have hlen : ¬ ((fileHeader ++ bytes).length < kWalFileHeaderSize) := by
    simp [kWalFileHeaderSize]
  have hmagic : ofLeBytes ((fileHeader ++ bytes).take 4) = kWalMagic := by
    rw [fileHeader, List.append_assoc, List.take_left' (length_leBytes 4 _)]
    exact ofLeBytes_leBytes (by decide)
  have hversion : ofLeBytes (((fileHeader ++ bytes).drop 4).take 4) = kWalVersion := by
    rw [fileHeader, List.append_assoc, List.drop_left' (length_leBytes 4 _),
      List.take_left' (length_leBytes 4 _)]
    exact ofLeBytes_leBytes (by decide)
  simp only [validateFileHeader, if_neg hlen, hmagic, hversion, ne_eq, not_true_eq_false,
    if_false]

theorem Segment.WellFormed.of_validateFileHeader {s : Segment} (hs : s.WellFormed crc32)
    (h : validateFileHeader (s.bytes crc32) = .ok ()) :
    s.header = fileHeader ∧ TornTail crc32 s.tail := by
  rcases hs with hw | ⟨hlen, hr, ht⟩
  · exact hw
  · have hshort : (s.bytes crc32).length < kWalFileHeaderSize := by
      simp [Segment.bytes, hr, ht, hlen]
    rw [validateFileHeader, if_pos hshort] at h
    cases h

theorem Segment.drop_header {s : Segment} (h : s.header = fileHeader) :
    (s.bytes crc32).drop kWalFileHeaderSize = frames crc32 s.records ++ s.tail := by
  rw [Segment.bytes, h]
  exact List.drop_left' (by simp [kWalFileHeaderSize])

theorem Segment.take_cut {s : Segment} (h : s.header = fileHeader) :
    (s.bytes crc32).take (kWalFileHeaderSize + (frames crc32 s.records).length) =
      s.cut.bytes crc32 := by
  simp only [Segment.bytes, Segment.cut, h, List.append_nil]
  rw [← List.append_assoc]
  exact List.take_left' (by simp [kWalFileHeaderSize])

/-- `ftruncate` of one segment to its valid length cuts its tail and no other segment. -/
theorem truncateTo_entries {pre rest : List Segment} {s : Segment}
    (hord : (pre ++ s :: rest).Pairwise fun a b => a.number ≠ b.number)
    (hs : s.header = fileHeader) :
    Dir.truncateTo ((pre ++ s :: rest).map (Segment.entry crc32)) s.number
        (kWalFileHeaderSize + (frames crc32 s.records).length) =
      ((pre ++ [s.cut]) ++ rest).map (Segment.entry crc32) := by
  rw [Dir.truncateTo, List.append_assoc, List.singleton_append]
  exact map_entries_at hord (fun b => b.take _) rfl (Segment.take_cut hs).symm

/-- The segment loop of a scan that succeeds. -/
theorem scanSegments_ok {cfg : WalConfig} {ftruncateFails : Bool} {pre rest : List Segment}
    {previous : Option Nat} {w w' : WriteAheadLog}
    (hdir : w.dir = (pre ++ rest).map (Segment.entry crc32))
    (hord : (pre ++ rest).Pairwise fun a b => a.number ≠ b.number)
    (hshape : ∀ s ∈ rest, s.WellFormed crc32) (hfit : ∀ s ∈ rest, ∀ r ∈ s.records, r.Fits)
    (h : scanSegments crc32 cfg ftruncateFails (rest.map (·.number)) previous w = (w', .ok ())) :
    Contiguous previous (recordsOf rest) ∧ (∀ s ∈ rest, s.header = fileHeader) ∧
      w' = { w with
        dir := (pre ++ rest.map Segment.cut).map (Segment.entry crc32)
        files := w.files ++ rest.map Segment.file
        currentSequence := (recordsOf rest).foldl (fun m r => max m r.sequence) w.currentSequence
        currentFileNumber := rest.foldl (fun m s => max m s.number) w.currentFileNumber } := by
  induction rest generalizing pre previous w with
  | nil =>
    simp only [List.map_nil, scanSegments, Prod.mk.injEq, and_true] at h
    subst h
    refine ⟨trivial, by simp, ?_⟩
    rw [List.map_nil, ← hdir]
    simp [recordsOf]
  | cons s rest ih =>
    have hlook : w.dir.lookup s.number = some (s.bytes crc32) := by
      rw [hdir]
      exact lookup_entries hord (by simp)
    simp only [List.map_cons, scanSegments, hlook] at h
    cases hv : validateFileHeader (s.bytes crc32) with
    | error e => rw [hv] at h; cases h
    | ok u =>
      obtain ⟨hhead, htail⟩ := (hshape s List.mem_cons_self).of_validateFileHeader hv
      rw [hv, Segment.drop_header hhead] at h
      simp only at h
      split at h
      · cases h
      · rename_i sc hscan
        obtain ⟨hc, hsc⟩ := scanRecords_ok (hfit s List.mem_cons_self) htail hscan
        rw [hsc] at h
        simp only [hdir, truncateTo_entries hord hhead] at h
        have hord' : ((pre ++ [s.cut]) ++ rest).Pairwise fun a b => a.number ≠ b.number := by
          have hmap : ((pre ++ [s.cut]) ++ rest).map (·.number) =
              (pre ++ s :: rest).map (·.number) := by simp [Segment.cut]
          exact List.pairwise_map.mp (hmap ▸ List.pairwise_map.mpr hord)
        obtain ⟨hc', hhead', hw'⟩ := ih rfl hord'
          (fun a ha => hshape a (List.mem_cons_of_mem s ha))
          (fun a ha => hfit a (List.mem_cons_of_mem s ha)) h
        refine ⟨?_, ?_, ?_⟩
        · exact contiguous_append.2 ⟨hc, hc'⟩
        · intro a ha
          rcases List.mem_cons.mp ha with rfl | ha
          · exact hhead
          · exact hhead' a ha
        · rw [hw']
          have hmax : max w.currentSequence
              (s.records.foldl (fun m r => max m r.sequence) 0) =
              s.records.foldl (fun m r => max m r.sequence) w.currentSequence := by
            apply le_antisymm
            · rw [max_le_iff, foldl_max_le]
              have := foldl_max_le.1 (le_refl (s.records.foldl (fun m r => max m r.sequence)
                w.currentSequence))
              exact ⟨this.1, Nat.zero_le _, this.2⟩
            · rw [foldl_max_le]
              exact ⟨le_max_left _ _, fun r hr => le_trans (le_maxSequenceOf hr)
                (le_max_right _ _)⟩
          simp only [List.append_assoc, List.singleton_append, List.map_cons, recordsOf,
            List.flatMap_cons, List.foldl_append, List.foldl_cons, hmax]
          rfl

/-- The segment loop of a scan that fails has changed no file and has listed segments only. -/
theorem scanSegments_error {cfg : WalConfig} {ftruncateFails : Bool} {pre rest : List Segment}
    {previous : Option Nat} {w w' : WriteAheadLog} {e : Error}
    (hdir : w.dir = (pre ++ rest).map (Segment.entry crc32))
    (hord : (pre ++ rest).Pairwise fun a b => a.number ≠ b.number)
    (hshape : ∀ s ∈ rest, s.WellFormed crc32) (hfit : ∀ s ∈ rest, ∀ r ∈ s.records, r.Fits)
    (hsealed : rest.Pairwise fun a _ => a.Sealed)
    (h : scanSegments crc32 cfg ftruncateFails (rest.map (·.number)) previous w =
      (w', .error e)) :
    w'.dir = w.dir ∧ (∀ f ∈ w'.files, f ∈ w.files ∨ f ∈ rest.map Segment.file) ∧
      w'.currentFd = w.currentFd ∧ w'.isOpen = w.isOpen := by
  induction rest generalizing pre previous w with
  | nil => simp [scanSegments] at h
  | cons s rest ih =>
    have hlook : w.dir.lookup s.number = some (s.bytes crc32) := by
      rw [hdir]
      exact lookup_entries hord (by simp)
    have hsame : w = w' → w'.dir = w.dir ∧
        (∀ f ∈ w'.files, f ∈ w.files ∨ f ∈ (s :: rest).map Segment.file) ∧
        w'.currentFd = w.currentFd ∧ w'.isOpen = w.isOpen := by
      rintro rfl
      exact ⟨rfl, fun f hf => .inl hf, rfl, rfl⟩
    simp only [List.map_cons, scanSegments, hlook] at h
    cases hv : validateFileHeader (s.bytes crc32) with
    | error e' => rw [hv] at h; exact hsame (Prod.mk.inj h).1
    | ok u =>
      obtain ⟨hhead, htail⟩ := (hshape s List.mem_cons_self).of_validateFileHeader hv
      rw [hv, Segment.drop_header hhead] at h
      simp only at h
      split at h
      · exact hsame (Prod.mk.inj h).1
      · rename_i sc hscan
        obtain ⟨-, hsc⟩ := scanRecords_ok (hfit s List.mem_cons_self) htail hscan
        rw [hsc] at h
        simp only [hdir, truncateTo_entries hord hhead] at h
        cases rest with
        | nil => simp [scanSegments] at h
        | cons t rest =>
          -- a segment with a follower has no tail to cut
          have hcut : s.cut = s := by
            have := (List.pairwise_cons.mp hsealed).1 t List.mem_cons_self
            rw [Segment.cut, ← this.2]
          rw [hcut] at h
          obtain ⟨hd, hf, hfd, ho⟩ := ih (by rfl) (by simpa using hord)
            (fun a ha => hshape a (List.mem_cons_of_mem s ha))
            (fun a ha => hfit a (List.mem_cons_of_mem s ha)) (List.pairwise_cons.mp hsealed).2 h
          refine ⟨?_, ?_, hfd, ho⟩
          · rw [hd, hdir]
            simp
          · intro f hmem
            rcases hf f hmem with h' | h'
            · rcases List.mem_append.mp h' with h' | h'
              · exact .inl h'
              · refine .inr ?_
                rw [List.mem_singleton.mp h']
                exact List.mem_cons_self
            · exact .inr (List.mem_cons_of_mem _ h')

/-! ## 3. Rotation -/

theorem nextFileNumber_eq {dir : Dir} {n turns : Nat} (hdir : ∀ e ∈ dir, e.number ≤ n)
    (hn : n < kMaxU32) : nextFileNumber dir (turns + 1) n = some (n + 1) := by
  have hfree : dir.contains (n + 1) = false := by
    rw [Dir.contains, List.any_eq_false]
    intro e he
    have := hdir e he
    simp only [beq_iff_eq]
    omega
  simp only [nextFileNumber, if_neg (Nat.ne_of_lt hn), hfree, Bool.false_eq_true, if_false]

/-- The state after a rotation that succeeds. -/
def rotated (w : WriteAheadLog) : WriteAheadLog :=
  { w with
    dir := w.dir ++ [⟨w.currentFileNumber + 1, fileHeader⟩]
    currentFd := some (w.currentFileNumber + 1)
    currentFileSize := kWalFileHeaderSize
    currentFileNumber := w.currentFileNumber + 1
    files := w.files ++ [⟨w.currentFileNumber + 1, 0⟩] }

/-- What is left of a rotation that fails after the old segment was given up: possibly a file
    with a torn header. -/
structure RotationFailed (w w' : WriteAheadLog) : Prop where
  fd : w'.currentFd = none
  files : w'.files = w.files
  sequence : w'.currentSequence = w.currentSequence
  isOpen : w'.isOpen = w.isOpen
  dir : w'.dir = w.dir ∨
    ∃ h : Bytes, h.length < kWalFileHeaderSize ∧
      w'.dir = w.dir ++ [⟨w.currentFileNumber + 1, h⟩]
  number : (w'.currentFileNumber = w.currentFileNumber ∧ w'.dir = w.dir) ∨
    w'.currentFileNumber = w.currentFileNumber + 1

/-- **Rotation**: it succeeds, it leaves everything as it was, or it fails half way. -/
theorem rotateFile_cases {cfg : WalConfig} {io : RotateIo} {w w' : WriteAheadLog}
    {res : Except Error Unit} (hdir : ∀ e ∈ w.dir, e.number ≤ w.currentFileNumber)
    (hn : w.currentFileNumber < kMaxU32) (h : rotateFile cfg io w = (w', res)) :
    (res = .ok () ∧ w' = rotated w) ∨ (∃ e, res = .error e ∧ w' = w) ∨
      (∃ e, res = .error e ∧ RotationFailed w w') := by
  unfold rotateFile at h
  split at h
  · obtain ⟨rfl, rfl⟩ := Prod.mk.inj h
    exact .inr (.inl ⟨_, rfl, rfl⟩)
  split at h
  · obtain ⟨rfl, rfl⟩ := Prod.mk.inj h
    exact .inr (.inr ⟨_, rfl, rfl, rfl, rfl, rfl, .inl rfl, .inl ⟨rfl, rfl⟩⟩)
  simp only [nextFileNumber_eq hdir hn] at h
  cases io with
  | create =>
    obtain ⟨rfl, rfl⟩ := Prod.mk.inj h
    exact .inr (.inr ⟨_, rfl, rfl, rfl, rfl, rfl, .inl rfl, .inr rfl⟩)
  | header k =>
    obtain ⟨rfl, rfl⟩ := Prod.mk.inj h
    refine .inr (.inr ⟨_, rfl, rfl, rfl, rfl, rfl, .inr ⟨_, ?_, rfl⟩, .inr rfl⟩)
    rw [List.length_take]
    exact lt_of_le_of_lt (Nat.min_le_left _ _) (Nat.mod_lt k (by decide))
  | fsyncNew =>
    obtain ⟨rfl, rfl⟩ := Prod.mk.inj h
    exact .inr (.inr ⟨_, rfl, rfl, rfl, rfl, rfl, .inl rfl, .inr rfl⟩)
  | fsyncDir =>
    obtain ⟨rfl, rfl⟩ := Prod.mk.inj h
    exact .inr (.inr ⟨_, rfl, rfl, rfl, rfl, rfl, .inl rfl, .inr rfl⟩)
  | ok =>
    obtain ⟨rfl, rfl⟩ := Prod.mk.inj h
    exact .inl ⟨rfl, rfl⟩
  | fsyncOld =>
    obtain ⟨rfl, rfl⟩ := Prod.mk.inj h
    exact .inl ⟨rfl, rfl⟩
  | closeOld =>
    obtain ⟨rfl, rfl⟩ := Prod.mk.inj h
    exact .inl ⟨rfl, rfl⟩

theorem rotateFile_succeeds {cfg : WalConfig} {w : WriteAheadLog}
    (hdir : ∀ e ∈ w.dir, e.number ≤ w.currentFileNumber) (hn : w.currentFileNumber < kMaxU32) :
    rotateFile cfg .ok w = (rotated w, .ok ()) := by
  simp [rotateFile, nextFileNumber_eq hdir hn, createSegment, rotated]

theorem rotateFile_sequence (cfg : WalConfig) (io : RotateIo) (w : WriteAheadLog) :
    (rotateFile cfg io w).1.currentSequence = w.currentSequence := by
  simp only [rotateFile, createSegment]
  repeat' split
  all_goals rfl

/-! ## 4. Open -/

/-- The segments `Open` keeps: those with records, without their torn tails. -/
def keptSegments (segs : List Segment) : List Segment :=
  (segs.map Segment.cut).filter fun s => !s.records.isEmpty

theorem contents_keptSegments (segs : List Segment) :
    contents (keptSegments segs) = contents segs := by
  induction segs with
  | nil => rfl
  | cons s segs ih =>
    simp only [contents, keptSegments, List.map_cons, List.filter_cons] at ih ⊢
    cases hr : s.records with
    | nil => simpa [Segment.cut, hr] using ih
    | cons r rs => simpa [Segment.cut, hr] using ih

theorem contents_cut (segs : List Segment) : contents (segs.map Segment.cut) = contents segs := by
  simp only [contents, List.filter_map, List.map_map]
  rfl

theorem SegmentsOn.cut {segs : List Segment} {dir : Dir} (h : SegmentsOn crc32 segs dir)
    (hhead : ∀ s ∈ segs, s.header = fileHeader) :
    SegmentsOn crc32 (segs.map Segment.cut) ((segs.map Segment.cut).map (Segment.entry crc32)) where
  dir_eq := rfl
  ordered := List.pairwise_map.mpr (h.ordered.imp fun hab => ⟨hab.1, hab.2.1, rfl⟩)
  shape := by
    intro s hs
    obtain ⟨t, ht, rfl⟩ := List.mem_map.mp hs
    exact .inl ⟨hhead t ht, tornTail_nil⟩
  named := by
    intro s hs
    obtain ⟨t, ht, rfl⟩ := List.mem_map.mp hs
    exact h.named t ht
  fits := by
    intro s hs
    obtain ⟨t, ht, rfl⟩ := List.mem_map.mp hs
    exact h.fits t ht
  increasing := by
    have : recordsOf (segs.map Segment.cut) = recordsOf segs := by
      rw [recordsOf_eq_contents, contents_cut, ← recordsOf_eq_contents]
    rw [this]
    exact h.increasing

theorem foldl_max_number {segs : List Segment} {m n : Nat} :
    segs.foldl (fun m s => max m s.number) m ≤ n ↔ m ≤ n ∧ ∀ s ∈ segs, s.number ≤ n := by
  induction segs generalizing m with
  | nil => simp
  | cons s segs ih => simp only [List.foldl_cons, ih, max_le_iff, List.forall_mem_cons, and_assoc]

/-- What a closed object knows about the directory: every file it lists with records is there
    with these records. -/
def FilesOn (segs : List Segment) (files : List WalFile) : Prop :=
  ∀ f ∈ files, 0 < f.maxSequence → ∃ s ∈ segs, f = s.file

theorem filesOn_map (segs : List Segment) : FilesOn segs (segs.map Segment.file) := by
  intro f hf _
  obtain ⟨s, hs, rfl⟩ := List.mem_map.mp hf
  exact ⟨s, hs, rfl⟩

/-- The scan's result, seen as segments. -/
theorem scanExistingFiles_cases {cfg : WalConfig} {io : OpenIo} {segs : List Segment}
    {w w' : WriteAheadLog} {res : Except Error Unit} (hs : SegmentsOn crc32 segs w.dir)
    (hio : io.opendirFails = false) (h : scanExistingFiles crc32 cfg io w = (w', res)) :
    (res = .ok () ∧ Contiguous none (recordsOf segs) ∧ (∀ s ∈ segs, s.header = fileHeader) ∧
      w' = { w with
        dir := (segs.map Segment.cut).map (Segment.entry crc32)
        files := segs.map Segment.file
        currentSequence := maxSequenceOf (recordsOf segs)
        currentFileNumber := segs.foldl (fun m s => max m s.number) 0 }) ∨
      (∃ e, res = .error e ∧ w'.dir = w.dir ∧ FilesOn segs w'.files ∧
        w'.currentFd = w.currentFd ∧ w'.isOpen = w.isOpen) := by
  simp only [scanExistingFiles, hio, Bool.false_eq_true, if_false, hs.listedNumbers,
    noAdjacentEqual_of_lt hs.numbers_lt, if_true] at h
  have hfit : ∀ s ∈ segs, ∀ r ∈ s.records, r.Fits := fun s hm r hr => (hs.fits s hm r hr).1
  have hdir : ({ w with files := [], currentSequence := 0, currentFileNumber := 0 } :
      WriteAheadLog).dir = ([] ++ segs).map (Segment.entry crc32) := hs.dir_eq
  cases res with
  | ok u =>
    obtain ⟨hc, hhead, hw⟩ := scanSegments_ok hdir hs.numbers_ne hs.shape hfit h
    exact .inl ⟨rfl, hc, hhead, hw⟩
  | error e =>
    obtain ⟨hd, hf, hfd, ho⟩ := scanSegments_error hdir hs.numbers_ne hs.shape hfit
      (hs.ordered.imp fun hab => hab.2) h
    refine .inr ⟨e, rfl, hd, ?_, hfd, ho⟩
    intro f hmem _
    rcases hf f hmem with h' | h'
    · cases h'
    · obtain ⟨s, hsm, rfl⟩ := List.mem_map.mp h'
      exact ⟨s, hsm, rfl⟩

theorem contents_filter {segs : List Segment} {p : Segment → Bool}
    (h : ∀ s ∈ segs, s.records ≠ [] → p s = true) : contents (segs.filter p) = contents segs := by
  rw [contents, contents, List.filter_filter]
  congr 1
  apply List.filter_congr
  intro s hs
  cases hr : s.records with
  | nil => rfl
  | cons r rs => simp [h s hs (by simp [hr])]

/-- Some empty files are unlinked: the record-bearing segments are all still there. -/
theorem unlink_empty {segs : List Segment} {removed : List WalFile}
    (hnum : segs.Pairwise fun a b => a.number ≠ b.number)
    (hpos : ∀ s ∈ segs, ∀ r ∈ s.records, 0 < r.sequence)
    (hrem : ∀ f ∈ removed, f ∈ segs.map Segment.file ∧ f.maxSequence = 0) {s : Segment}
    (hs : s ∈ segs) (hne : s.records ≠ []) :
    (!removed.any fun f => f.fileNumber == s.number) = true := by
  rw [Bool.not_eq_true', List.any_eq_false]
  intro f hf
  obtain ⟨hmem, hzero⟩ := hrem f hf
  obtain ⟨t, ht, rfl⟩ := List.mem_map.mp hmem
  have : Std.Symm fun a b : Segment => a.number ≠ b.number := ⟨fun _ _ hab => hab.symm⟩
  intro he
  have hts : t = s := by
    by_contra hne'
    exact hnum.forall ht hs hne' (by simpa [Segment.file] using he)
  have := (Segment.file_maxSequence_pos (hpos s hs)).mpr hne
  rw [← hts, hzero] at this
  exact absurd this (by decide)

/-- Removing empty segments: all of them when it succeeds, some of them otherwise. -/
theorem removeEmptySegments_cases {io : OpenIo} {segs : List Segment} {w w' : WriteAheadLog}
    {res : Except Error Unit} (hdir : w.dir = (segs.map Segment.cut).map (Segment.entry crc32))
    (hnum : segs.Pairwise fun a b => a.number ≠ b.number)
    (hpos : ∀ s ∈ segs, ∀ r ∈ s.records, 0 < r.sequence) (hfiles : w.files = segs.map Segment.file)
    (h : removeEmptySegments io w = (w', res)) :
    (∃ segs', segs'.Sublist (segs.map Segment.cut) ∧ contents segs' = contents segs ∧
      w' = { w with dir := segs'.map (Segment.entry crc32), files := w'.files } ∧
      FilesOn segs' w'.files) ∧
    (res = .ok () → w' = { w with
      dir := (keptSegments segs).map (Segment.entry crc32)
      files := (keptSegments segs).map Segment.file }) := by
  unfold removeEmptySegments at h
  dsimp only at h
  set empty := w.files.filter fun f => f.maxSequence == 0 with hempty
  set removed := empty.takeWhile fun f => io.unlinkFails ≠ some f.fileNumber with hremoved
  have hrem : ∀ f ∈ removed, f ∈ segs.map Segment.file ∧ f.maxSequence = 0 := by
    intro f hf
    have hmem := List.mem_filter.mp ((List.takeWhile_sublist _).subset hf)
    exact ⟨hfiles ▸ hmem.1, by simpa using hmem.2⟩
  have hkeep : ∀ s ∈ segs.map Segment.cut, s.records ≠ [] →
      (!removed.any fun f => f.fileNumber == s.number) = true := by
    intro s hs hne
    obtain ⟨t, ht, rfl⟩ := List.mem_map.mp hs
    exact unlink_empty (s := t) hnum hpos hrem ht hne
  have hw'files : ∀ f ∈ w'.files, f ∈ w.files := by
    split at h
    · rw [← (Prod.mk.inj h).1]; exact fun f hf => hf
    · split at h <;> rw [← (Prod.mk.inj h).1] <;> exact fun f hf => (List.mem_filter.mp hf).1
  refine ⟨⟨(segs.map Segment.cut).filter fun s => !removed.any fun f => f.fileNumber == s.number,
    List.filter_sublist, ?_, ?_, ?_⟩, ?_⟩
  · rw [contents_filter hkeep, contents_cut]
  · rw [← foldl_unlink_entries, ← hdir]
    split at h
    · rw [← (Prod.mk.inj h).1]
    · split at h <;> rw [← (Prod.mk.inj h).1]
  · intro f hf hpos'
    have hmem := hw'files f hf
    rw [hfiles] at hmem
    obtain ⟨t, ht, rfl⟩ := List.mem_map.mp hmem
    have hne := (Segment.file_maxSequence_pos (hpos t ht)).mp hpos'
    exact ⟨t.cut, List.mem_filter.mpr ⟨List.mem_map_of_mem ht,
      hkeep t.cut (List.mem_map_of_mem ht) hne⟩, rfl⟩
  · rintro rfl
    split at h
    · cases (Prod.mk.inj h).2
    · rename_i hall
      have hsame : removed = empty :=
        List.IsPrefix.eq_of_length_le (List.takeWhile_prefix _) (by omega)
      have hdir' : (segs.map Segment.cut).filter
          (fun s => !empty.any fun f => f.fileNumber == s.number) = keptSegments segs := by
        rw [keptSegments]
        apply List.filter_congr
        intro s hs
        cases hr : s.records with
        | nil =>
          obtain ⟨t, ht, rfl⟩ := List.mem_map.mp hs
          have htr : t.records = [] := hr
          have : (empty.any fun f => f.fileNumber == t.cut.number) = true := by
            rw [List.any_eq_true]
            refine ⟨t.file, List.mem_filter.mpr ⟨hfiles ▸ List.mem_map_of_mem ht, ?_⟩, ?_⟩
            · simp [Segment.file, htr, maxSequenceOf]
            · simp [Segment.file, Segment.cut]
          rw [this]
          rfl
        | cons r rs =>
          rw [← hsame, hkeep s hs (by simp [hr])]
          rfl
      have hfiles' : (w.files.filter fun f => f.maxSequence != 0) =
          (keptSegments segs).map Segment.file := by
        have hcomp : Segment.file ∘ Segment.cut = Segment.file := rfl
        rw [hfiles, keptSegments, List.filter_map, List.filter_map, List.map_map, hcomp]
        refine congrArg (List.map _) (List.filter_congr fun s hs => ?_)
        have hiff := Segment.file_maxSequence_pos (hpos s hs)
        cases hr : s.records with
        | nil => simp [Segment.file, hr, maxSequenceOf, Segment.cut]
        | cons r rs =>
          have hpos' : 0 < s.file.maxSequence := hiff.mpr (by simp [hr])
          simp only [Function.comp_apply, Segment.cut, hr, List.isEmpty_cons, Bool.not_false,
            bne_iff_ne]
          omega
      rw [hsame, hdir, foldl_unlink_entries, hdir', hfiles'] at h
      split at h
      · cases (Prod.mk.inj h).2
      · exact (Prod.mk.inj h).1.symm

/-- A segment with a header and nothing else. -/
def freshSegment (n : Nat) : Segment := { number := n }

/-- The state `Open` leaves when it succeeds. -/
def opened (crc32 : Bytes → UInt32) (segs : List Segment) (n : Nat) : WriteAheadLog :=
  { dir := (keptSegments segs ++ [freshSegment n]).map (Segment.entry crc32)
    currentFd := some n
    currentSequence := maxSequenceOf (recordsOf segs)
    currentFileSize := kWalFileHeaderSize
    currentFileNumber := n
    files := (keptSegments segs ++ [freshSegment n]).map Segment.file
    isOpen := true }

theorem freshSegment_sealed (n : Nat) : (freshSegment n).Sealed := ⟨rfl, rfl⟩

theorem entry_freshSegment (n : Nat) : (freshSegment n).entry crc32 = ⟨n, fileHeader⟩ := by
  simp [Segment.entry, Segment.bytes, freshSegment]

theorem keptSegments_sublist (segs : List Segment) :
    (keptSegments segs).Sublist (segs.map Segment.cut) := List.filter_sublist

theorem cut_sealed {segs : List Segment} (hhead : ∀ s ∈ segs, s.header = fileHeader) :
    ∀ s ∈ segs.map Segment.cut, s.Sealed := by
  intro s hs
  obtain ⟨t, ht, rfl⟩ := List.mem_map.mp hs
  exact ⟨hhead t ht, rfl⟩

theorem number_of_mem_cut {segs : List Segment} {n : Nat} (h : ∀ s ∈ segs, s.number ≤ n) :
    ∀ s ∈ segs.map Segment.cut, s.number ≤ n := by
  intro s hs
  obtain ⟨t, ht, rfl⟩ := List.mem_map.mp hs
  exact h t ht

/-- The scan leaves the highest file number as the current one. -/
theorem scan_fileNumber {segs : List Segment} {k : Nat} (h : ∀ s ∈ segs, s.number < k) (hk : 0 < k) :
    (∀ s ∈ segs, s.number ≤ segs.foldl (fun m s => max m s.number) 0) ∧
      segs.foldl (fun m s => max m s.number) 0 < k := by
  refine ⟨(foldl_max_number.1 le_rfl).2, ?_⟩
  have : segs.foldl (fun m s => max m s.number) 0 ≤ k - 1 :=
    foldl_max_number.2 ⟨Nat.zero_le _, fun s hs => by have := h s hs; omega⟩
  omega

/-- **`Open` that succeeds**: the records are contiguous, the sequence continues after the
    highest one, and a fresh segment is last. -/
theorem openWal_ok {cfg : WalConfig} {io : OpenIo} {segs : List Segment} {w w' : WriteAheadLog}
    (hs : SegmentsOn crc32 segs w.dir) (hio : io.opendirFails = false)
    (hroom : ∀ s ∈ segs, s.number < 999999) (h : openWal crc32 cfg io w = (w', .ok ())) :
    ∃ n, Contiguous none (recordsOf segs) ∧ (∀ s ∈ segs, s.number < n) ∧
      w' = opened crc32 segs n ∧
      SegmentsOn crc32 (keptSegments segs ++ [freshSegment n]) w'.dir := by
  obtain ⟨hle, hlt⟩ := scan_fileNumber hroom (by decide)
  unfold openWal at h
  cases hd : io.directoryError with
  | some e => simp [hd] at h
  | none =>
    simp only [hd] at h
    split at h
    · cases (Prod.mk.inj h).2
    rename_i w₁ hscan
    rcases scanExistingFiles_cases (w := close w) hs hio hscan with
      ⟨-, hc, hhead, rfl⟩ | ⟨e, he, -⟩
    swap
    · cases he
    split at h
    · cases (Prod.mk.inj h).2
    rename_i w₂ hremove
    have hw₂ := (removeEmptySegments_cases rfl hs.numbers_ne
      (fun s hm r hr => (hs.fits s hm r hr).2) rfl hremove).2 rfl
    split at h
    · cases (Prod.mk.inj h).2
    rename_i w₃ hrotate
    have hnum : ∀ e ∈ w₂.dir, e.number ≤ w₂.currentFileNumber := by
      rw [hw₂]
      intro e he
      obtain ⟨s, hsm, rfl⟩ := List.mem_map.mp he
      exact number_of_mem_cut hle s ((keptSegments_sublist segs).subset hsm)
    have hmax : w₂.currentFileNumber < kMaxU32 := by
      rw [hw₂]
      exact lt_trans hlt (by decide)
    rcases rotateFile_cases hnum hmax hrotate with ⟨-, rfl⟩ | ⟨e, he, -⟩ | ⟨e, he, -⟩
    rotate_left
    · cases he
    · cases he
    refine ⟨segs.foldl (fun m s => max m s.number) 0 + 1, hc, fun s hsm => ?_, ?_, ?_⟩
    · exact Nat.lt_succ_of_le (hle s hsm)
    · rw [← (Prod.mk.inj h).1, hw₂]
      simp only [rotated, opened, List.map_append, List.map_cons, List.map_nil,
        entry_freshSegment]
      rfl
    · rw [← (Prod.mk.inj h).1, hw₂]
      have hkept := (hs.cut hhead).sublist (keptSegments_sublist segs)
      have hentry := @entry_freshSegment crc32 (segs.foldl (fun m s => max m s.number) 0 + 1)
      rw [rotated, ← hentry]
      refine hkept.snoc (fun s hsm => ?_) (fun s hsm => ?_)
        (freshSegment_sealed _).wellFormed ?_ rfl
      · exact cut_sealed hhead s ((keptSegments_sublist segs).subset hsm)
      · exact Nat.lt_succ_of_le
          (number_of_mem_cut hle s ((keptSegments_sublist segs).subset hsm))
      · simp only [freshSegment]
        omega

/-- **`Open` that fails** leaves the object closed and every record in the directory. -/
theorem openWal_error {cfg : WalConfig} {io : OpenIo} {segs : List Segment} {w w' : WriteAheadLog}
    {e : Error} (hs : SegmentsOn crc32 segs w.dir) (hio : io.opendirFails = false)
    (hfiles : FilesOn segs w.files) (hroom : ∀ s ∈ segs, s.number < 999999)
    (h : openWal crc32 cfg io w = (w', .error e)) :
    ∃ segs', SegmentsOn crc32 segs' w'.dir ∧ contents segs' = contents segs ∧
      FilesOn segs' w'.files ∧ w'.currentFd = none ∧ w'.isOpen = false := by
  obtain ⟨hle, hlt⟩ := scan_fileNumber hroom (by decide)
  unfold openWal at h
  cases hd : io.directoryError with
  | some e' =>
    simp only [hd] at h
    rw [← (Prod.mk.inj h).1]
    exact ⟨segs, hs, rfl, hfiles, rfl, rfl⟩
  | none =>
    simp only [hd] at h
    split at h
    · -- the scan fails
      rename_i w₁ e₁ hscan
      rcases scanExistingFiles_cases (w := close w) hs hio hscan with
        ⟨he, -⟩ | ⟨-, -, hdir, hf, hfd, ho⟩
      · cases he
      · rw [← (Prod.mk.inj h).1]
        exact ⟨segs, hdir ▸ hs, rfl, hf, hfd, ho⟩
    rename_i w₁ hscan
    rcases scanExistingFiles_cases (w := close w) hs hio hscan with
      ⟨-, -, hhead, rfl⟩ | ⟨e, he, -⟩
    swap
    · cases he
    have hpos : ∀ s ∈ segs, ∀ r ∈ s.records, 0 < r.sequence := fun s hm r hr =>
      (hs.fits s hm r hr).2
    split at h
    · -- an empty segment cannot be removed
      rename_i w₂ e₂ hremove
      obtain ⟨segs', hsub, hcont, hw₂, hf⟩ := (removeEmptySegments_cases rfl hs.numbers_ne hpos rfl hremove).1
      rw [← (Prod.mk.inj h).1]
      refine ⟨segs', ?_, hcont, hf, ?_, ?_⟩
      · rw [hw₂]; exact (hs.cut hhead).sublist hsub
      · rw [hw₂]; rfl
      · rw [hw₂]; rfl
    rename_i w₂ hremove
    obtain ⟨segs', hsub, hcont, hw₂, hf⟩ := (removeEmptySegments_cases rfl hs.numbers_ne hpos rfl hremove).1
    have hdir₂ : w₂.dir = segs'.map (Segment.entry crc32) := by rw [hw₂]
    have hnum₂ : w₂.currentFileNumber = segs.foldl (fun m s => max m s.number) 0 := by rw [hw₂]
    have hseg' := (hs.cut hhead).sublist hsub
    have hle' : ∀ s ∈ segs', s.number ≤ w₂.currentFileNumber := fun s hsm =>
      hnum₂ ▸ number_of_mem_cut hle s (hsub.subset hsm)
    split at h
    · -- the fresh segment cannot be created
      rename_i w₃ e₃ hrotate
      have hnum : ∀ e ∈ w₂.dir, e.number ≤ w₂.currentFileNumber := by
        rw [hdir₂]
        intro e he
        obtain ⟨s, hsm, rfl⟩ := List.mem_map.mp he
        exact hle' s hsm
      rw [← (Prod.mk.inj h).1]
      rcases rotateFile_cases hnum (by rw [hnum₂]; exact lt_trans hlt (by decide)) hrotate with
        ⟨he, -⟩ | ⟨-, -, rfl⟩ | ⟨-, -, hr⟩
      · cases he
      · exact ⟨segs', hdir₂ ▸ hseg', hcont, hf, by rw [hw₂]; rfl, by rw [hw₂]; rfl⟩
      · have ho : w₃.isOpen = false := by rw [hr.isOpen, hw₂]; rfl
        rcases hr.dir with hsame | ⟨hdr, hlen, hstub⟩
        · exact ⟨segs', by rw [hsame, hdir₂]; exact hseg', hcont, hr.files ▸ hf, hr.fd, ho⟩
        · -- a file with a torn header stays behind
          let stub : Segment := { number := w₂.currentFileNumber + 1, header := hdr }
          have hentry : stub.entry crc32 = ⟨w₂.currentFileNumber + 1, hdr⟩ := by
            simp [Segment.entry, Segment.bytes, stub]
          refine ⟨segs' ++ [stub], ?_, ?_, ?_, hr.fd, ho⟩
          · rw [hstub, ← hentry, hdir₂]
            refine hseg'.snoc (fun s hsm => cut_sealed hhead s (hsub.subset hsm))
              (fun s hsm => Nat.lt_succ_of_le (hle' s hsm)) (.inr ⟨hlen, rfl, rfl⟩) ?_ rfl
            simp only [stub, hnum₂]
            omega
          · rw [contents_append, hcont]
            simp [contents, stub]
          · rw [hr.files]
            intro f hmem hpos
            obtain ⟨s, hsm, he⟩ := hf f hmem hpos
            exact ⟨s, List.mem_append_left _ hsm, he⟩
    · cases (Prod.mk.inj h).2

/-! ## 5. Append -/

/-- **The object writes to the last segment**: its fields describe the directory. -/
structure Attached (crc32 : Bytes → UInt32) (pre : List Segment) (last : Segment)
    (w : WriteAheadLog) : Prop where
  fd : w.currentFd = some last.number
  number : w.currentFileNumber = last.number
  size : w.currentFileSize = (last.bytes crc32).length
  files : w.files = (pre ++ [last]).map Segment.file
  isSealed : last.Sealed
  sequence : w.currentSequence = maxSequenceOf (recordsOf (pre ++ [last]))

theorem setBackMax_append (files : List WalFile) (f : WalFile) (m : Nat) :
    setBackMax (files ++ [f]) m = files ++ [{ f with maxSequence := m }] := by
  induction files with
  | nil => rfl
  | cons g files ih =>
    cases files with
    | nil => rfl
    | cons g' files =>
      rw [List.cons_append, List.cons_append, setBackMax, ← List.cons_append, ih]
      rfl

theorem maxSequenceOf_append (rs rs' : List WalRecord) :
    maxSequenceOf (rs ++ rs') = max (maxSequenceOf rs) (maxSequenceOf rs') := by
  apply le_antisymm
  · rw [maxSequenceOf_le]
    intro r hr
    rcases List.mem_append.mp hr with h | h
    · exact le_trans (le_maxSequenceOf h) (le_max_left _ _)
    · exact le_trans (le_maxSequenceOf h) (le_max_right _ _)
  · rw [max_le_iff, maxSequenceOf_le, maxSequenceOf_le]
    exact ⟨fun r hr => le_maxSequenceOf (List.mem_append_left _ hr),
      fun r hr => le_maxSequenceOf (List.mem_append_right _ hr)⟩

theorem recordsOf_append (segs segs' : List Segment) :
    recordsOf (segs ++ segs') = recordsOf segs ++ recordsOf segs' := by
  simp [recordsOf]

theorem recordsOf_singleton (s : Segment) : recordsOf [s] = s.records := by
  simp [recordsOf]

/-- The newest record-bearing segment holds the highest sequence number. -/
theorem SegmentsOn.maxSequenceOf_last {pre : List Segment} {last : Segment} {dir : Dir}
    (h : SegmentsOn crc32 (pre ++ [last]) dir) (hne : last.records ≠ []) :
    maxSequenceOf (recordsOf (pre ++ [last])) = maxSequenceOf last.records := by
  rw [recordsOf_append, recordsOf_singleton, maxSequenceOf_append]
  refine max_eq_right (maxSequenceOf_le.2 fun r hr => ?_)
  obtain ⟨r', hr'⟩ := List.exists_mem_of_ne_nil _ hne
  have hinc := h.increasing
  rw [recordsOf_append, recordsOf_singleton, List.pairwise_append] at hinc
  exact le_trans (Nat.le_of_lt (hinc.2.2 r hr r' hr')) (le_maxSequenceOf hr')

/-- Finalizing the current file's metadata before a rotation changes nothing. -/
theorem Attached.setBackMax_files {pre : List Segment} {last : Segment} {w : WriteAheadLog}
    (ha : Attached crc32 pre last w) (hs : SegmentsOn crc32 (pre ++ [last]) w.dir)
    (hne : last.records ≠ []) : setBackMax w.files w.currentSequence = w.files := by
  rw [ha.files, List.map_append, List.map_singleton, setBackMax_append, ha.sequence,
    hs.maxSequenceOf_last hne]
  rfl

/-- After a rotation the object writes to the fresh segment. -/
theorem Attached.rotated {pre : List Segment} {last : Segment} {w : WriteAheadLog}
    (ha : Attached crc32 pre last w) :
    Attached crc32 (pre ++ [last]) (freshSegment (last.number + 1)) (rotated w) where
  fd := by simp only [Storage.rotated, ha.number, freshSegment]
  number := by simp only [Storage.rotated, ha.number, freshSegment]
  size := by simp [Storage.rotated, freshSegment, Segment.bytes, kWalFileHeaderSize]
  files := by
    rw [List.map_append, ← ha.files]
    simp [Storage.rotated, ha.number, freshSegment, Segment.file, maxSequenceOf]
  isSealed := freshSegment_sealed _
  sequence := by
    rw [recordsOf_append, recordsOf_singleton]
    simpa [freshSegment, Storage.rotated] using ha.sequence

/-- All segments are sealed while the object is attached to the last one. -/
theorem Attached.all_sealed {pre : List Segment} {last : Segment} {w : WriteAheadLog}
    (ha : Attached crc32 pre last w) (hs : SegmentsOn crc32 (pre ++ [last]) w.dir) :
    ∀ s ∈ pre ++ [last], s.Sealed := by
  intro s hsm
  rcases List.mem_append.mp hsm with h | h
  · exact ((List.pairwise_append.mp hs.ordered).2.2 s h last (List.mem_singleton.mpr rfl)).2
  · rw [List.mem_singleton.mp h]
    exact ha.isSealed

theorem SegmentsOn.number_le_last {pre : List Segment} {last : Segment} {dir : Dir}
    (hs : SegmentsOn crc32 (pre ++ [last]) dir) : ∀ s ∈ pre ++ [last], s.number ≤ last.number := by
  intro s hsm
  rcases List.mem_append.mp hsm with h | h
  · exact Nat.le_of_lt
      ((List.pairwise_append.mp hs.ordered).2.2 s h last (List.mem_singleton.mpr rfl)).1
  · rw [List.mem_singleton.mp h]

/-- The directory after a rotation. -/
theorem Attached.segmentsOn_rotated {pre : List Segment} {last : Segment} {w : WriteAheadLog}
    (ha : Attached crc32 pre last w) (hs : SegmentsOn crc32 (pre ++ [last]) w.dir)
    (hroom : last.number < 999999) :
    SegmentsOn crc32 ((pre ++ [last]) ++ [freshSegment (last.number + 1)])
      (Storage.rotated w).dir := by
  have hentry := @entry_freshSegment crc32 (last.number + 1)
  rw [Storage.rotated, ha.number, ← hentry]
  refine hs.snoc (ha.all_sealed hs) (fun s hsm => Nat.lt_succ_of_le (hs.number_le_last s hsm))
    (freshSegment_sealed _).wellFormed ?_ rfl
  simp only [freshSegment]
  omega

/-- The record `Append` writes next. -/
def nextRecord (w : WriteAheadLog) (now : Nat) (op : WalOpType) (payload : Bytes) : WalRecord :=
  ⟨w.currentSequence + 1, now % 2 ^ 64, op.toByte, payload⟩

/-- The segment with one more record. -/
def Segment.push (s : Segment) (r : WalRecord) : Segment := { s with records := s.records ++ [r] }

theorem nextRecord_fits {w : WriteAheadLog} {now : Nat} {op : WalOpType} {payload : Bytes}
    (hseq : w.currentSequence < kMaxU64)
    (hlen : payload.length ≤ kMaxWalRecordBodySize - kWalRecordHeaderSize) :
    (nextRecord w now op payload).Fits where
  sequence := hseq
  timestamp := by
    have : now % 2 ^ 64 < 2 ^ 64 := Nat.mod_lt _ (by decide)
    simp only [nextRecord, kMaxU64]
    omega
  payload := by
    simp only [nextRecord, kMaxWalRecordBodySize, kWalRecordHeaderSize] at hlen ⊢
    omega

theorem Segment.bytes_push {s : Segment} (hs : s.Sealed) (r : WalRecord) :
    (s.push r).bytes crc32 = s.bytes crc32 ++ encodeRecord crc32 r := by
  simp [Segment.bytes, Segment.push, hs.2]

/-- One more record at the end of the newest segment. -/
theorem SegmentsOn.push {pre : List Segment} {last : Segment} {dir : Dir}
    (hs : SegmentsOn crc32 (pre ++ [last]) dir) (hsealed : last.Sealed) {r : WalRecord}
    (hr : r.Fits) (hpos : 0 < r.sequence)
    (habove : ∀ r' ∈ recordsOf (pre ++ [last]), r'.sequence < r.sequence) :
    SegmentsOn crc32 (pre ++ [last.push r]) (dir.append last.number (encodeRecord crc32 r)) := by
  have hdir : dir.append last.number (encodeRecord crc32 r) =
      (pre ++ [last.push r]).map (Segment.entry crc32) := by
    rw [hs.dir_eq, Dir.append]
    exact @map_entries_at crc32 pre [] last (last.push r) hs.numbers_ne
      (fun b => b ++ encodeRecord crc32 r) rfl (Segment.bytes_push hsealed r)
  have hinc := hs.increasing
  rw [recordsOf_append, recordsOf_singleton] at hinc habove
  rw [hdir]
  refine hs.replaceLast rfl (Segment.Sealed.wellFormed hsealed) ?_ ?_
  · intro r' hr'
    rcases List.mem_append.mp hr' with h | h
    · exact hs.fits last (by simp) r' h
    · rw [List.mem_singleton.mp h]
      exact ⟨hr, hpos⟩
  · rw [Segment.push, ← List.append_assoc, List.pairwise_append]
    refine ⟨hinc, List.pairwise_singleton _ _, fun a ha b hb => ?_⟩
    rw [List.mem_singleton.mp hb]
    exact habove a ha

theorem Attached.segmentsOn_push {pre : List Segment} {last : Segment} {w : WriteAheadLog}
    (ha : Attached crc32 pre last w) (hs : SegmentsOn crc32 (pre ++ [last]) w.dir) {r : WalRecord}
    (hr : r.Fits) (hseq : r.sequence = w.currentSequence + 1) :
    SegmentsOn crc32 (pre ++ [last.push r]) (w.dir.append last.number (encodeRecord crc32 r)) := by
  refine hs.push ha.isSealed hr (by omega) fun r' hr' => ?_
  rw [hseq, ha.sequence]
  exact Nat.lt_succ_of_le (le_maxSequenceOf hr')

/-- A torn write at the end of the newest segment. -/
theorem Attached.segmentsOn_torn {pre : List Segment} {last : Segment} {w : WriteAheadLog}
    (ha : Attached crc32 pre last w) (hs : SegmentsOn crc32 (pre ++ [last]) w.dir) {tail : Bytes}
    (htail : TornTail crc32 tail) :
    SegmentsOn crc32 (pre ++ [{ last with tail := tail }]) (w.dir.append last.number tail) := by
  have hdir : w.dir.append last.number tail =
      (pre ++ [{ last with tail := tail }]).map (Segment.entry crc32) := by
    rw [hs.dir_eq, Dir.append]
    refine @map_entries_at crc32 pre [] last { last with tail := tail } hs.numbers_ne
      (fun b => b ++ tail) rfl ?_
    simp [Segment.bytes, ha.isSealed.2]
  rw [hdir]
  refine hs.replaceLast rfl (.inl ⟨ha.isSealed.1, htail⟩) (hs.fits last (by simp)) ?_
  have hinc := hs.increasing
  rwa [recordsOf_append, recordsOf_singleton] at hinc

/-- The state behind a complete write of a record. -/
def written (crc32 : Bytes → UInt32) (n : Nat) (r : WalRecord) (w : WriteAheadLog) :
    WriteAheadLog :=
  { w with
    dir := w.dir.append n (encodeRecord crc32 r)
    currentSequence := w.currentSequence + 1
    currentFileSize := w.currentFileSize + (encodeRecord crc32 r).length
    files := setBackMax w.files (w.currentSequence + 1) }

theorem Attached.maxSequenceOf_last_le {pre : List Segment} {last : Segment} {w : WriteAheadLog}
    (ha : Attached crc32 pre last w) : maxSequenceOf last.records ≤ w.currentSequence := by
  rw [ha.sequence, recordsOf_append, recordsOf_singleton, maxSequenceOf_append]
  exact le_max_right _ _

theorem Attached.written {pre : List Segment} {last : Segment} {w : WriteAheadLog}
    (ha : Attached crc32 pre last w) {r : WalRecord} (hseq : r.sequence = w.currentSequence + 1) :
    Attached crc32 pre (last.push r) (written crc32 last.number r w) where
  fd := ha.fd
  number := ha.number
  size := by
    rw [Segment.bytes_push ha.isSealed, List.length_append, ← ha.size]
    rfl
  files := by
    have hone : maxSequenceOf [r] = w.currentSequence + 1 := by simp [maxSequenceOf, hseq]
    have hmax : maxSequenceOf (last.records ++ [r]) = w.currentSequence + 1 := by
      rw [maxSequenceOf_append, hone]
      exact max_eq_right (Nat.le_succ_of_le ha.maxSequenceOf_last_le)
    simp only [Storage.written, ha.files, List.map_append, List.map_singleton, setBackMax_append,
      Segment.file, Segment.push, hmax]
  isSealed := ha.isSealed
  sequence := by
    have hone : maxSequenceOf [r] = w.currentSequence + 1 := by simp [maxSequenceOf, hseq]
    have hrec : recordsOf (pre ++ [last.push r]) = recordsOf (pre ++ [last]) ++ [r] := by
      simp [recordsOf, Segment.push]
    rw [hrec, maxSequenceOf_append, ← ha.sequence, hone]
    exact (max_eq_right (Nat.le_succ _)).symm

/-- `writeRecord` when the write itself goes through. -/
theorem writeRecord_complete {cfg : WalConfig} {io : WriteIo} {now : Nat} {op : WalOpType}
    {payload : Bytes} {w : WriteAheadLog} {n : Nat} (hfd : w.currentFd = some n)
    (hio : ∀ k, io ≠ .torn k) :
    writeRecord crc32 cfg io now op payload w =
      if cfg.syncOnWrite ∧ io = .fsyncFails then
        poison (written crc32 n (nextRecord w now op payload) w) "Failed to fsync WAL record: "
      else (written crc32 n (nextRecord w now op payload) w, .ok (w.currentSequence + 1)) := by
  cases io with
  | torn k => exact absurd rfl (hio k)
  | ok => simp only [writeRecord, hfd, written, nextRecord]
  | fsyncFails => simp only [writeRecord, hfd, written, nextRecord]

theorem writeRecord_sequence (cfg : WalConfig) (io : WriteIo) (now : Nat) (op : WalOpType)
    (payload : Bytes) (w : WriteAheadLog) :
    (writeRecord crc32 cfg io now op payload w).1.currentSequence = w.currentSequence + 1 := by
  simp only [writeRecord, poison]
  repeat' split
  all_goals rfl

/-- **Writing one record** to the newest segment: it is there and acknowledged, it is there
    without an acknowledgement, or a torn tail is. -/
theorem writeRecord_cases {cfg : WalConfig} {io : WriteIo} {now : Nat} {op : WalOpType}
    {payload : Bytes} {pre : List Segment} {last : Segment} {w w' : WriteAheadLog}
    {res : Except Error Nat} (ha : Attached crc32 pre last w)
    (hs : SegmentsOn crc32 (pre ++ [last]) w.dir) (hseq : w.currentSequence < kMaxU64)
    (hlen : payload.length ≤ kMaxWalRecordBodySize - kWalRecordHeaderSize)
    (h : writeRecord crc32 cfg io now op payload w = (w', res)) :
    w'.currentFileNumber = last.number ∧
    ((res = .ok (w.currentSequence + 1) ∧ w'.isOpen = w.isOpen ∧
        SegmentsOn crc32 (pre ++ [last.push (nextRecord w now op payload)]) w'.dir ∧
        Attached crc32 pre (last.push (nextRecord w now op payload)) w') ∨
      (∃ e, res = .error e ∧ w'.isOpen = false ∧ w'.currentFd = none ∧
        ∃ last', ((last' = last.push (nextRecord w now op payload) ∧ cfg.syncOnWrite = true ∧
              io = .fsyncFails) ∨
            ∃ tail, last' = { last with tail := tail } ∧
              tail.length < (encodeRecord crc32 (nextRecord w now op payload)).length) ∧
          SegmentsOn crc32 (pre ++ [last']) w'.dir ∧ FilesOn (pre ++ [last']) w'.files)) := by
  have hfit : (nextRecord w now op payload).Fits := nextRecord_fits hseq hlen
  have hpush := ha.segmentsOn_push hs hfit rfl
  have hatt := ha.written (r := nextRecord w now op payload) rfl
  by_cases hio : ∃ k, io = .torn k
  · obtain ⟨k, rfl⟩ := hio
    simp only [writeRecord, ha.fd, poison] at h
    obtain ⟨rfl, rfl⟩ := Prod.mk.inj h
    have hshort : ((encodeRecord crc32 (nextRecord w now op payload)).take
        (k % (encodeRecord crc32 (nextRecord w now op payload)).length)).length <
        (encodeRecord crc32 (nextRecord w now op payload)).length :=
      lt_of_le_of_lt (List.length_take_le _ _) (Nat.mod_lt k (by simp))
    refine ⟨ha.number, .inr ⟨_, rfl, rfl, rfl, _, .inr ⟨_, rfl, hshort⟩, ha.segmentsOn_torn hs
      ⟨nextRecord w now op payload, hfit, _, Nat.mod_lt k (by simp), rfl⟩, ?_⟩⟩
    rw [ha.files]
    intro f hf _
    obtain ⟨s, hsm, rfl⟩ := List.mem_map.mp hf
    rcases List.mem_append.mp hsm with hm | hm
    · exact ⟨s, List.mem_append_left _ hm, rfl⟩
    · rw [List.mem_singleton.mp hm]
      exact ⟨_, List.mem_append_right _ (List.mem_singleton.mpr rfl), rfl⟩
  · rw [writeRecord_complete ha.fd fun k hk => hio ⟨k, hk⟩] at h
    split at h
    · rename_i hsync
      obtain ⟨rfl, rfl⟩ := Prod.mk.inj h
      exact ⟨ha.number, .inr ⟨_, rfl, rfl, rfl, _, .inl ⟨rfl, hsync⟩, hpush,
        hatt.files ▸ filesOn_map _⟩⟩
    · obtain ⟨rfl, rfl⟩ := Prod.mk.inj h
      exact ⟨ha.number, .inl ⟨rfl, rfl, hpush, hatt⟩⟩

/-- What a rotation that failed half way leaves: no open segment, every record in place. -/
structure Detached (crc32 : Bytes → UInt32) (pre : List Segment) (last : Segment)
    (segs' : List Segment) (w' : WriteAheadLog) : Prop where
  fd : w'.currentFd = none
  segments : SegmentsOn crc32 segs' w'.dir
  contents : contents segs' = contents (pre ++ [last])
  files : FilesOn segs' w'.files
  number : (w'.currentFileNumber = last.number ∧ segs' = pre ++ [last]) ∨
    (w'.currentFileNumber = last.number + 1 ∧
      ∀ s ∈ segs', s.number ≤ last.number + 1 ∧ (s.number = last.number + 1 → s.records = []))

/-- The rotation inside `Append`. -/
theorem Attached.rotateFile_cases {cfg : WalConfig} {io : RotateIo} {pre : List Segment}
    {last : Segment} {w w' : WriteAheadLog} {res : Except Error Unit}
    (ha : Attached crc32 pre last w) (hs : SegmentsOn crc32 (pre ++ [last]) w.dir)
    (hroom : last.number < 999999) (h : rotateFile cfg io w = (w', res)) :
    (res = .ok () ∧ w' = Storage.rotated w) ∨ (∃ e, res = .error e ∧ w' = w) ∨
      (∃ e segs', res = .error e ∧ Detached crc32 pre last segs' w' ∧ w'.isOpen = w.isOpen) := by
  have hnum : ∀ e ∈ w.dir, e.number ≤ w.currentFileNumber := by
    rw [hs.dir_eq, ha.number]
    intro e he
    obtain ⟨s, hsm, rfl⟩ := List.mem_map.mp he
    exact hs.number_le_last s hsm
  have hmax : w.currentFileNumber < kMaxU32 := by
    rw [ha.number]
    exact lt_trans hroom (by decide)
  have hfiles : FilesOn (pre ++ [last]) w.files := ha.files ▸ filesOn_map _
  rcases Storage.rotateFile_cases hnum hmax h with hok | hsame | ⟨e, he, hr⟩
  · exact .inl hok
  · exact .inr (.inl hsame)
  refine .inr (.inr ⟨e, ?_⟩)
  rcases hr.dir with hd | ⟨hdr, hlen, hstub⟩
  · refine ⟨pre ++ [last], he, ⟨hr.fd, hd ▸ hs, rfl, hr.files ▸ hfiles, ?_⟩, hr.isOpen⟩
    rcases hr.number with ⟨hn, -⟩ | hn
    · exact .inl ⟨hn.trans ha.number, rfl⟩
    · refine .inr ⟨hn.trans (by rw [ha.number]), fun s hsm => ?_⟩
      have := hs.number_le_last s hsm
      exact ⟨by omega, fun he => by omega⟩
  · -- the file with the torn header is the new last one
    let stub : Segment := { number := last.number + 1, header := hdr }
    have hentry : stub.entry crc32 = ⟨w.currentFileNumber + 1, hdr⟩ := by
      simp [Segment.entry, Segment.bytes, stub, ha.number]
    refine ⟨(pre ++ [last]) ++ [stub], he, ⟨hr.fd, ?_, ?_, ?_, ?_⟩, hr.isOpen⟩
    · rw [hstub, ← hentry]
      refine hs.snoc (ha.all_sealed hs)
        (fun s hsm => Nat.lt_succ_of_le (hs.number_le_last s hsm)) (.inr ⟨hlen, rfl, rfl⟩) ?_ rfl
      simp only [stub]
      omega
    · rw [contents_append]
      simp [Storage.contents, stub]
    · rw [hr.files]
      intro f hf hpos
      obtain ⟨s, hsm, hsf⟩ := hfiles f hf hpos
      exact ⟨s, List.mem_append_left _ hsm, hsf⟩
    · have hn : w'.currentFileNumber = last.number + 1 := by
        rcases hr.number with ⟨-, hd⟩ | hn
        · rw [hd] at hstub
          simp at hstub
        · rw [hn, ha.number]
      refine .inr ⟨hn, fun s hsm => ?_⟩
      rcases List.mem_append.mp hsm with hm | hm
      · have := hs.number_le_last s hm
        exact ⟨by omega, fun he => by omega⟩
      · rw [List.mem_singleton.mp hm]
        exact ⟨le_rfl, fun _ => rfl⟩

/-- **`Append`**: it refuses and changes nothing, its rotation fails, or it writes the next
    record, to the segment it had or to a fresh one. -/
theorem append_cases {cfg : WalConfig} {io : AppendIo} {now : Nat} {op : WalOpType}
    {payload : Bytes} {pre : List Segment} {last : Segment} {w w' : WriteAheadLog}
    {res : Except Error Nat} (ha : Attached crc32 pre last w)
    (hs : SegmentsOn crc32 (pre ++ [last]) w.dir) (hroom : last.number < 999999)
    (h : append crc32 cfg io now op payload w = (w', res)) :
    (∃ e, res = .error e ∧ w' = w) ∨
    (∃ e segs', res = .error e ∧ w'.currentSequence = w.currentSequence ∧
      Detached crc32 pre last segs' w') ∨
    (w.isOpen = true ∧ w.currentSequence < kMaxU64 ∧
      payload.length ≤ kMaxWalRecordBodySize - kWalRecordHeaderSize ∧
      ∃ pre₁ last₁ w₁, Attached crc32 pre₁ last₁ w₁ ∧ SegmentsOn crc32 (pre₁ ++ [last₁]) w₁.dir ∧
        ((pre₁ = pre ∧ last₁ = last ∧ w₁ = w) ∨
          (pre₁ = pre ++ [last] ∧ last₁ = freshSegment (last.number + 1) ∧ w₁ = rotated w)) ∧
        writeRecord crc32 cfg io.write now op payload w₁ = (w', res)) := by
  have hfdne : w.currentFd ≠ none := by rw [ha.fd]; simp
  unfold append at h
  split at h
  · obtain ⟨rfl, rfl⟩ := Prod.mk.inj h
    exact .inl ⟨_, rfl, rfl⟩
  rename_i hopen
  have hisOpen : w.isOpen = true := by
    by_contra hne
    exact hopen (.inl hne)
  split at h
  · obtain ⟨rfl, rfl⟩ := Prod.mk.inj h
    exact .inl ⟨_, rfl, rfl⟩
  rename_i hseq
  have hlt : w.currentSequence < kMaxU64 := by
    refine lt_of_le_of_ne ?_ hseq
    rw [ha.sequence, maxSequenceOf_le]
    intro r hr
    obtain ⟨s, hsm, hrs⟩ := List.mem_flatMap.mp hr
    exact (hs.fits s hsm r hrs).1.sequence
  split at h
  · obtain ⟨rfl, rfl⟩ := Prod.mk.inj h
    exact .inl ⟨_, rfl, rfl⟩
  rename_i hlen
  split at h
  · -- rotation: a segment that is over the limit has a record
    rename_i hrot
    have hne : last.records ≠ [] := by
      intro hnil
      have hsize := hrot.2
      rw [ha.size, Segment.bytes, ha.isSealed.1, hnil, ha.isSealed.2] at hsize
      simp [kWalFileHeaderSize] at hsize
    rw [ha.setBackMax_files hs hne] at h
    cases hr : rotateFile cfg io.rotate w with
    | mk w₁ rotated =>
      simp only [hr] at h
      rcases ha.rotateFile_cases hs hroom hr with ⟨rfl, rfl⟩ | ⟨e, rfl, rfl⟩ | ⟨e, segs', rfl, hd, -⟩
      · exact .inr (.inr ⟨hisOpen, hlt, Nat.le_of_not_lt hlen, _, _, _, ha.rotated,
          ha.segmentsOn_rotated hs hroom, .inr ⟨rfl, rfl, rfl⟩, h⟩)
      · obtain ⟨rfl, rfl⟩ := Prod.mk.inj h
        exact .inl ⟨_, rfl, rfl⟩
      · obtain ⟨rfl, rfl⟩ := Prod.mk.inj h
        have hsame := rotateFile_sequence cfg io.rotate w
        rw [hr] at hsame
        exact .inr (.inl ⟨_, _, rfl, hsame, hd⟩)
  · exact .inr (.inr ⟨hisOpen, hlt, Nat.le_of_not_lt hlen, _, _, _, ha, hs, .inl ⟨rfl, rfl, rfl⟩, h⟩)

/-! ## 6. Truncate -/

/-- The file is deleted by `Truncate(upTo)`: it is truncatable and its unlink goes through. -/
def deletes (w : WriteAheadLog) (io : TruncateIo) (upTo : Nat) (f : WalFile) : Bool :=
  truncatable w upTo f && !io.unlinkFails f.fileNumber

theorem truncate_fst (cfg : WalConfig) (io : TruncateIo) (upTo : Nat) (w : WriteAheadLog) :
    (truncate cfg io upTo w).1 = { w with
      dir := (w.files.filter (deletes w io upTo)).foldl (fun dir f => dir.unlink f.fileNumber) w.dir
      files := w.files.filter fun f => !deletes w io upTo f } := by
  simp only [truncate]
  split
  · rfl
  · split <;> rfl

/-- **`Truncate`** deletes segments, and of these only some whose records are all covered. -/
theorem truncate_segments {cfg : WalConfig} {io : TruncateIo} {upTo : Nat} {segs : List Segment}
    {w : WriteAheadLog} (hs : SegmentsOn crc32 segs w.dir) (hf : FilesOn segs w.files) :
    let segs' := segs.filter fun s => !w.files.any fun f =>
      deletes w io upTo f && f.fileNumber == s.number
    SegmentsOn crc32 segs' (truncate cfg io upTo w).1.dir ∧
      FilesOn segs' (truncate cfg io upTo w).1.files ∧
      (∀ s ∈ segs, s ∉ segs' → deletes w io upTo s.file = true ∧ s.file ∈ w.files) ∧
      (w.files = segs.map Segment.file →
        (truncate cfg io upTo w).1.files = segs'.map Segment.file) := by
  intro segs'
  have hdir : (truncate cfg io upTo w).1.dir = segs'.map (Segment.entry crc32) := by
    rw [truncate_fst, hs.dir_eq, foldl_unlink_entries]
    simp only [segs', List.any_filter]
  -- a deleted file is the file of the segment with its number
  have hdel : ∀ f ∈ w.files, deletes w io upTo f = true →
      ∀ s ∈ segs, f.fileNumber = s.number → f = s.file := by
    intro f hfm hd s hsm hn
    have hpos : 0 < f.maxSequence := by
      simp only [deletes, truncatable, Bool.and_eq_true, decide_eq_true_eq] at hd
      exact hd.1.1.2
    obtain ⟨t, ht, rfl⟩ := hf f hfm hpos
    rw [hs.number_inj ht hsm hn]
  refine ⟨?_, ?_, ?_, ?_⟩
  · rw [hdir]
    exact hs.sublist List.filter_sublist
  · rw [truncate_fst]
    intro f hfm hpos
    obtain ⟨hmem, hkeep⟩ := List.mem_filter.mp hfm
    obtain ⟨s, hsm, rfl⟩ := hf f hmem hpos
    refine ⟨s, List.mem_filter.mpr ⟨hsm, ?_⟩, rfl⟩
    rw [Bool.not_eq_true', List.any_eq_false]
    intro g hg hg'
    rw [Bool.and_eq_true, beq_iff_eq] at hg'
    rw [hdel g hg hg'.1 s hsm hg'.2] at hg'
    simp [hg'.1] at hkeep
  · intro s hsm hout
    have hany : (w.files.any fun f => deletes w io upTo f && f.fileNumber == s.number) = true := by
      by_contra hne
      exact hout (List.mem_filter.mpr ⟨hsm, by simpa using hne⟩)
    obtain ⟨f, hfm, hf'⟩ := List.any_eq_true.mp hany
    rw [Bool.and_eq_true, beq_iff_eq] at hf'
    rw [← hdel f hfm hf'.1 s hsm hf'.2]
    exact ⟨hf'.1, hfm⟩
  · intro hall
    rw [truncate_fst]
    simp only [segs']
    conv_lhs => rw [hall]
    rw [List.filter_map]
    refine congrArg _ (List.filter_congr fun s hsm => ?_)
    refine congrArg Bool.not ?_
    rw [Bool.eq_iff_iff, List.any_eq_true]
    constructor
    · intro hd
      exact ⟨s.file, hall ▸ List.mem_map_of_mem hsm, by simpa [Segment.file] using hd⟩
    · rintro ⟨f, hfm, hf'⟩
      rw [Bool.and_eq_true, beq_iff_eq] at hf'
      rw [hdel f hfm hf'.1 s hsm hf'.2] at hf'
      exact hf'.1

/-! ## 7. Replay -/

theorem replayFold_append {τ : Type} {fromSequence : Nat}
    {callback : τ → WalRecord → Except Error τ} {st : ReplayState τ} {rs rs' : List WalRecord} :
    replayFold fromSequence callback st (rs ++ rs') =
      replayFold fromSequence callback st rs >>= fun st' =>
        replayFold fromSequence callback st' rs' := by
  simp only [replayFold, List.filter_append, List.foldlM_append]
  cases (rs.filter fun r => fromSequence ≤ r.sequence).foldlM callback st.acc with
  | error e => rfl
  | ok acc =>
    simp only [lastSeen_append, List.any_append, Bool.or_assoc, List.length_append, Except.map,
      Nat.add_assoc, bind, Except.bind]

/-- The segment loop of a replay over sealed segments. -/
theorem replaySegments_eq {τ : Type} {cfg : WalConfig} {dir : Dir} {fromSequence : Nat}
    {callback : τ → WalRecord → Except Error τ} {segs : List Segment} {st : ReplayState τ}
    (hlook : ∀ s ∈ segs, dir.lookup s.number = some (s.bytes crc32))
    (hsealed : ∀ s ∈ segs, s.Sealed) (hfit : ∀ s ∈ segs, ∀ r ∈ s.records, r.Fits)
    (hc : Contiguous st.previousSequence (recordsOf segs)) :
    replaySegments crc32 cfg dir fromSequence callback (segs.map (·.number)) st =
      (replayFold fromSequence callback st (recordsOf segs)).map fun st' => (false, st') := by
  induction segs generalizing st with
  | nil => simp [replaySegments, recordsOf, replayFold, lastSeen]; rfl
  | cons s segs ih =>
    have hs := hsealed s List.mem_cons_self
    have hrec : recordsOf (s :: segs) = s.records ++ recordsOf segs := rfl
    rw [hrec] at hc ⊢
    obtain ⟨hc₁, hc₂⟩ := contiguous_append.1 hc
    have hbytes : s.bytes crc32 = fileHeader ++ frames crc32 s.records := by
      simp [Segment.bytes, hs.1, hs.2]
    have hdrop : (s.bytes crc32).drop kWalFileHeaderSize = frames crc32 s.records := by
      rw [Segment.drop_header hs.1, hs.2, List.append_nil]
    have hvalid : validateFileHeader (s.bytes crc32) = .ok () := by
      rw [hbytes]
      exact validateFileHeader_whole _
    have hturns : s.records.length < (s.bytes crc32).length + 1 := by
      have := @length_frames_ge crc32 s.records
      rw [hbytes, List.length_append]
      omega
    simp only [List.map_cons, replaySegments, hlook s List.mem_cons_self, hvalid, hdrop,
      replayRecords_frames (hfit s List.mem_cons_self) hc₁ hturns, replayFold_append]
    cases hf : replayFold fromSequence callback st s.records with
    | error e => rfl
    | ok st' =>
      have hprev : st'.previousSequence = lastSeen st.previousSequence s.records := by
        simp only [replayFold] at hf
        cases hcb : (s.records.filter fun r => fromSequence ≤ r.sequence).foldlM callback
            st.acc with
        | error e => rw [hcb] at hf; cases hf
        | ok acc => rw [hcb] at hf; cases hf; rfl
      simp only [Except.map, bind, Except.bind]
      exact ih (fun a ha => hlook a (List.mem_cons_of_mem s ha))
        (fun a ha => hsealed a (List.mem_cons_of_mem s ha))
        (fun a ha => hfit a (List.mem_cons_of_mem s ha)) (hprev ▸ hc₂)

/-- The segments a replay from `fromSequence` opens. -/
def mayHold (fromSequence : Nat) (s : Segment) : Bool :=
  fromSequence ≤ s.file.maxSequence || s.file.maxSequence == 0

/-- The segments that are skipped stand in front and hold lower numbers only. -/
theorem recordsOf_mayHold {segs : List Segment} {fromSequence : Nat}
    (hinc : (recordsOf segs).Pairwise fun a b => a.sequence < b.sequence)
    (hpos : ∀ s ∈ segs, ∀ r ∈ s.records, 0 < r.sequence) :
    ∃ skipped, recordsOf segs = skipped ++ recordsOf (segs.filter (mayHold fromSequence)) ∧
      ∀ r ∈ skipped, r.sequence < fromSequence := by
  induction segs with
  | nil => exact ⟨[], rfl, by simp⟩
  | cons s segs ih =>
    have hrec : recordsOf (s :: segs) = s.records ++ recordsOf segs := rfl
    rw [hrec, List.pairwise_append] at hinc
    have hpos' : ∀ t ∈ segs, ∀ r ∈ t.records, 0 < r.sequence := fun t ht =>
      hpos t (List.mem_cons_of_mem s ht)
    obtain ⟨skipped, he, hlow⟩ := ih hinc.2.1 hpos'
    by_cases hnil : s.records = []
    · refine ⟨skipped, ?_, hlow⟩
      have hkeep : mayHold fromSequence s = true := by
        simp [mayHold, Segment.file, hnil, maxSequenceOf]
      rw [hrec, hnil, List.filter_cons_of_pos hkeep, List.nil_append, he]
      simp [recordsOf, hnil]
    by_cases hmax : fromSequence ≤ s.file.maxSequence
    · -- everything behind this segment is above the floor, so nothing more is skipped
      have hnone : skipped = [] := by
        by_contra hne
        obtain ⟨r, hr⟩ := List.exists_mem_of_ne_nil _ hne
        obtain ⟨r', hr', hr'max⟩ := exists_maxSequenceOf hnil
        have h₁ := hinc.2.2 r' hr' r (he ▸ List.mem_append_left _ hr)
        have h₂ := hlow r hr
        simp only [Segment.file] at hmax
        omega
      refine ⟨[], ?_, by simp⟩
      have hkeep : mayHold fromSequence s = true := by simp [mayHold, hmax]
      rw [List.filter_cons_of_pos hkeep, hrec, he, hnone]
      rfl
    · refine ⟨s.records ++ skipped, ?_, ?_⟩
      · have hdrop : mayHold fromSequence s = false := by
          have := (Segment.file_maxSequence_pos (hpos s List.mem_cons_self)).mpr hnil
          simp only [mayHold, Bool.or_eq_false_iff, decide_eq_false_iff_not, hmax,
            not_false_eq_true, true_and, beq_eq_false_iff_ne]
          omega
        rw [hrec, he, List.filter_cons_of_neg (by simp [hdrop]), List.append_assoc]
      · intro r hr
        rcases List.mem_append.mp hr with h | h
        · have : r.sequence ≤ s.file.maxSequence := le_maxSequenceOf h
          omega
        · exact hlow r h

/-- The segment loop of `ReplayValidated` hands the callback exactly the records at or above the
    floor. -/
theorem replaySegments_paths {τ : Type} {cfg : WalConfig} {fromSequence : Nat}
    {callback : τ → WalRecord → Except Error τ} {init : τ} {segs : List Segment}
    {w : WriteAheadLog} (hs : SegmentsOn crc32 segs w.dir) (hsealed : ∀ s ∈ segs, s.Sealed)
    (hfiles : w.files = segs.map Segment.file) (hc : Contiguous none (recordsOf segs)) :
    ∃ previous, replaySegments crc32 cfg w.dir fromSequence callback (replayPaths w fromSequence)
        ⟨none, fromSequence == 0, 0, init⟩ =
      (((recordsOf segs).filter fun r => fromSequence ≤ r.sequence).foldlM callback init).map
        fun acc => (false,
          { previousSequence := previous
            floorSeen := fromSequence == 0 || (recordsOf segs).any fun r => r.sequence == fromSequence
            count := ((recordsOf segs).filter fun r => fromSequence ≤ r.sequence).length
            acc := acc }) := by
  obtain ⟨skipped, he, hlow⟩ := @recordsOf_mayHold segs fromSequence hs.increasing
    fun s hsm r hr => (hs.fits s hsm r hr).2
  have hpaths : replayPaths w fromSequence =
      (segs.filter (mayHold fromSequence)).map (·.number) := by
    rw [replayPaths, hfiles, List.filter_map, List.map_map]
    rfl
  have hmem : ∀ s ∈ segs.filter (mayHold fromSequence), s ∈ segs := fun s hsm =>
    List.mem_of_mem_filter hsm
  have hlook : ∀ s ∈ segs.filter (mayHold fromSequence),
      w.dir.lookup s.number = some (s.bytes crc32) := by
    intro s hsm
    rw [hs.dir_eq]
    exact lookup_entries hs.numbers_ne (hmem s hsm)
  have hc' : Contiguous none (recordsOf (segs.filter (mayHold fromSequence))) :=
    contiguous_of_append (he ▸ hc)
  have hskipFilter : skipped.filter (fun r => fromSequence ≤ r.sequence) = [] := by
    rw [List.filter_eq_nil_iff]
    intro r hr
    have := hlow r hr
    simpa using this
  have hskipAny : (skipped.any fun r => r.sequence == fromSequence) = false := by
    rw [List.any_eq_false]
    intro r hr
    have := hlow r hr
    simp only [beq_iff_eq]
    omega
  refine ⟨lastSeen none (recordsOf (segs.filter (mayHold fromSequence))), ?_⟩
  rw [hpaths, replaySegments_eq hlook (fun s hsm => hsealed s (hmem s hsm))
    (fun s hsm r hr => (hs.fits s (hmem s hsm) r hr).1) hc', he]
  simp only [List.filter_append, hskipFilter, List.nil_append, List.any_append, hskipAny,
    Bool.false_or, replayFold, Nat.zero_add]
  cases ((recordsOf (segs.filter (mayHold fromSequence))).filter
      fun r => fromSequence ≤ r.sequence).foldlM callback init with
  | error e => rfl
  | ok acc => rfl

/-- **`ReplayValidated`**: what it checks beyond that is that the floor itself is there, unless
    it lies above the sequence. -/
theorem replayValidated_eq {τ : Type} {cfg : WalConfig} {fromSequence : Nat}
    {callback : τ → WalRecord → Except Error τ} {init : τ} {segs : List Segment}
    {w : WriteAheadLog} (hs : SegmentsOn crc32 segs w.dir) (hsealed : ∀ s ∈ segs, s.Sealed)
    (hfiles : w.files = segs.map Segment.file) (hc : Contiguous none (recordsOf segs)) :
    replayValidated crc32 cfg fromSequence callback init w =
      ((recordsOf segs).filter fun r => fromSequence ≤ r.sequence).foldlM callback init >>=
        fun acc =>
          if (!(fromSequence == 0 || (recordsOf segs).any fun r => r.sequence == fromSequence) &&
              decide (fromSequence ≤ w.currentSequence)) then
            .error (makeError .kWalCorrupted
              ("WAL does not contain requested replay floor sequence " ++ toString fromSequence))
          else .ok (((recordsOf segs).filter fun r => fromSequence ≤ r.sequence).length, acc) := by
  obtain ⟨previous, hloop⟩ := replaySegments_paths hs hsealed hfiles hc
  rw [replayValidated, hloop]
  cases ((recordsOf segs).filter fun r => fromSequence ≤ r.sequence).foldlM callback init with
  | error e => rfl
  | ok acc => simp [Except.map, bind, Except.bind]

/-! ## 8. Sequence numbers fit 64 bits -/

theorem scanRecords_maxSequence_le {path : String} {latest ftruncateFails : Bool} {turns : Nat}
    {sc sc' : SegmentScan} {bytes : Bytes} (hle : sc.maxSequence ≤ kMaxU64)
    (h : scanRecords crc32 path latest ftruncateFails turns sc bytes = .ok sc') :
    sc'.maxSequence ≤ kMaxU64 := by
  induction turns generalizing sc bytes with
  | zero => cases h
  | succ turns ih =>
    simp only [scanRecords] at h
    split at h
    · cases h; exact hle
    · split at h
      · cases h
      · cases h; exact hle
    · cases h
    · split at h
      · cases h
      · cases h; exact hle
    · cases h
    · rename_i r rest hr
      split at h
      · cases h
      · exact ih (max_le hle (readFrame_sequence_le hr)) h

theorem scanSegments_sequence_le {cfg : WalConfig} {ftruncateFails : Bool} {ns : List Nat}
    {previous : Option Nat} {w : WriteAheadLog} (hle : w.currentSequence ≤ kMaxU64) :
    (scanSegments crc32 cfg ftruncateFails ns previous w).1.currentSequence ≤ kMaxU64 := by
  induction ns generalizing previous w with
  | nil => exact hle
  | cons n ns ih =>
    simp only [scanSegments]
    split
    · exact hle
    split
    · exact hle
    split
    · exact hle
    · rename_i sc hsc
      exact ih (max_le hle (scanRecords_maxSequence_le (Nat.zero_le _) hsc))

theorem openWal_sequence_le {cfg : WalConfig} {io : OpenIo} {w : WriteAheadLog}
    (hle : w.currentSequence ≤ kMaxU64) :
    (openWal crc32 cfg io w).1.currentSequence ≤ kMaxU64 := by
  have hscan : (scanExistingFiles crc32 cfg io (close w)).1.currentSequence ≤ kMaxU64 := by
    simp only [scanExistingFiles]
    split
    · exact Nat.zero_le _
    · split
      · exact scanSegments_sequence_le (Nat.zero_le _)
      · exact Nat.zero_le _
  have hempty : ∀ v : WriteAheadLog,
      (removeEmptySegments io v).1.currentSequence = v.currentSequence := by
    intro v
    simp only [removeEmptySegments]
    repeat' split
    all_goals rfl
  unfold openWal
  dsimp only
  split
  · exact hle
  cases hs : scanExistingFiles crc32 cfg io (close w) with
  | mk v res =>
    rw [hs] at hscan
    cases res with
    | error e => exact hscan
    | ok u =>
      cases he : removeEmptySegments io v with
      | mk v' res' =>
        have hv' := hempty v
        rw [he] at hv'
        have hv'' := rotateFile_sequence cfg io.rotate v'
        cases res' with
        | error e => simp only [he]; exact hv' ▸ hscan
        | ok u' =>
          simp only [he]
          cases hr : rotateFile cfg io.rotate v' with
          | mk v₂ res₂ =>
            rw [hr] at hv''
            have : v₂.currentSequence ≤ kMaxU64 := by
              rw [hv'', hv']
              exact hscan
            cases res₂ <;> exact this

/-- `Append` moves the sequence up, and never beyond 64 bits. -/
theorem append_sequence_le {cfg : WalConfig} {io : AppendIo} {now : Nat} {op : WalOpType}
    {payload : Bytes} {w : WriteAheadLog} (hle : w.currentSequence ≤ kMaxU64) :
    w.currentSequence ≤ (append crc32 cfg io now op payload w).1.currentSequence ∧
      (append crc32 cfg io now op payload w).1.currentSequence ≤ kMaxU64 := by
  have hwrite : ∀ v : WriteAheadLog,
      (writeRecord crc32 cfg io.write now op payload v).1.currentSequence =
        v.currentSequence + 1 := by
    intro v
    simp only [writeRecord, poison]
    repeat' split
    all_goals rfl
  unfold append
  split
  · exact ⟨le_rfl, hle⟩
  split
  · exact ⟨le_rfl, hle⟩
  rename_i hne
  have hlt : w.currentSequence < kMaxU64 := lt_of_le_of_ne hle hne
  split
  · exact ⟨le_rfl, hle⟩
  split
  · have hrot := rotateFile_sequence cfg io.rotate
      { w with files := setBackMax w.files w.currentSequence }
    dsimp only at hrot ⊢
    split
    · exact ⟨hrot.ge, hrot.le.trans hle⟩
    · rw [hwrite, hrot]
      exact ⟨Nat.le_succ _, hlt⟩
  · rw [hwrite]
    exact ⟨Nat.le_succ _, hlt⟩

end Nvecd.Storage
