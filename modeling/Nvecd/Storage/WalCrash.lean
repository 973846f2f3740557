/-
  File:      Nvecd/Storage/WalCrash.lean
  Subject:   What a crash leaves of the write-ahead log, and what the next `Open` makes of it.

  A crash keeps some of the bytes of the newest segment file. Torn records are cut off by the
  scan; but a file that is shorter than its own header, as a crash in `RotateFile` or a header
  write that failed leaves it, is refused, and with it the whole log.

  * `openWal_succeeds` -- `Open` succeeds on contiguous records and whole headers;
  * `CrashAction`, `crashStep` -- appends with every failure, closes, crashes and opens, with
    the records written so far and where in their files they end;
  * `crash_tolerance`.
-/
import Mathlib.Data.List.Induction
import Nvecd.Lib.Crc32
import Nvecd.Lib.Machine
import Nvecd.Storage.WalRun

namespace Nvecd.Storage

open Nvecd.Lib Nvecd.Utils

/-! ## 1. When Open succeeds -/

section Open

variable {crc32 : Bytes → UInt32}

/-- **The scan of one segment succeeds** on contiguous records, with a torn tail only if the
    segment is the newest. -/
theorem scanRecords_succeeds (path : String) {latest : Bool} {turns : Nat} {rs : List WalRecord}
    {tail : Bytes} (sc : SegmentScan) (hfit : ∀ r ∈ rs, r.Fits) (htail : TornTail crc32 tail)
    (hlatest : latest = false → tail = []) (hc : Contiguous sc.previousSequence rs)
    (hturns : rs.length < turns) :
    ∃ sc', scanRecords crc32 path latest false turns sc (frames crc32 rs ++ tail) = .ok sc' := by
  induction rs generalizing turns sc with
  | nil =>
    obtain ⟨turns, rfl⟩ : ∃ n, turns = n + 1 := ⟨turns - 1, by simp at hturns; omega⟩
    simp only [frames_nil, List.nil_append, scanRecords]
    cases latest with
    | true => rcases readFrame_tornTail htail with hf | hf | hf <;> rw [hf] <;> exact ⟨sc, rfl⟩
    | false =>
      have heof : readFrame crc32 tail = .eof := readFrame_eof_iff.2 (hlatest rfl)
      rw [heof]
      exact ⟨sc, rfl⟩
  | cons r rs ih =>
    obtain ⟨turns, rfl⟩ : ∃ n, turns = n + 1 := ⟨turns - 1, by simp at hturns; omega⟩
    simp only [frames_cons, List.append_assoc, scanRecords,
      readFrame_encodeRecord (hfit r List.mem_cons_self), hc.1, Bool.false_eq_true, if_false]
    exact ih _ (fun r' hr' => hfit r' (List.mem_cons_of_mem r hr')) hc.2 (by simpa using hturns)

/-- The segment loop. -/
theorem scanSegments_succeeds {cfg : WalConfig} (pre : List Segment) {rest : List Segment}
    {previous : Option Nat} {w : WriteAheadLog} (hdir : w.dir = (pre ++ rest).map (Segment.entry crc32))
    (hord : (pre ++ rest).Pairwise fun a b => a.number ≠ b.number)
    (hshape : ∀ s ∈ rest, s.header = fileHeader ∧ TornTail crc32 s.tail)
    (hsealed : rest.Pairwise fun a _ => a.Sealed) (hfit : ∀ s ∈ rest, ∀ r ∈ s.records, r.Fits)
    (hc : Contiguous previous (recordsOf rest)) :
    ∃ w', scanSegments crc32 cfg false (rest.map (·.number)) previous w = (w', .ok ()) := by
  induction rest generalizing pre previous w with
  | nil => exact ⟨w, rfl⟩
  | cons s rest ih =>
    obtain ⟨hhead, htail⟩ := hshape s List.mem_cons_self
    obtain ⟨hc₁, hc₂⟩ := contiguous_append.1 (show Contiguous previous
      (s.records ++ recordsOf rest) from hc)
    have hlook : w.dir.lookup s.number = some (s.bytes crc32) := by
      rw [hdir]
      exact lookup_entries hord (by simp)
    have hvalid : validateFileHeader (s.bytes crc32) = .ok () := by
      rw [Segment.bytes, hhead]
      exact validateFileHeader_whole _
    have hlatest : (rest.map (·.number)).isEmpty = false → s.tail = [] := by
      intro hne
      cases rest with
      | nil => cases hne
      | cons t rest => exact ((List.pairwise_cons.mp hsealed).1 t List.mem_cons_self).2
    have hturns : s.records.length < (s.bytes crc32).length + 1 := by
      have := @length_frames_ge crc32 s.records
      simp only [Segment.bytes, List.length_append]
      omega
    obtain ⟨sc, hscan⟩ := scanRecords_succeeds (makeFilePath cfg s.number) ⟨previous, 0, kWalFileHeaderSize⟩
      (hfit s List.mem_cons_self) htail hlatest hc₁ hturns
    obtain ⟨-, hsc⟩ := scanRecords_ok (hfit s List.mem_cons_self) htail hscan
    simp only [List.map_cons, scanSegments, hlook, hvalid, Segment.drop_header hhead, hscan]
    have hprev : sc.previousSequence = lastSeen previous s.records := by rw [hsc]
    have hdir' : w.dir.truncateTo s.number sc.validLength =
        ((pre ++ [s.cut]) ++ rest).map (Segment.entry crc32) := by
      rw [hsc, hdir]
      exact truncateTo_entries hord hhead
    have hord' : ((pre ++ [s.cut]) ++ rest).Pairwise fun a b => a.number ≠ b.number := by
      have hmap : ((pre ++ [s.cut]) ++ rest).map (·.number) =
          (pre ++ s :: rest).map (·.number) := by simp [Segment.cut]
      exact List.pairwise_map.mp (hmap ▸ List.pairwise_map.mpr hord)
    exact ih _ hdir' hord' (fun a ha => hshape a (List.mem_cons_of_mem s ha))
      (List.pairwise_cons.mp hsealed).2 (fun a ha => hfit a (List.mem_cons_of_mem s ha))
      (hprev ▸ hc₂)

theorem removeEmptySegments_succeeds (w : WriteAheadLog) :
    ∃ w', removeEmptySegments {} w = (w', .ok ()) := by
  have hall : ∀ l : List WalFile, l.takeWhile (fun _ => true) = l := by
    intro l
    induction l with
    | nil => rfl
    | cons f l ih => rw [List.takeWhile_cons_of_pos rfl, ih]
  simp [removeEmptySegments, hall]

/-- **`Open` succeeds** if the headers are whole and the records contiguous. -/
theorem openWal_succeeds {cfg : WalConfig} {segs : List Segment} {w : WriteAheadLog}
    (hs : SegmentsOn crc32 segs w.dir) (hhead : ∀ s ∈ segs, s.header = fileHeader)
    (hc : Contiguous none (recordsOf segs)) (hroom : ∀ s ∈ segs, s.number < 999999) :
    ∃ n, openWal crc32 cfg {} w = (opened crc32 segs n, .ok ()) ∧
      n = segs.foldl (fun m s => max m s.number) 0 + 1 ∧
      SegmentsOn crc32 (keptSegments segs ++ [freshSegment n]) (opened crc32 segs n).dir := by
  suffices hok : ∃ w', openWal crc32 cfg {} w = (w', .ok ()) ∧
      w'.currentFileNumber = segs.foldl (fun m s => max m s.number) 0 + 1 by
    obtain ⟨w', hw', hnumber⟩ := hok
    obtain ⟨n, -, -, rfl, hs'⟩ := openWal_ok hs rfl hroom hw'
    exact ⟨n, hw', hnumber, hs'⟩
  have hshape : ∀ s ∈ segs, s.header = fileHeader ∧ TornTail crc32 s.tail := by
    intro s hsm
    rcases hs.shape s hsm with h | ⟨hshort, -⟩
    · exact h
    · rw [hhead s hsm] at hshort
      simp [kWalFileHeaderSize] at hshort
  obtain ⟨w₁, hscan⟩ := scanSegments_succeeds []
    (w := { close w with files := [], currentSequence := 0, currentFileNumber := 0 })
    hs.dir_eq hs.numbers_ne hshape (hs.ordered.imp fun hab => hab.2)
    (fun s hsm r hr => (hs.fits s hsm r hr).1) hc
  have hscan' : scanExistingFiles crc32 cfg {} (close w) = (w₁, .ok ()) := by
    have hlist : listedNumbers (close w).dir = segs.map (·.number) := hs.listedNumbers
    simp only [scanExistingFiles, Bool.false_eq_true, if_false, hlist,
      noAdjacentEqual_of_lt hs.numbers_lt, if_true]
    exact hscan
  rcases scanExistingFiles_cases (w := close w) hs rfl hscan' with ⟨-, -, -, hw₁⟩ | ⟨e, he, -⟩
  swap
  · cases he
  obtain ⟨w₂, hremove⟩ := removeEmptySegments_succeeds w₁
  have hw₂ := (removeEmptySegments_cases (by rw [hw₁]) hs.numbers_ne
    (fun s hm r hr => (hs.fits s hm r hr).2) (by rw [hw₁]) hremove).2 rfl
  obtain ⟨hle, hlt⟩ := scan_fileNumber hroom (by decide)
  have hnum : ∀ e ∈ w₂.dir, e.number ≤ w₂.currentFileNumber := by
    rw [hw₂, hw₁]
    intro e he
    obtain ⟨s, hsm, rfl⟩ := List.mem_map.mp he
    exact number_of_mem_cut hle s ((keptSegments_sublist segs).subset hsm)
  have hmax : w₂.currentFileNumber < kMaxU32 := by
    rw [hw₂, hw₁]
    exact lt_trans hlt (by decide)
  simp only [openWal, hscan', hremove, rotateFile_succeeds hnum hmax]
  refine ⟨_, rfl, ?_⟩
  simp only [rotated]
  rw [hw₂, hw₁]

/-- **`Open` needs whole headers.** -/
theorem header_of_openWal {cfg : WalConfig} {segs : List Segment} {w w' : WriteAheadLog}
    (hs : SegmentsOn crc32 segs w.dir) (h : openWal crc32 cfg {} w = (w', .ok ())) :
    ∀ s ∈ segs, s.header = fileHeader := by
  unfold openWal at h
  simp only at h
  split at h
  · cases (Prod.mk.inj h).2
  rename_i w₁ hscan
  rcases scanExistingFiles_cases (w := close w) hs rfl hscan with ⟨-, -, hhead, -⟩ | ⟨e, he, -⟩
  · exact hhead
  · cases he

end Open

/-! ## 2. The machine -/

/-- A record in its file, and where in it the record ends. -/
structure Written where
  file : Nat
  endOffset : Nat
  record : WalRecord

/-- The bytes of the record are entirely there. -/
def Written.present (dir : Dir) (e : Written) : Bool :=
  (dir.lookup e.file).any fun bytes => decide (e.endOffset ≤ bytes.length)

/-- A log in use, with the records whose bytes are all there. -/
structure CrashRun where
  cfg : WalConfig
  wal : WriteAheadLog
  log : List Written := []

def CrashRun.initial (cfg : WalConfig) : CrashRun := { cfg := cfg, wal := { dir := [] } }

inductive CrashAction where
  | append (io : AppendIo) (now : Nat) (op : WalOpType) (payload : Bytes)
  | close
  /-- The process dies; of the newest segment file, `keep` bytes survive. -/
  | crash (keep : Nat)
  | open (cfg : WalConfig)

/-- The newest segment file is cut. -/
def Dir.crash (dir : Dir) (keep : Nat) : Dir :=
  match (dir.map (·.number)).max? with
  | none => dir
  | some n => dir.truncateTo n keep

section Machine

variable (crc32 : Bytes → UInt32)

/-- The record of an `Append` that took the next number, at the end of its file. -/
def attempted (w w' : WriteAheadLog) (now : Nat) (op : WalOpType) (payload : Bytes) :
    List Written :=
  if w'.currentSequence = w.currentSequence then []
  else
    let r : WalRecord := ⟨w'.currentSequence, now % 2 ^ 64, op.toByte, payload⟩
    let start := if w'.currentFileNumber = w.currentFileNumber then w.currentFileSize
      else kWalFileHeaderSize
    [⟨w'.currentFileNumber, start + (encodeRecord crc32 r).length, r⟩]

namespace CrashRun

/-- `Append`. Its record counts if its bytes are there, acknowledged or not. -/
def append (s : CrashRun) (io : AppendIo) (now : Nat) (op : WalOpType) (payload : Bytes) :
    CrashRun :=
  let w := (Storage.append crc32 s.cfg io now op payload s.wal).1
  { s with
    wal := w
    log := s.log ++ (attempted crc32 s.wal w now op payload).filter (Written.present w.dir) }

def close (s : CrashRun) : CrashRun := { s with wal := Storage.close s.wal }

/-- The object is gone, the records behind the cut too. -/
def crash (s : CrashRun) (keep : Nat) : CrashRun :=
  { s with
    wal := { dir := s.wal.dir.crash keep }
    log := s.log.filter (Written.present (s.wal.dir.crash keep)) }

/-- `Open`. -/
def «open» (s : CrashRun) (cfg : WalConfig) : CrashRun :=
  { s with cfg := cfg, wal := (openWal crc32 cfg {} s.wal).1 }

end CrashRun

def crashStep (s : CrashRun) : CrashAction → Option CrashRun
  | .append io now op payload => some (s.append crc32 io now op payload)
  | .close => some s.close
  | .crash keep => some (s.crash keep)
  | .open cfg => some (s.open crc32 cfg)

/-- File numbers stay within the six digits the scan reads. -/
def crashOk (s : CrashRun) : CrashAction → Prop
  | .append .. => hasRoom s.wal.dir
  | .open _ => hasRoom s.wal.dir
  | _ => True

instance (s : CrashRun) : ∀ a, Decidable (crashOk s a)
  | .append .. => inferInstanceAs (Decidable (hasRoom _))
  | .open _ => inferInstanceAs (Decidable (hasRoom _))
  | .close => isTrue trivial
  | .crash _ => isTrue trivial

/-- **What the next start gets**: `Open` succeeds, `Replay(0)` delivers the records whose bytes
    are there, in their order, and `Append` goes on behind the last of them. -/
def Recovers (cfg : WalConfig) (s : CrashRun) : Prop :=
  ∃ w, openWal crc32 cfg {} s.wal = (w, .ok ()) ∧
    (∀ (τ : Type) (callback : τ → WalRecord → Except Error τ) (init : τ),
      replayValidated crc32 cfg 0 callback init w =
        ((s.log.map (·.record)).foldlM callback init).map fun acc => (s.log.length, acc)) ∧
    ∀ now op payload, payload.length ≤ kMaxWalRecordBodySize - kWalRecordHeaderSize →
      maxSequenceOf (s.log.map (·.record)) < kMaxU64 →
      ∃ w', append crc32 cfg {} now op payload w =
        (w', .ok (maxSequenceOf (s.log.map (·.record)) + 1))

/-! ## 3. The records of the segments -/

/-- The records from an offset on, with their ends. -/
def writtenFrom (n offset : Nat) : List WalRecord → List Written
  | [] => []
  | r :: rs =>
    ⟨n, offset + (encodeRecord crc32 r).length, r⟩ ::
      writtenFrom n (offset + (encodeRecord crc32 r).length) rs

/-- The records of all segments. -/
def writtenOf (segs : List Segment) : List Written :=
  segs.flatMap fun s => writtenFrom crc32 s.number kWalFileHeaderSize s.records

variable {crc32}

theorem writtenFrom_append (n offset : Nat) (rs rs' : List WalRecord) :
    writtenFrom crc32 n offset (rs ++ rs') =
      writtenFrom crc32 n offset rs ++
        writtenFrom crc32 n (offset + (frames crc32 rs).length) rs' := by
  induction rs generalizing offset with
  | nil => rfl
  | cons r rs ih =>
    simp only [List.cons_append, writtenFrom, ih, frames_cons, List.length_append, Nat.add_assoc]

theorem map_record_writtenFrom (n offset : Nat) (rs : List WalRecord) :
    (writtenFrom crc32 n offset rs).map (·.record) = rs := by
  induction rs generalizing offset with
  | nil => rfl
  | cons r rs ih => rw [writtenFrom, List.map_cons, ih]

theorem map_record_writtenOf (segs : List Segment) :
    (writtenOf crc32 segs).map (·.record) = recordsOf segs := by
  rw [writtenOf, List.map_flatMap, recordsOf]
  exact List.flatMap_congr fun s _ => map_record_writtenFrom _ _ _

/-- Segments with the same records have written the same. -/
theorem writtenOf_eq_contents (segs : List Segment) :
    writtenOf crc32 segs =
      (contents segs).flatMap fun c => writtenFrom crc32 c.1 kWalFileHeaderSize c.2 := by
  induction segs with
  | nil => rfl
  | cons s segs ih =>
    have hcons : writtenOf crc32 (s :: segs) =
        writtenFrom crc32 s.number kWalFileHeaderSize s.records ++ writtenOf crc32 segs := rfl
    rw [hcons, ih]
    cases hr : s.records with
    | nil => simp [contents, hr, writtenFrom]
    | cons r rs => simp [contents, hr]

theorem writtenOf_append (segs segs' : List Segment) :
    writtenOf crc32 (segs ++ segs') = writtenOf crc32 segs ++ writtenOf crc32 segs' := by
  simp [writtenOf]

theorem writtenOf_singleton (s : Segment) :
    writtenOf crc32 [s] = writtenFrom crc32 s.number kWalFileHeaderSize s.records := by
  simp [writtenOf]

theorem mem_writtenFrom {n offset : Nat} {rs : List WalRecord} {e : Written}
    (h : e ∈ writtenFrom crc32 n offset rs) :
    e.file = n ∧ offset < e.endOffset ∧ e.endOffset ≤ offset + (frames crc32 rs).length := by
  induction rs generalizing offset with
  | nil => cases h
  | cons r rs ih =>
    have hlen : 0 < (encodeRecord crc32 r).length := by simp
    rw [frames_cons, List.length_append]
    rcases List.mem_cons.mp h with rfl | h
    · exact ⟨rfl, by simp only; omega, by simp only; omega⟩
    · obtain ⟨hn, hlo, hhi⟩ := ih h
      exact ⟨hn, by omega, by omega⟩

/-- **A cut at `keep`** leaves the records that end before it. -/
theorem filter_writtenFrom (n offset keep : Nat) (rs : List WalRecord) :
    (writtenFrom crc32 n offset rs).filter (fun e => decide (e.endOffset ≤ keep)) =
      writtenFrom crc32 n offset (fitting crc32 (keep - offset) rs) := by
  induction rs generalizing offset with
  | nil => rfl
  | cons r rs ih =>
    have hlen : 0 < (encodeRecord crc32 r).length := by simp
    by_cases hfit : offset + (encodeRecord crc32 r).length ≤ keep
    · rw [fitting, if_pos (by omega), writtenFrom, List.filter_cons_of_pos (by simpa using hfit), ih,
        writtenFrom, Nat.sub_add_eq]
    · rw [fitting, if_neg (by omega)]
      show List.filter _ (_ :: writtenFrom crc32 n _ rs) = []
      rw [List.filter_cons_of_neg (by simpa using hfit)]
      refine List.filter_eq_nil_iff.mpr fun e he => ?_
      obtain ⟨-, hlo, -⟩ := mem_writtenFrom he
      rw [decide_eq_true_eq]
      omega

theorem lookup_truncateTo (dir : Dir) (n keep m : Nat) :
    (dir.truncateTo n keep).lookup m =
      if m = n then (dir.lookup m).map (·.take keep) else dir.lookup m := by
  induction dir with
  | nil => simp [Dir.truncateTo, Dir.lookup]
  | cons e dir ih =>
    simp only [Dir.truncateTo, Dir.lookup, List.map_cons, List.find?_cons] at ih ⊢
    by_cases hm : e.number = m
    · subst hm
      by_cases hn : e.number = n <;> simp [hn]
    · by_cases hn : e.number = n
      · simp only [hn, if_true] at hm ⊢
        simp only [show (n == m) = false by simpa using hm]
        exact ih
      · simp only [if_neg hn, show (e.number == m) = false by simpa using hm]
        exact ih

/-- What the segments say is there, is there. -/
theorem SegmentsOn.present {segs : List Segment} {dir : Dir} (hs : SegmentsOn crc32 segs dir)
    {seg : Segment} (hseg : seg ∈ segs) {e : Written}
    (he : e ∈ writtenFrom crc32 seg.number kWalFileHeaderSize seg.records) :
    dir.lookup e.file = some (seg.bytes crc32) ∧ e.endOffset ≤ (seg.bytes crc32).length := by
  obtain ⟨hn, -, hhi⟩ := mem_writtenFrom he
  refine ⟨by rw [hn, hs.dir_eq]; exact lookup_entries hs.numbers_ne hseg, ?_⟩
  rcases hs.shape seg hseg with ⟨hhead, -⟩ | ⟨-, hrec, -⟩
  · simp only [Segment.bytes, hhead, List.length_append, length_fileHeader]
    simp only [kWalFileHeaderSize] at hhi
    omega
  · rw [hrec] at he
    cases he

/-! ## 4. The invariant -/

variable (crc32) in
/-- **The invariant**: the records in the segments follow each other directly, and the log is
    what is written there. -/
structure CrashInv (segs : List Segment) (s : CrashRun) : Prop where
  segments : SegmentsOn crc32 segs s.wal.dir
  files : FilesOn segs s.wal.files
  attached : s.wal.currentFd ≠ none →
    ∃ pre last, segs = pre ++ [last] ∧ Attached crc32 pre last s.wal
  contiguous : Contiguous none (recordsOf segs)
  log : s.log = writtenOf crc32 segs

theorem crashInv_initial (cfg : WalConfig) : CrashInv crc32 [] (CrashRun.initial cfg) where
  segments := ⟨rfl, List.Pairwise.nil, by simp, by simp, by simp, List.Pairwise.nil⟩
  files := fun f hf => by cases hf
  attached := fun h => absurd rfl h
  contiguous := trivial
  log := rfl

/-- The last of increasing numbers is the highest. -/
theorem lastSeen_eq {rs : List WalRecord} (h : rs.Pairwise fun a b => a.sequence < b.sequence)
    (hne : rs ≠ []) : lastSeen none rs = some (maxSequenceOf rs) := by
  induction rs using List.reverseRecOn with
  | nil => exact absurd rfl hne
  | append_singleton rs r _ =>
    have hmax : maxSequenceOf rs ≤ r.sequence := maxSequenceOf_le.2 fun r' hr' =>
      Nat.le_of_lt ((List.pairwise_append.mp h).2.2 r' hr' r (List.mem_singleton.mpr rfl))
    have hone : maxSequenceOf [r] = r.sequence := by simp [maxSequenceOf]
    rw [lastSeen_append, maxSequenceOf_append, hone, max_eq_right hmax]
    rfl

/-- A record with the next number goes on directly. -/
theorem contiguous_next {rs : List WalRecord} {r : WalRecord}
    (h : rs.Pairwise fun a b => a.sequence < b.sequence) (hc : Contiguous none rs)
    (hseq : rs ≠ [] → r.sequence = maxSequenceOf rs + 1) (hmax : r.sequence ≤ kMaxU64) :
    Contiguous none (rs ++ [r]) := by
  refine contiguous_append.2 ⟨hc, ?_, trivial⟩
  by_cases hne : rs = []
  · rw [hne]
    rfl
  · have hnext := hseq hne
    rw [lastSeen_eq h hne]
    simp only [breaksSequence, Bool.or_eq_false_iff, beq_eq_false_iff_ne, bne_eq_false_iff_eq]
    omega

theorem CrashInv.close {segs : List Segment} {s : CrashRun} (h : CrashInv crc32 segs s) :
    CrashInv crc32 segs s.close :=
  { h with attached := fun hfd => absurd rfl hfd }

theorem CrashInv.room {segs : List Segment} {s : CrashRun} (h : CrashInv crc32 segs s)
    (hroom : hasRoom s.wal.dir) : ∀ seg ∈ segs, seg.number < 999999 := by
  intro seg hseg
  refine hroom (seg.entry crc32) ?_
  rw [h.segments.dir_eq]
  exact List.mem_map_of_mem hseg

/-- The records do not change with what `Open` cuts off and removes. -/
theorem CrashInv.of_contents {segs segs' : List Segment} {s s' : CrashRun}
    (h : CrashInv crc32 segs s) (hs : SegmentsOn crc32 segs' s'.wal.dir)
    (hf : FilesOn segs' s'.wal.files) (hc : contents segs' = contents segs) (hlog : s'.log = s.log)
    (ha : s'.wal.currentFd ≠ none →
      ∃ pre last, segs' = pre ++ [last] ∧ Attached crc32 pre last s'.wal) :
    CrashInv crc32 segs' s' where
  segments := hs
  files := hf
  attached := ha
  contiguous := by
    rw [recordsOf_eq_of_contents hc]
    exact h.contiguous
  log := by rw [hlog, h.log, writtenOf_eq_contents, writtenOf_eq_contents, hc]

theorem contents_opened (segs : List Segment) (n : Nat) :
    contents (keptSegments segs ++ [freshSegment n]) = contents segs := by
  rw [contents_append, contents_keptSegments]
  simp [contents, freshSegment]

/-- **`Open`**, whether it succeeds or not. -/
theorem CrashInv.open {segs : List Segment} {s : CrashRun} (h : CrashInv crc32 segs s)
    (cfg : WalConfig) (hroom : hasRoom s.wal.dir) : ∃ segs', CrashInv crc32 segs' (s.open crc32 cfg) := by
  cases hres : openWal crc32 cfg {} s.wal with
  | mk w res =>
    have hwal : (s.open crc32 cfg).wal = w := by rw [CrashRun.open, hres]
    cases res with
    | ok u =>
      obtain ⟨n, -, -, hw, hs'⟩ := openWal_ok h.segments rfl (h.room hroom) hres
      refine ⟨keptSegments segs ++ [freshSegment n], h.of_contents ?_ ?_ (contents_opened segs n)
        rfl fun _ => ⟨keptSegments segs, freshSegment n, rfl, ?_⟩⟩
      · rw [hwal]
        exact hs'
      · rw [hwal, hw]
        exact filesOn_map _
      · rw [hwal, hw]
        exact attached_opened
    | error e =>
      obtain ⟨segs', hs', hcont, hf, hfd, -⟩ :=
        openWal_error h.segments rfl h.files (h.room hroom) hres
      refine ⟨segs', h.of_contents ?_ ?_ hcont rfl fun hne => ?_⟩
      · rw [hwal]
        exact hs'
      · rw [hwal]
        exact hf
      · rw [hwal] at hne
        exact absurd hfd hne

/-- The newest file is that of the last segment. -/
theorem SegmentsOn.newest {pre : List Segment} {last : Segment} {dir : Dir}
    (hs : SegmentsOn crc32 (pre ++ [last]) dir) :
    (dir.map (·.number)).max? = some last.number := by
  rw [List.max?_eq_some_iff]
  have hnum : dir.map (·.number) = (pre ++ [last]).map (·.number) := by
    rw [hs.dir_eq, List.map_map]
    rfl
  rw [hnum]
  refine ⟨List.mem_map_of_mem (by simp), fun n hn => ?_⟩
  obtain ⟨seg, hseg, rfl⟩ := List.mem_map.mp hn
  exact hs.number_le_last seg hseg

/-- The last segment, cut anywhere: within its header nothing is left of it. -/
theorem crash_last {pre : List Segment} {last : Segment} {dir : Dir}
    (hs : SegmentsOn crc32 (pre ++ [last]) dir) (keep : Nat) :
    ∃ last', SegmentsOn crc32 (pre ++ [last']) (dir.truncateTo last.number keep) ∧
      last'.number = last.number ∧
      last'.records = fitting crc32 (keep - kWalFileHeaderSize) last.records := by
  by_cases hkeep : kWalFileHeaderSize ≤ keep
  · exact cut_last hs hkeep
  · let last' : Segment := { number := last.number, header := (last.bytes crc32).take keep }
    have hbytes : last'.bytes crc32 = (last.bytes crc32).take keep := by
      simp [last', Segment.bytes]
    have hdir : dir.truncateTo last.number keep = (pre ++ [last']).map (Segment.entry crc32) := by
      rw [hs.dir_eq, Dir.truncateTo]
      exact @map_entries_at crc32 pre [] last last' hs.numbers_ne (fun b => b.take keep) rfl hbytes
    have hshort : last'.header.length < kWalFileHeaderSize :=
      lt_of_le_of_lt (List.length_take_le _ _) (Nat.lt_of_not_le hkeep)
    have hinc := hs.increasing
    rw [recordsOf_append, recordsOf_singleton] at hinc
    refine ⟨last', ?_, rfl, ?_⟩
    · rw [hdir]
      exact hs.replaceLast rfl (.inr ⟨hshort, rfl, rfl⟩) (fun r hr => by cases hr)
        (hinc.sublist (List.append_sublist_append_left _ |>.mpr (List.nil_sublist _)))
    · have hzero : keep - kWalFileHeaderSize = 0 := by omega
      rw [hzero]
      cases hr : last.records with
      | nil => rfl
      | cons r rs => rw [fitting, if_neg (by simp)]

/-- **A crash** at any byte. -/
theorem CrashInv.crash {segs : List Segment} {s : CrashRun} (h : CrashInv crc32 segs s)
    (keep : Nat) : ∃ segs', CrashInv crc32 segs' (s.crash keep) ∧
      ∀ seg' ∈ segs', ∃ seg ∈ segs, seg'.number = seg.number := by
  rcases List.eq_nil_or_concat segs with rfl | ⟨pre, last, hsegs⟩
  · have hdir : s.wal.dir = [] := h.segments.dir_eq
    have hlog : s.log = [] := h.log
    refine ⟨[], ⟨?_, (fun f hf => by cases hf), (fun hfd => absurd rfl hfd), trivial, ?_⟩, by simp⟩
    · simp only [CrashRun.crash, Dir.crash, hdir, List.map_nil, List.max?_nil]
      exact ⟨rfl, List.Pairwise.nil, by simp, by simp, by simp, List.Pairwise.nil⟩
    · simp only [CrashRun.crash, hlog]
      rfl
  · rw [List.concat_eq_append] at hsegs
    subst hsegs
    have hs := h.segments
    have hdir : s.wal.dir.crash keep = s.wal.dir.truncateTo last.number keep := by
      rw [Dir.crash, hs.newest]
    obtain ⟨last', hs', hnum, hrec⟩ := crash_last hs keep
    refine ⟨pre ++ [last'], ⟨?_, (fun f hf => by cases hf), (fun hfd => absurd rfl hfd), ?_, ?_⟩, ?_⟩
    · rw [← hdir] at hs'
      exact hs'
    · -- the records that are left are the first ones
      have hc := h.contiguous
      obtain ⟨lost, hlost⟩ := @fitting_isPrefix crc32 (keep - kWalFileHeaderSize) last.records
      rw [recordsOf_append, recordsOf_singleton, ← hlost, ← List.append_assoc] at hc
      rw [recordsOf_append, recordsOf_singleton, hrec]
      exact (contiguous_append.1 hc).1
    · have hpre : (writtenOf crc32 pre).filter (Written.present (s.wal.dir.crash keep)) =
          writtenOf crc32 pre := by
        refine List.filter_eq_self.mpr fun e he => ?_
        obtain ⟨seg, hseg, he⟩ := List.mem_flatMap.mp he
        have hne : e.file ≠ last.number := by
          rw [(mem_writtenFrom he).1]
          exact (List.pairwise_append.mp hs.numbers_ne).2.2 seg hseg last
            (List.mem_singleton.mpr rfl)
        obtain ⟨hlook, hend⟩ := hs.present (List.mem_append_left _ hseg) he
        rw [Written.present, hdir, lookup_truncateTo, if_neg hne, hlook]
        simpa using hend
      have hlast : (writtenOf crc32 [last]).filter (Written.present (s.wal.dir.crash keep)) =
          writtenOf crc32 [last'] := by
        rw [writtenOf_singleton, writtenOf_singleton, hnum, hrec, ← filter_writtenFrom]
        refine List.filter_congr fun e he => ?_
        obtain ⟨hlook, hend⟩ := hs.present (by simp) he
        have hn := (mem_writtenFrom he).1
        rw [Written.present, hdir, lookup_truncateTo, if_pos hn, hlook]
        simp only [Option.map_some, Option.any_some, List.length_take, decide_eq_decide]
        omega
      simp only [CrashRun.crash, h.log, writtenOf_append, List.filter_append, hpre, hlast]
    · intro seg' hseg'
      rcases List.mem_append.mp hseg' with hmem | hmem
      · exact ⟨seg', List.mem_append_left _ hmem, rfl⟩
      · rw [List.mem_singleton.mp hmem]
        exact ⟨last, by simp, hnum⟩

theorem Segment.length_bytes {seg : Segment} (h : seg.Sealed) :
    (seg.bytes crc32).length = kWalFileHeaderSize + (frames crc32 seg.records).length := by
  simp [Segment.bytes, h.1, h.2, kWalFileHeaderSize]

theorem writtenOf_push {pre : List Segment} {last : Segment} (h : last.Sealed) (r : WalRecord) :
    writtenOf crc32 (pre ++ [last.push r]) = writtenOf crc32 (pre ++ [last]) ++
      [⟨last.number, (last.bytes crc32).length + (encodeRecord crc32 r).length, r⟩] := by
  rw [writtenOf_append, writtenOf_append, writtenOf_singleton, writtenOf_singleton, Segment.push,
    writtenFrom_append, Segment.length_bytes h, List.append_assoc]
  rfl

/-- What `Append` attempted, once it has a segment to write to. -/
theorem attempted_eq {pre pre₁ : List Segment} {last last₁ : Segment} {w w₁ w' : WriteAheadLog}
    (now : Nat) (op : WalOpType) (payload : Bytes) (ha : Attached crc32 pre last w)
    (hbase : (pre₁ = pre ∧ last₁ = last ∧ w₁ = w) ∨
      (pre₁ = pre ++ [last] ∧ last₁ = freshSegment (last.number + 1) ∧ w₁ = rotated w))
    (hseq : w'.currentSequence = w₁.currentSequence + 1)
    (hnum : w'.currentFileNumber = last₁.number) :
    attempted crc32 w w' now op payload =
      [⟨last₁.number, (last₁.bytes crc32).length +
        (encodeRecord crc32 (nextRecord w₁ now op payload)).length,
        nextRecord w₁ now op payload⟩] := by
  have hsame : w₁.currentSequence = w.currentSequence := by
    rcases hbase with ⟨-, -, rfl⟩ | ⟨-, -, rfl⟩ <;> rfl
  have hstart : (if w'.currentFileNumber = w.currentFileNumber then w.currentFileSize
      else kWalFileHeaderSize) = (last₁.bytes crc32).length := by
    rcases hbase with ⟨-, rfl, -⟩ | ⟨-, rfl, -⟩
    · rw [if_pos (hnum.trans ha.number.symm), ha.size]
    · have hne : w'.currentFileNumber ≠ w.currentFileNumber := by
        rw [hnum, ha.number]
        simp only [freshSegment]
        omega
      rw [if_neg hne, Segment.length_bytes (freshSegment_sealed _)]
      rfl
  rw [attempted, if_neg (by omega)]
  simp only [hstart]
  rw [hnum, hseq]
  rfl

/-- **`Append`**, with every way it can fail. -/
theorem CrashInv.append {segs : List Segment} {s : CrashRun} (h : CrashInv crc32 segs s)
    (io : AppendIo) (now : Nat) (op : WalOpType) (payload : Bytes) (hroom : hasRoom s.wal.dir) :
    ∃ segs', CrashInv crc32 segs' (s.append crc32 io now op payload) := by
  by_cases hfd : s.wal.currentFd = none
  · refine ⟨segs, ?_⟩
    simp only [CrashRun.append, append_of_closed hfd, attempted, if_true, List.filter_nil,
      List.append_nil]
    exact h
  obtain ⟨pre, last, rfl, ha⟩ := h.attached hfd
  cases happ : Storage.append crc32 s.cfg io now op payload s.wal with
  | mk w' res =>
    rcases append_cases ha h.segments (h.room hroom last (by simp)) happ with
      ⟨e, -, rfl⟩ | ⟨e, segs', -, hseq, hd⟩ | ⟨-, hmax, hlen, pre₁, last₁, w₁, ha₁, hs₁, hbase, hw⟩
    · refine ⟨pre ++ [last], ?_⟩
      simp only [CrashRun.append, happ, attempted, if_true, List.filter_nil, List.append_nil]
      exact h
    · refine ⟨segs', ?_⟩
      simp only [CrashRun.append, happ, attempted, hseq, if_true, List.filter_nil, List.append_nil]
      exact h.of_contents hd.segments hd.files hd.contents rfl fun hne => absurd hd.fd hne
    · have hseq₁ : w₁.currentSequence = s.wal.currentSequence := by
        rcases hbase with ⟨-, -, rfl⟩ | ⟨-, -, rfl⟩ <;> rfl
      have hnext := @writeRecord_sequence crc32 s.cfg io.write now op payload w₁
      rw [hw] at hnext
      obtain ⟨hnum, hcase⟩ := writeRecord_cases ha₁ hs₁ (hseq₁ ▸ hmax) hlen hw
      have hatt := attempted_eq now op payload ha hbase hnext hnum
      have hcont : contents (pre₁ ++ [last₁]) = contents (pre ++ [last]) := by
        rcases hbase with ⟨rfl, rfl, -⟩ | ⟨rfl, rfl, -⟩
        · rfl
        · rw [contents_append]
          simp [contents, freshSegment]
      have hbefore : CrashInv crc32 (pre₁ ++ [last₁]) { s with wal := w₁ } :=
        h.of_contents hs₁ (ha₁.files ▸ filesOn_map _) hcont rfl fun _ => ⟨pre₁, last₁, rfl, ha₁⟩
      -- a complete record, acknowledged or not
      have hpush : SegmentsOn crc32 (pre₁ ++ [last₁.push (nextRecord w₁ now op payload)]) w'.dir →
          Contiguous none (recordsOf (pre₁ ++ [last₁.push (nextRecord w₁ now op payload)])) ∧
          s.log ++ (attempted crc32 s.wal w' now op payload).filter (Written.present w'.dir) =
            writtenOf crc32 (pre₁ ++ [last₁.push (nextRecord w₁ now op payload)]) := by
        intro hs'
        constructor
        · have hrec : recordsOf (pre₁ ++ [last₁.push (nextRecord w₁ now op payload)]) =
              recordsOf (pre₁ ++ [last₁]) ++ [nextRecord w₁ now op payload] := by
            simp [recordsOf, Segment.push]
          rw [hrec]
          refine contiguous_next hs₁.increasing hbefore.contiguous (fun _ => ?_) ?_
          · rw [nextRecord, ha₁.sequence]
          · exact (nextRecord_fits (hseq₁ ▸ hmax) hlen).sequence
        · have hlook : w'.dir.lookup last₁.number =
              some ((last₁.push (nextRecord w₁ now op payload)).bytes crc32) := by
            rw [hs'.dir_eq]
            exact lookup_entries hs'.numbers_ne
              (s := last₁.push (nextRecord w₁ now op payload)) (by simp)
          rw [hatt, writtenOf_push ha₁.isSealed, ← hbefore.log]
          congr 1
          refine List.filter_eq_self.mpr fun e he => ?_
          rw [List.mem_singleton.mp he, Written.present, hlook, Segment.bytes_push ha₁.isSealed]
          simp
      rcases hcase with ⟨-, -, hs', ha'⟩ | ⟨e, -, -, hfd', last', hlast', hs', hf'⟩
      · obtain ⟨hc', hlog'⟩ := hpush hs'
        refine ⟨pre₁ ++ [last₁.push (nextRecord w₁ now op payload)], ?_⟩
        simp only [CrashRun.append, happ]
        exact ⟨hs', ha'.files ▸ filesOn_map _, fun _ => ⟨_, _, rfl, ha'⟩, hc', hlog'⟩
      · refine ⟨pre₁ ++ [last'], ?_⟩
        simp only [CrashRun.append, happ]
        rcases hlast' with ⟨rfl, -⟩ | ⟨tail, rfl, hshort⟩
        · obtain ⟨hc', hlog'⟩ := hpush hs'
          exact ⟨hs', hf', fun hne => absurd hfd' hne, hc', hlog'⟩
        · -- a torn record ends behind its file
          have hlook : w'.dir.lookup last₁.number =
              some (({ last₁ with tail := tail } : Segment).bytes crc32) := by
            rw [hs'.dir_eq]
            exact lookup_entries hs'.numbers_ne (s := { last₁ with tail := tail }) (by simp)
          have hnone : (attempted crc32 s.wal w' now op payload).filter
              (Written.present w'.dir) = [] := by
            rw [hatt]
            refine List.filter_eq_nil_iff.mpr fun e he => ?_
            rw [List.mem_singleton.mp he, Written.present, hlook]
            simp only [Option.any_some, decide_eq_true_eq, Segment.bytes, List.length_append,
              ha₁.isSealed.2, List.length_nil]
            omega
          rw [hnone, List.append_nil]
          have hsame : contents (pre₁ ++ [{ last₁ with tail := tail }]) =
              contents (pre₁ ++ [last₁]) := by
            rw [contents_append, contents_append]
            cases hr : last₁.records <;> simp [contents, hr]
          exact hbefore.of_contents hs' hf' hsame rfl fun hne => absurd hfd' hne

theorem CrashInv.step {segs : List Segment} {s s' : CrashRun} {a : CrashAction}
    (h : CrashInv crc32 segs s) (hok : crashOk s a) (hstep : crashStep crc32 s a = some s') :
    ∃ segs', CrashInv crc32 segs' s' := by
  cases a with
  | append io now op payload =>
    obtain rfl := Option.some.inj hstep
    exact h.append io now op payload hok
  | close =>
    obtain rfl := Option.some.inj hstep
    exact ⟨segs, h.close⟩
  | crash keep =>
    obtain rfl := Option.some.inj hstep
    obtain ⟨segs', h', -⟩ := h.crash keep
    exact ⟨segs', h'⟩
  | «open» cfg =>
    obtain rfl := Option.some.inj hstep
    exact h.open cfg hok

theorem crashInv_run {cfg : WalConfig} {acts : List CrashAction} {s : CrashRun}
    (hrun : run (crashStep crc32) (.initial cfg) acts = some s)
    (hok : Meets (crashStep crc32) crashOk (.initial cfg) acts) :
    ∃ segs, CrashInv crc32 segs s := by
  have hstep : ∀ s a s', (∃ segs, CrashInv crc32 segs s) → crashOk s a →
      crashStep crc32 s a = some s' → ∃ segs, CrashInv crc32 segs s' := by
    rintro s a s' ⟨segs, h⟩ hok hstep
    exact h.step hok hstep
  exact run_inv_of_meets hstep ⟨[], crashInv_initial cfg⟩ hok hrun

/-! ## 5. Crash tolerance -/

/-- A file is longer than its header exactly if the header is whole. -/
theorem SegmentsOn.headers {segs : List Segment} {dir : Dir} (hs : SegmentsOn crc32 segs dir) :
    (∀ e ∈ dir, kWalFileHeaderSize ≤ e.bytes.length) ↔ ∀ seg ∈ segs, seg.header = fileHeader := by
  rw [hs.dir_eq, List.forall_mem_map]
  refine forall₂_congr fun seg hseg => ?_
  simp only [Segment.entry, Segment.bytes, List.length_append]
  rcases hs.shape seg hseg with ⟨hhead, -⟩ | ⟨hshort, hrec, htail⟩
  · simp only [hhead, length_fileHeader, kWalFileHeaderSize]
    exact iff_of_true (by omega) trivial
  · refine iff_of_false ?_ fun hhead => ?_
    · simp only [hrec, htail, frames_nil, List.length_nil]
      omega
    · rw [hhead] at hshort
      simp [kWalFileHeaderSize] at hshort

/-- An `Append` to the segment `Open` made does not rotate. -/
theorem append_opened {cfg : WalConfig} {segs : List Segment} {n now : Nat} {op : WalOpType}
    {payload : Bytes} (hlen : payload.length ≤ kMaxWalRecordBodySize - kWalRecordHeaderSize)
    (hmax : maxSequenceOf (recordsOf segs) < kMaxU64) :
    ∃ w', append crc32 cfg {} now op payload (opened crc32 segs n) =
      (w', .ok (maxSequenceOf (recordsOf segs) + 1)) := by
  have hopen : ¬ (¬ (opened crc32 segs n).isOpen = true ∨ (opened crc32 segs n).currentFd = none) := by
    simp [opened]
  have hseq : ¬ (opened crc32 segs n).currentSequence = kMaxU64 := Nat.ne_of_lt hmax
  have hrotate : ¬ needsRotation cfg (opened crc32 segs n)
      (8 + (kWalRecordHeaderSize + payload.length)) := by
    simp [needsRotation, opened]
  unfold append
  rw [if_neg hopen, if_neg hseq, if_neg (Nat.not_lt.mpr hlen), if_neg hrotate,
    writeRecord_complete (n := n) rfl (fun k => by simp)]
  exact ⟨_, if_neg (by simp)⟩

/-- **Crash tolerance.** After every run of appends (with every failure of their writes and
    rotations), closes, crashes and opens, and a crash that keeps any part of the newest segment
    file, the next `Open` succeeds, `Replay(0)` delivers exactly the records whose bytes are
    entirely there and `Append` goes on with the next number, if and only if the newest segment
    file has kept its header. -/
theorem crash_tolerance {cfg : WalConfig} {acts : List CrashAction} {s : CrashRun}
    (hrun : run (crashStep crc32) (.initial cfg) acts = some s)
    (hok : Meets (crashStep crc32) crashOk (.initial cfg) acts) (hroom : hasRoom s.wal.dir)
    (keep : Nat) (cfg' : WalConfig) :
    Recovers crc32 cfg' (s.crash keep) ↔
      ∀ e ∈ (s.crash keep).wal.dir, kWalFileHeaderSize ≤ e.bytes.length := by
  obtain ⟨segs₀, h₀⟩ := crashInv_run hrun hok
  obtain ⟨segs, h, hnumbers⟩ := h₀.crash keep
  have hrecords : (s.crash keep).log.map (·.record) = recordsOf segs := by
    rw [h.log, map_record_writtenOf]
  have hlength : (s.crash keep).log.length = (recordsOf segs).length := by
    rw [← hrecords, List.length_map]
  rw [h.segments.headers]
  constructor
  · rintro ⟨w, hopen, -⟩
    exact header_of_openWal h.segments hopen
  · intro hhead
    have hroom' : ∀ seg ∈ segs, seg.number < 999999 := by
      intro seg hseg
      obtain ⟨seg₀, hseg₀, hn⟩ := hnumbers seg hseg
      exact hn ▸ h₀.room hroom seg₀ hseg₀
    obtain ⟨n, hopen, -, hs'⟩ := openWal_succeeds h.segments hhead h.contiguous hroom'
    refine ⟨_, hopen, fun τ callback init => ?_, fun now op payload hlen hmax => ?_⟩
    · have hrec : recordsOf (keptSegments segs ++ [freshSegment n]) = recordsOf segs :=
        recordsOf_eq_of_contents (contents_opened segs n)
      have hall : (recordsOf segs).filter (fun r => decide (0 ≤ r.sequence)) = recordsOf segs := by
        simp
      rw [replayValidated_eq hs' (attached_opened.all_sealed hs') rfl (hrec ▸ h.contiguous), hrec,
        hrecords, hlength, hall]
      cases (recordsOf segs).foldlM callback init with
      | error e => rfl
      | ok acc => rfl
    · rw [hrecords] at hmax ⊢
      exact append_opened hlen hmax

end Machine

/-- Segments of 40 bytes: one record each. -/
def smallSegments : WalConfig := ⟨"wal", 40, false⟩

/-- One record is acknowledged; the second needs a new segment, and of its header only three
    bytes are written. -/
def tornHeaderRun : List CrashAction :=
  [.open smallSegments, .append {} 0 .kVecDel [1], .append { rotate := .header 3 } 0 .kVecDel [2]]

/-- **A torn header stops the server**: the first record is still there, but the next `Open`
    fails, whatever the crash keeps. -/
theorem torn_header_refused :
    ∃ s, run (crashStep crc32) (.initial smallSegments) tornHeaderRun = some s ∧
      (s.crash 8).log.map (·.record.sequence) = [1] ∧ ¬ Recovers crc32 smallSegments (s.crash 8) := by
  have hrun : (run (crashStep crc32) (.initial smallSegments) tornHeaderRun).map (fun s =>
      ((s.crash 8).log.map (·.record.sequence),
        (openWal crc32 smallSegments {} (s.crash 8).wal).2.toOption)) = some ([1], none) := by
    decide +kernel
  obtain ⟨s, hs, he⟩ := Option.map_eq_some_iff.mp hrun
  obtain ⟨hlog, hopen⟩ := Prod.mk.inj he
  refine ⟨s, hs, hlog, ?_⟩
  rintro ⟨w, hw, -⟩
  rw [hw] at hopen
  cases hopen

/-- Three records in three segments, the last one torn. -/
def tornRecordRun : List CrashAction :=
  [.open smallSegments, .append {} 0 .kVecDel [1], .append {} 0 .kVecDel [2],
    .append {} 0 .kVecDel [3]]

/-- Of the third record twelve bytes are left: the first two are recovered. -/
theorem crash_tolerance_tornRecordRun :
    ∃ s, run (crashStep crc32) (.initial smallSegments) tornRecordRun = some s ∧
      (s.crash 20).log.map (·.record.sequence) = [1, 2] ∧
      Recovers crc32 smallSegments (s.crash 20) := by
  have hrun : (run (crashStep crc32) (.initial smallSegments) tornRecordRun).map (fun s =>
      ((s.crash 20).log.map (·.record.sequence), decide (hasRoom s.wal.dir),
        decide (∀ e ∈ (s.crash 20).wal.dir, kWalFileHeaderSize ≤ e.bytes.length))) =
      some ([1, 2], true, true) := by decide +kernel
  have hok : Meets (crashStep crc32) crashOk (.initial smallSegments) tornRecordRun := by
    decide +kernel
  obtain ⟨s, hs, he⟩ := Option.map_eq_some_iff.mp hrun
  simp only [Prod.mk.injEq, decide_eq_true_eq] at he
  exact ⟨s, hs, he.1, (crash_tolerance hs hok he.2.1 20 smallSegments).mpr he.2.2⟩

end Nvecd.Storage
