/-
  File:      Nvecd/Storage/WalNames.lean
  Subject:   The names of WAL segments (`MakeFilePath`, `RotateFile`, `ScanExistingFiles`): which
             segments of a directory the next `Open` finds.

  A number is printed with at least six digits and looked for with exactly six. What a scan does
  not recognise stays in the directory: it is not read and not removed.

  * `makeFileName_injective` -- two numbers never have one name;
  * `Dir.Numbered`, `numbered_run` -- in every run the numbers are distinct and in range;
  * `scanExistingFiles_files` -- a scan takes up what is listed;
  * `segments_found` -- and what is listed is everything, if all numbers have six digits;
  * `openThere_run`, `append_writes` -- in every run the file that is written to is there, and an
    append that succeeds has added its record to one file.
-/
import Nvecd.Storage.WalRun

namespace Nvecd.Storage

open Nvecd.Lib Nvecd.Utils

/-! ## 1. Names -/

theorem ofDigitChars_padded (n : Nat) :
    Nat.ofDigitChars 10 (List.replicate (6 - (Nat.toDigits 10 n).length) '0' ++ Nat.toDigits 10 n)
      0 = n := by
  rw [Nat.ofDigitChars_append, Nat.ofDigitChars_replicate_zero, Nat.mul_zero]
  exact Nat.ofDigitChars_toDigits (by decide) (by decide)

theorem makeFileName_injective {m n : Nat} (h : makeFileName m = makeFileName n) : m = n := by
  have hdigits := List.append_cancel_left (List.append_cancel_right h)
  rw [← ofDigitChars_padded m, hdigits, ofDigitChars_padded]

/-! ## 2. Numbers -/

namespace Dir

def numbers (dir : Dir) : List Nat := dir.map (·.number)

@[simp] theorem numbers_append (dir : Dir) (n : Nat) (bytes : Bytes) :
    (dir.append n bytes).numbers = dir.numbers := by
  simp only [numbers, append, List.map_map]
  refine List.map_congr_left fun e _ => ?_
  simp only [Function.comp]
  split <;> rfl

@[simp] theorem numbers_truncateTo (dir : Dir) (n length : Nat) :
    (dir.truncateTo n length).numbers = dir.numbers := by
  simp only [numbers, truncateTo, List.map_map]
  refine List.map_congr_left fun e _ => ?_
  simp only [Function.comp]
  split <;> rfl

/-- **Numbers `RotateFile` can use**, each once. -/
structure Numbered (dir : Dir) : Prop where
  nodup : dir.numbers.Nodup
  range : ∀ n ∈ dir.numbers, 1 ≤ n ∧ n ≤ kMaxU32

theorem Numbered.of_sublist {dir dir' : Dir} (h : dir.Numbered)
    (hsub : dir'.numbers.Sublist dir.numbers) : dir'.Numbered :=
  ⟨h.nodup.sublist hsub, fun n hn => h.range n (hsub.subset hn)⟩

theorem Numbered.of_numbers_eq {dir dir' : Dir} (h : dir.Numbered)
    (heq : dir'.numbers = dir.numbers) : dir'.Numbered := h.of_sublist (heq ▸ List.Sublist.refl _)

theorem sublist_unlink (dir : Dir) (n : Nat) : (dir.unlink n).numbers.Sublist dir.numbers :=
  List.filter_sublist.map _

theorem sublist_unlinkAll (fs : List WalFile) (dir : Dir) :
    (fs.foldl (fun dir f => dir.unlink f.fileNumber) dir).numbers.Sublist dir.numbers := by
  induction fs generalizing dir with
  | nil => exact .refl _
  | cons f fs ih => exact (ih _).trans (sublist_unlink dir f.fileNumber)

theorem Numbered.create {dir : Dir} (h : dir.Numbered) {n : Nat} (bytes : Bytes)
    (hnew : n ∉ dir.numbers) (hrange : 1 ≤ n ∧ n ≤ kMaxU32) :
    Numbered (dir ++ [⟨n, bytes⟩]) := by
  have heq : Dir.numbers (dir ++ [⟨n, bytes⟩]) = dir.numbers ++ [n] := by simp [numbers]
  refine ⟨?_, fun k hk => ?_⟩
  · rw [heq, List.nodup_append]
    exact ⟨h.nodup, List.nodup_singleton n, fun a ha b hb hab =>
      hnew (List.mem_singleton.mp hb ▸ hab ▸ ha)⟩
  · rw [heq, List.mem_append, List.mem_singleton] at hk
    rcases hk with hk | rfl
    · exact h.range k hk
    · exact hrange

end Dir

theorem nextFileNumber_spec {dir : Dir} {turns n m : Nat} (hn : n ≤ kMaxU32)
    (h : nextFileNumber dir turns n = some m) : m ∉ dir.numbers ∧ 1 ≤ m ∧ m ≤ kMaxU32 := by
  induction turns generalizing n with
  | zero => cases h
  | succ turns ih =>
    unfold nextFileNumber at h
    split at h
    · cases h
    · rename_i hmax
      have hle : n + 1 ≤ kMaxU32 := Nat.lt_of_le_of_ne hn hmax
      split at h
      · exact ih hle h
      · rename_i hfree
        cases h
        refine ⟨fun hmem => hfree ?_, Nat.le_add_left 1 n, hle⟩
        obtain ⟨e, he, hnumber⟩ := List.mem_map.mp hmem
        exact List.any_eq_true.mpr ⟨e, he, beq_iff_eq.mpr hnumber⟩

/-! ## 3. Runs -/

/-- The directory is numbered, and so far is the object. -/
structure WriteAheadLog.Numbered (w : WriteAheadLog) : Prop where
  dir : w.dir.Numbered
  current : w.currentFileNumber ≤ kMaxU32

namespace WriteAheadLog.Numbered

variable {w : WriteAheadLog} {crc32 : Bytes → UInt32}

theorem rotateFile (h : w.Numbered) (cfg : WalConfig) (io : RotateIo) : (rotateFile cfg io w).1.Numbered := by
  unfold Storage.rotateFile
  split
  · exact h
  · split
    · exact ⟨h.dir, h.current⟩
    · dsimp only
      split
      · exact ⟨h.dir, Nat.le_refl _⟩
      · rename_i n hn
        obtain ⟨hnew, hrange⟩ := nextFileNumber_spec h.current hn
        have hfresh : ∀ bytes, Dir.Numbered (w.dir ++ [⟨n, bytes⟩]) := fun bytes =>
          h.dir.create bytes hnew hrange
        unfold createSegment
        split
        · exact ⟨h.dir, hrange.2⟩
        · exact ⟨hfresh _, hrange.2⟩
        · exact ⟨h.dir, hrange.2⟩
        · exact ⟨h.dir, hrange.2⟩
        · exact ⟨hfresh _, hrange.2⟩

theorem writeRecord (h : w.Numbered) (cfg : WalConfig) (io : WriteIo) (now : Nat)
    (op : WalOpType) (payload : Bytes) : (writeRecord crc32 cfg io now op payload w).1.Numbered := by
  unfold Storage.writeRecord
  dsimp only
  split
  · exact ⟨h.dir, h.current⟩
  · split
    · exact ⟨h.dir.of_numbers_eq (Dir.numbers_append _ _ _), h.current⟩
    · split
      · exact ⟨h.dir.of_numbers_eq (Dir.numbers_append _ _ _), h.current⟩
      · exact ⟨h.dir.of_numbers_eq (Dir.numbers_append _ _ _), h.current⟩

variable (crc32) in
theorem append (h : w.Numbered) (cfg : WalConfig) (io : AppendIo) (now : Nat) (op : WalOpType)
    (payload : Bytes) : (append crc32 cfg io now op payload w).1.Numbered := by
  unfold Storage.append
  split
  · exact h
  split
  · exact h
  split
  · exact h
  split
  · have hsealed : WriteAheadLog.Numbered
        { w with files := setBackMax w.files w.currentSequence } := ⟨h.dir, h.current⟩
    have hrotated := hsealed.rotateFile cfg io.rotate
    dsimp only
    split
    · exact hrotated
    · exact hrotated.writeRecord cfg io.write now op payload
  · exact h.writeRecord cfg io.write now op payload

theorem truncate (h : w.Numbered) (cfg : WalConfig) (io : TruncateIo) (upTo : Nat) :
    (truncate cfg io upTo w).1.Numbered := by
  have hdir : ∀ fs : List WalFile,
      Dir.Numbered (fs.foldl (fun dir f => dir.unlink f.fileNumber) w.dir) := fun fs =>
    h.dir.of_sublist (Dir.sublist_unlinkAll fs w.dir)
  unfold Storage.truncate
  dsimp only
  split
  · exact ⟨hdir _, h.current⟩
  · split
    · exact ⟨hdir _, h.current⟩
    · exact ⟨hdir _, h.current⟩

theorem scanSegments (cfg : WalConfig) (io : Bool) {ns : List Nat} {previous : Option Nat}
    (h : w.Numbered) (hns : ∀ n ∈ ns, n ≤ kMaxU32) : (scanSegments crc32 cfg io ns previous w).1.Numbered := by
  induction ns generalizing previous w with
  | nil => exact h
  | cons n ns ih =>
    unfold Storage.scanSegments
    split
    · exact h
    · split
      · exact h
      · split
        · exact h
        · refine ih ⟨h.dir.of_numbers_eq (Dir.numbers_truncateTo _ _ _), ?_⟩ fun m hm =>
            hns m (List.mem_cons_of_mem n hm)
          exact Nat.max_le.mpr ⟨h.current, hns n List.mem_cons_self⟩

end WriteAheadLog.Numbered

/-- **The listing**: the numbers of six digits, sorted. -/
theorem listedNumbers_eq (dir : Dir) :
    listedNumbers dir = (dir.numbers.filter (· < 1000000)).insertionSort (· ≤ ·) := by
  have hlist : (dir.filterMap fun e => fileNumberOf (makeFileName e.number)) =
      dir.numbers.filter (· < 1000000) := by
    induction dir with
    | nil => rfl
    | cons e dir ih =>
      by_cases hsix : e.number < 1000000
      · have hname : fileNumberOf (makeFileName e.number) = some e.number := by
          rw [fileNumberOf_makeFileName, if_pos hsix]
        rw [List.filterMap_cons, hname, ih]
        simp [Dir.numbers, hsix]
      · have hname : fileNumberOf (makeFileName e.number) = none := by
          rw [fileNumberOf_makeFileName, if_neg hsix]
        rw [List.filterMap_cons, hname, ih]
        simp [Dir.numbers, hsix]
  rw [listedNumbers, hlist]

theorem mem_listedNumbers {dir : Dir} {n : Nat} :
    n ∈ listedNumbers dir ↔ n ∈ dir.numbers ∧ n < 1000000 := by
  rw [listedNumbers_eq, List.mem_insertionSort, List.mem_filter, decide_eq_true_eq]

theorem Dir.Numbered.listed_increasing {dir : Dir} (h : dir.Numbered) :
    (listedNumbers dir).Pairwise (· < ·) := by
  rw [listedNumbers_eq]
  have hnodup : ((dir.numbers.filter (· < 1000000)).insertionSort (· ≤ ·)).Nodup :=
    (List.perm_insertionSort _ _).nodup_iff.mpr (h.nodup.filter _)
  exact (List.sortedLE_insertionSort.sortedLT_of_nodup hnodup).pairwise

section Machine

variable {crc32 : Bytes → UInt32} {w : WriteAheadLog}

/-- A scan that succeeds takes up the segments it was given, in their order. -/
theorem scanSegments_files {cfg : WalConfig} {ftruncateFails : Bool} {ns : List Nat}
    {previous : Option Nat} {w' : WriteAheadLog}
    (h : scanSegments crc32 cfg ftruncateFails ns previous w = (w', .ok ())) :
    w'.files.map (·.fileNumber) = w.files.map (·.fileNumber) ++ ns := by
  induction ns generalizing previous w with
  | nil =>
    cases h
    rw [List.append_nil]
  | cons n ns ih =>
    unfold scanSegments at h
    split at h
    · cases h
    · split at h
      · cases h
      · split at h
        · cases h
        · rw [ih h]
          simp

/-- A scan takes up what is listed, unless the directory cannot be listed. -/
theorem scanExistingFiles_files {cfg : WalConfig} {io : OpenIo} {w' : WriteAheadLog}
    (hlist : io.opendirFails = false)
    (h : scanExistingFiles crc32 cfg io w = (w', .ok ())) :
    w'.files.map (·.fileNumber) = listedNumbers w.dir := by
  unfold scanExistingFiles at h
  rw [hlist] at h
  simp only [Bool.false_eq_true, if_false] at h
  split at h
  · exact scanSegments_files h
  · cases h

variable (crc32) in
theorem WriteAheadLog.Numbered.scanExistingFiles (h : w.Numbered) (cfg : WalConfig)
    (io : OpenIo) : (scanExistingFiles crc32 cfg io w).1.Numbered := by
  have hclear : WriteAheadLog.Numbered
      { w with files := [], currentSequence := 0, currentFileNumber := 0 } :=
    ⟨h.dir, Nat.zero_le _⟩
  unfold Storage.scanExistingFiles
  dsimp only
  split
  · exact hclear
  · split
    · exact hclear.scanSegments cfg io.ftruncateFails fun n hn =>
        (h.dir.range n (mem_listedNumbers.1 hn).1).2
    · exact hclear

theorem WriteAheadLog.Numbered.removeEmptySegments (h : w.Numbered) (io : OpenIo) :
    (removeEmptySegments io w).1.Numbered := by
  have hdir : ∀ fs : List WalFile,
      Dir.Numbered (fs.foldl (fun dir f => dir.unlink f.fileNumber) w.dir) := fun fs =>
    h.dir.of_sublist (Dir.sublist_unlinkAll fs w.dir)
  unfold Storage.removeEmptySegments
  dsimp only
  split
  · exact ⟨hdir _, h.current⟩
  · split
    · exact ⟨hdir _, h.current⟩
    · exact ⟨hdir _, h.current⟩

variable (crc32) in
theorem WriteAheadLog.Numbered.openWal (h : w.Numbered) (cfg : WalConfig) (io : OpenIo) :
    (openWal crc32 cfg io w).1.Numbered := by
  have hclosed : (close w).Numbered := ⟨h.dir, h.current⟩
  have hscanned := hclosed.scanExistingFiles crc32 cfg io
  unfold Storage.openWal
  dsimp only
  split
  · exact hclosed
  · split
    · rename_i w₁ e hscan
      rw [hscan] at hscanned
      exact hscanned
    · rename_i w₁ hscan
      rw [hscan] at hscanned
      have hemptied := hscanned.removeEmptySegments io
      split
      · rename_i w₂ e hremove
        rw [hremove] at hemptied
        exact hemptied
      · rename_i w₂ hremove
        rw [hremove] at hemptied
        have hrotated := hemptied.rotateFile cfg io.rotate
        split
        · rename_i w₃ e hrotate
          rw [hrotate] at hrotated
          exact hrotated
        · rename_i w₃ hrotate
          rw [hrotate] at hrotated
          exact ⟨hrotated.dir, hrotated.current⟩

theorem numbered_step (s : WalRun) (a : WalAction) (s' : WalRun) (h : s.wal.Numbered)
    (hstep : walStep crc32 s a = some s') : s'.wal.Numbered := by
  cases a with
  | append io now op payload =>
    obtain rfl := Option.some.inj hstep
    have happ := h.append crc32 s.cfg io now op payload
    unfold WalRun.append
    split
    · rename_i w seq happend
      rw [happend] at happ
      exact happ
    · rename_i w e happend
      rw [happend] at happ
      exact happ
  | truncate io upTo =>
    obtain rfl := Option.some.inj hstep
    exact h.truncate s.cfg io upTo
  | close =>
    obtain rfl := Option.some.inj hstep
    exact ⟨h.dir, h.current⟩
  | syncFails =>
    obtain rfl := Option.some.inj hstep
    exact ⟨h.dir, h.current⟩
  | crash keep =>
    obtain rfl := Option.some.inj hstep
    refine ⟨?_, Nat.zero_le _⟩
    unfold WalRun.crash
    dsimp only
    split
    · exact h.dir
    · exact h.dir.of_numbers_eq (Dir.numbers_truncateTo _ _ _)
  | «open» cfg io =>
    obtain rfl := Option.some.inj hstep
    have hopen := h.openWal crc32 cfg io
    unfold WalRun.open
    split
    · rename_i w hok
      rw [hok] at hopen
      exact hopen
    · rename_i w e herror
      rw [herror] at hopen
      exact hopen

/-- **In every run** the numbers of the segments are distinct and in range. -/
theorem numbered_run {cfg : WalConfig} {acts : List WalAction} {s : WalRun}
    (h : run (walStep crc32) (WalRun.initial cfg) acts = some s) : s.wal.Numbered :=
  run_inv (fun s a s' hs hstep => numbered_step s a s' hs hstep)
    (⟨⟨List.nodup_nil, nofun⟩, Nat.zero_le _⟩ : (WalRun.initial cfg).wal.Numbered) h

/-- **Which segments are found again**: a number that `RotateFile` can use is read back off its name
    if and only if it is below one million, no two numbers have one name, and in every run the next
    `Open` takes up all segments of the directory if and only if all their numbers are. What it
    takes up is in increasing order. -/
theorem segments_found {cfg : WalConfig} {acts : List WalAction} {s : WalRun}
    (h : run (walStep crc32) (WalRun.initial cfg) acts = some s) :
    (∀ n, 1 ≤ n → n ≤ kMaxU32 → (fileNumberOf (makeFileName n) = some n ↔ n < 1000000)) ∧
      (∀ m n, makeFileName m = makeFileName n → m = n) ∧
      ((∀ e ∈ s.wal.dir, e.number ∈ listedNumbers s.wal.dir) ↔
        ∀ e ∈ s.wal.dir, e.number < 1000000) ∧
      (listedNumbers s.wal.dir).Pairwise (· < ·) ∧
      ∀ cfg io w, io.opendirFails = false →
        scanExistingFiles crc32 cfg io s.wal = (w, .ok ()) →
        w.files.map (·.fileNumber) = listedNumbers s.wal.dir := by
  refine ⟨fun n _ _ => ?_, fun m n => makeFileName_injective, ?_,
    (numbered_run h).dir.listed_increasing, fun cfg io w hlist hscan =>
      scanExistingFiles_files hlist hscan⟩
  · rw [fileNumberOf_makeFileName]
    constructor
    · intro hsome
      by_contra hlarge
      rw [if_neg hlarge] at hsome
      cases hsome
    · exact fun hsix => if_pos hsix
  · constructor
    · exact fun hall e he => (mem_listedNumbers.1 (hall e he)).2
    · exact fun hsix e he => mem_listedNumbers.2 ⟨List.mem_map_of_mem he, hsix e he⟩

end Machine

/-- Two segments, the first of them sealed by a restart. -/
theorem segments_found_continuedRun :
    ∃ s, run (walStep Lib.crc32) (WalRun.initial defaultWalConfig) continuedRun = some s ∧
      s.wal.dir.numbers = [2, 3] ∧ (listedNumbers s.wal.dir).Pairwise (· < ·) := by
  have hrun : (run (walStep Lib.crc32) (WalRun.initial defaultWalConfig) continuedRun).map
      (fun s => s.wal.dir.numbers) = some [2, 3] := by decide +kernel
  obtain ⟨s, hs, hnumbers⟩ := Option.map_eq_some_iff.mp hrun
  exact ⟨s, hs, hnumbers, (segments_found hs).2.2.2.1⟩

/-- The millionth segment is not found. -/
theorem millionth_segment_lost :
    ¬ ∀ n, 1 ≤ n → n ≤ kMaxU32 → fileNumberOf (makeFileName n) = some n := by
  intro h
  have hlost : fileNumberOf (makeFileName 1000000) = none := by
    rw [fileNumberOf_makeFileName, if_neg (Nat.lt_irrefl _)]
  rw [h 1000000 (by decide) (by decide)] at hlost
  cases hlost

/-! ## 4. What an append writes -/

/-- Bytes that are written to a file stand at its end, and no other file changes. -/
theorem Dir.append_of_nodup {pre post : Dir} {e : DirEntry}
    (h : (Dir.numbers (pre ++ e :: post)).Nodup) (bytes : Bytes) :
    Dir.append (pre ++ e :: post) e.number bytes =
      pre ++ { e with bytes := e.bytes ++ bytes } :: post := by
  have hne : ∀ f ∈ pre ++ post, f.number ≠ e.number := by
    have hperm : (Dir.numbers (pre ++ e :: post)).Perm (e.number :: Dir.numbers (pre ++ post)) :=
      List.perm_middle.map _
    have hfresh := (List.nodup_cons.mp (hperm.nodup_iff.mp h)).1
    exact fun f hf heq => hfresh (heq ▸ List.mem_map_of_mem hf)
  have hkept : ∀ l : Dir, (∀ f ∈ l, f.number ≠ e.number) → Dir.append l e.number bytes = l := by
    intro l hl
    refine (List.map_congr_left fun f hf => ?_).trans (List.map_id l)
    rw [if_neg (hl f hf)]
    rfl
  have hsplit : Dir.append (pre ++ e :: post) e.number bytes =
      Dir.append pre e.number bytes ++
        { e with bytes := e.bytes ++ bytes } :: Dir.append post e.number bytes := by
    simp [Dir.append]
  rw [hsplit, hkept pre fun f hf => hne f (List.mem_append_left _ hf),
    hkept post fun f hf => hne f (List.mem_append_right _ hf)]

theorem Dir.mem_unlinkAll {fs : List WalFile} {dir : Dir} {n : Nat} (hn : n ∈ dir.numbers)
    (hfs : ∀ f ∈ fs, f.fileNumber ≠ n) :
    n ∈ Dir.numbers (fs.foldl (fun dir f => dir.unlink f.fileNumber) dir) := by
  induction fs generalizing dir with
  | nil => exact hn
  | cons f fs ih =>
    refine ih ?_ fun g hg => hfs g (List.mem_cons_of_mem f hg)
    obtain ⟨e, he, rfl⟩ := List.mem_map.mp hn
    refine List.mem_map_of_mem (List.mem_filter.mpr ⟨he, ?_⟩)
    simpa using (hfs f List.mem_cons_self).symm

/-- The file that is written to is there, under the current number. -/
def WriteAheadLog.OpenThere (w : WriteAheadLog) : Prop :=
  ∀ n, w.currentFd = some n → n = w.currentFileNumber ∧ n ∈ w.dir.numbers

namespace WriteAheadLog.OpenThere

variable {w : WriteAheadLog} {crc32 : Bytes → UInt32}

theorem of_closed (h : w.currentFd = none) : w.OpenThere := by
  intro n hfd
  rw [h] at hfd
  cases hfd

theorem rotateFile (h : w.OpenThere) (cfg : WalConfig) (io : RotateIo) :
    (rotateFile cfg io w).1.OpenThere := by
  unfold Storage.rotateFile
  split
  · exact h
  split
  · exact of_closed rfl
  dsimp only
  split
  · exact of_closed rfl
  · unfold createSegment
    split
    · exact of_closed rfl
    · exact of_closed rfl
    · exact of_closed rfl
    · exact of_closed rfl
    · intro n hfd
      obtain rfl := Option.some.inj hfd
      exact ⟨rfl, by simp [Dir.numbers]⟩

theorem writeRecord (h : w.OpenThere) (cfg : WalConfig) (io : WriteIo) (now : Nat)
    (op : WalOpType) (payload : Bytes) :
    (writeRecord crc32 cfg io now op payload w).1.OpenThere := by
  unfold Storage.writeRecord
  dsimp only
  split
  · exact of_closed rfl
  split
  · exact of_closed rfl
  split
  · exact of_closed rfl
  · intro n hfd
    rw [Dir.numbers_append]
    exact h n hfd

variable (crc32) in
theorem append (h : w.OpenThere) (cfg : WalConfig) (io : AppendIo) (now : Nat) (op : WalOpType)
    (payload : Bytes) : (append crc32 cfg io now op payload w).1.OpenThere := by
  unfold Storage.append
  split
  · exact h
  split
  · exact h
  split
  · exact h
  split
  · have hsealed : WriteAheadLog.OpenThere
        { w with files := setBackMax w.files w.currentSequence } := h
    have hrotated := hsealed.rotateFile cfg io.rotate
    dsimp only
    split
    · exact hrotated
    · exact hrotated.writeRecord cfg io.write now op payload
  · exact h.writeRecord cfg io.write now op payload

/-- `Truncate` never deletes the current file. -/
theorem truncate (h : w.OpenThere) (cfg : WalConfig) (io : TruncateIo) (upTo : Nat) :
    (truncate cfg io upTo w).1.OpenThere := by
  have hdir : ∀ n, w.currentFd = some n → n = w.currentFileNumber ∧
      n ∈ Dir.numbers ((w.files.filter fun f => truncatable w upTo f &&
        !io.unlinkFails f.fileNumber).foldl (fun dir f => dir.unlink f.fileNumber) w.dir) := by
    intro n hfd
    obtain ⟨rfl, hn⟩ := h n hfd
    refine ⟨rfl, Dir.mem_unlinkAll hn fun f hf heq => ?_⟩
    have hdeleted := (List.mem_filter.mp hf).2
    simp [truncatable, heq] at hdeleted
  unfold Storage.truncate
  dsimp only
  split
  · exact hdir
  · split
    · exact hdir
    · exact hdir

theorem scanSegments_fd (cfg : WalConfig) (io : Bool) (ns : List Nat) (previous : Option Nat) :
    (scanSegments crc32 cfg io ns previous w).1.currentFd = w.currentFd := by
  induction ns generalizing previous w with
  | nil => rfl
  | cons n ns ih =>
    unfold Storage.scanSegments
    split
    · rfl
    · split
      · rfl
      · split
        · rfl
        · exact ih _

variable (crc32) in
theorem openWal (cfg : WalConfig) (io : OpenIo) : (openWal crc32 cfg io w).1.OpenThere := by
  have hscan : (scanExistingFiles crc32 cfg io (close w)).1.currentFd = none := by
    unfold scanExistingFiles
    dsimp only
    split
    · rfl
    · split
      · exact scanSegments_fd cfg _ _ _
      · rfl
  have hremove : ∀ v : WriteAheadLog, v.currentFd = none →
      (removeEmptySegments io v).1.currentFd = none := by
    intro v hv
    unfold removeEmptySegments
    dsimp only
    split
    · exact hv
    · split <;> exact hv
  unfold Storage.openWal
  dsimp only
  split
  · exact of_closed rfl
  · split
    · rename_i v e hs
      rw [hs] at hscan
      exact of_closed hscan
    · rename_i v hs
      rw [hs] at hscan
      have hempty := hremove v hscan
      split
      · rename_i v' e hr
        rw [hr] at hempty
        exact of_closed hempty
      · rename_i v' hr
        rw [hr] at hempty
        have hrotated := (of_closed hempty).rotateFile cfg io.rotate
        split
        · rename_i v'' e hrot
          rw [hrot] at hrotated
          exact hrotated
        · rename_i v'' hrot
          rw [hrot] at hrotated
          exact hrotated

end WriteAheadLog.OpenThere

section Machine

variable {crc32 : Bytes → UInt32}

/-- **In every run** what is written to is there. -/
theorem openThere_run {cfg : WalConfig} {acts : List WalAction} {s : WalRun}
    (h : run (walStep crc32) (WalRun.initial cfg) acts = some s) : s.wal.OpenThere := by
  have hstep : ∀ (s : WalRun) (a : WalAction) (s' : WalRun), s.wal.OpenThere →
      walStep crc32 s a = some s' → s'.wal.OpenThere := by
    intro s a s' hs hstep
    cases a with
    | append io now op payload =>
      obtain rfl := Option.some.inj hstep
      have happ := WriteAheadLog.OpenThere.append crc32 hs s.cfg io now op payload
      unfold WalRun.append
      split
      · rename_i w seq happend
        rw [happend] at happ
        exact happ
      · rename_i w e happend
        rw [happend] at happ
        exact happ
    | truncate io upTo =>
      obtain rfl := Option.some.inj hstep
      exact hs.truncate s.cfg io upTo
    | close =>
      obtain rfl := Option.some.inj hstep
      exact .of_closed rfl
    | syncFails =>
      obtain rfl := Option.some.inj hstep
      exact .of_closed rfl
    | crash keep =>
      obtain rfl := Option.some.inj hstep
      exact .of_closed rfl
    | «open» cfg io =>
      obtain rfl := Option.some.inj hstep
      have hopen := WriteAheadLog.OpenThere.openWal (w := s.wal) crc32 cfg io
      unfold WalRun.open
      split
      · rename_i w hok
        rw [hok] at hopen
        exact hopen
      · rename_i w e herror
        rw [herror] at hopen
        exact hopen
  exact run_inv hstep (.of_closed rfl : (WalRun.initial cfg).wal.OpenThere) h

/-- A record that is acknowledged stands whole at the end of the open file. -/
theorem writeRecord_writes {cfg : WalConfig} {io : WriteIo} {now : Nat} {op : WalOpType}
    {payload : Bytes} {w w' : WriteAheadLog} {q : Nat}
    (h : writeRecord crc32 cfg io now op payload w = (w', .ok q)) :
    ∃ n, w.currentFd = some n ∧ w'.dir =
      w.dir.append n (encodeRecord crc32 ⟨q, now % 2 ^ 64, op.toByte, payload⟩) := by
  simp only [writeRecord, poison] at h
  split at h
  · cases h
  · rename_i n hfd
    split at h
    · cases h
    · split at h
      · cases h
      · cases h
        exact ⟨n, hfd, rfl⟩

/-- A rotation that succeeds has added one file, with nothing but its header. -/
theorem rotateFile_adds {cfg : WalConfig} {io : RotateIo} {w w' : WriteAheadLog}
    (h : rotateFile cfg io w = (w', .ok ())) :
    ∃ n, w'.currentFd = some n ∧ w'.dir = w.dir ++ [⟨n, fileHeader⟩] := by
  simp only [rotateFile] at h
  split at h
  · cases h
  split at h
  · cases h
  split at h
  · cases h
  · rename_i n hn
    unfold createSegment at h
    split at h
    all_goals cases h
    exact ⟨n, rfl, rfl⟩

/-- One file of the directory has `bytes` more at its end; it was there, or it is new and had its
    header. No other file has changed. -/
def Dir.Extended (dir dir' : Dir) (bytes : Bytes) : Prop :=
  ∃ pre e post, (dir = pre ++ e :: post ∨ dir = pre ∧ post = [] ∧ e.bytes = fileHeader) ∧
    dir' = pre ++ { e with bytes := e.bytes ++ bytes } :: post

/-- **An `Append` that succeeds** has written its record to the end of one file, which may be a
    new one, and nothing else. -/
theorem append_writes {cfg : WalConfig} {io : AppendIo} {now : Nat} {op : WalOpType}
    {payload : Bytes} {w w' : WriteAheadLog} {q : Nat} (hw : w.Numbered) (hthere : w.OpenThere)
    (h : Storage.append crc32 cfg io now op payload w = (w', .ok q)) :
    w.dir.Extended w'.dir (encodeRecord crc32 ⟨q, now % 2 ^ 64, op.toByte, payload⟩) := by
  unfold Storage.append at h
  split at h
  · cases h
  split at h
  · cases h
  split at h
  · cases h
  split at h
  · split at h
    rename_i w₁ res hrot
    split at h
    · cases h
    · obtain ⟨n, hfd, hdir⟩ := rotateFile_adds hrot
      obtain ⟨m, hfd', hwritten⟩ := writeRecord_writes h
      obtain rfl : n = m := Option.some.inj (hfd.symm.trans hfd')
      have hsealed : WriteAheadLog.Numbered
          { w with files := setBackMax w.files w.currentSequence } := ⟨hw.dir, hw.current⟩
      have hnodup := (hsealed.rotateFile cfg io.rotate).dir.nodup
      rw [hrot, hdir] at hnodup
      exact ⟨w.dir, ⟨n, fileHeader⟩, [], .inr ⟨rfl, rfl, rfl⟩,
        by rw [hwritten, hdir, Dir.append_of_nodup hnodup]⟩
  · obtain ⟨n, hfd, hwritten⟩ := writeRecord_writes h
    obtain ⟨e, he, hnumber⟩ := List.mem_map.mp (hthere n hfd).2
    obtain ⟨pre, post, hdir⟩ := List.append_of_mem he
    have hnodup := hw.dir.nodup
    rw [hdir] at hnodup
    refine ⟨pre, e, post, .inl hdir, ?_⟩
    rw [hwritten, hdir, ← hnumber, Dir.append_of_nodup hnodup]

/-- The log is one that a run from an empty directory reaches. -/
def WalRun.Reached (crc32 : Bytes → UInt32) (s : WalRun) : Prop :=
  ∃ cfg acts, run (walStep crc32) (WalRun.initial cfg) acts = some s

theorem WalRun.Reached.step {s s' : WalRun} {a : WalAction} (h : s.Reached crc32)
    (hstep : walStep crc32 s a = some s') : s'.Reached crc32 := by
  obtain ⟨cfg, acts, hrun⟩ := h
  exact ⟨cfg, acts ++ [a], run_snoc.2 ⟨s, hrun, hstep⟩⟩

end Machine

end Nvecd.Storage
