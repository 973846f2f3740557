/-
  File:      Nvecd/Lib/Lines.lean
  Subject:   The lines of a byte stream, whose ends are LF or CR LF.

  A line ends at an LF; one CR before it belongs to the end. What comes behind the last LF is not a
  line yet. Cutting a stream in two cuts its lines at the unfinished one (`rawLines_append`).

  * `rawLines`, `lastLine` -- what stands between the LFs, and what stands behind the last;
  * `textLines`, `textLines_append` -- the lines, without their ends and without the empty ones;
  * `breakCrlf`, `breakLf` -- the stream before and behind the first CR LF, the first LF;
  * `mixed`, `mixed_iff` -- an LF that is no CR LF stands before a CR LF.
-/
import Mathlib.Data.List.Basic

namespace Nvecd.Lib

def lf : UInt8 := 10

def cr : UInt8 := 13

theorem lf_ne_cr : lf ≠ cr := by decide

/-! ## 1. Lines -/

/-- What stands between the LFs, the first with `cur` before it. -/
def rawLines : List UInt8 → List UInt8 → List (List UInt8)
  | _, [] => []
  | cur, b :: rest => if b = lf then cur :: rawLines [] rest else rawLines (cur ++ [b]) rest

/-- What stands behind the last LF. -/
def lastLine : List UInt8 → List UInt8 → List UInt8
  | cur, [] => cur
  | cur, b :: rest => if b = lf then lastLine [] rest else lastLine (cur ++ [b]) rest

/-- A line without the CR of its end. -/
def stripCr (line : List UInt8) : List UInt8 :=
  if line.getLast? = some cr then line.dropLast else line

/-- **The lines of a stream**, without their ends and without the empty ones. -/
def textLines (s : List UInt8) : List (List UInt8) :=
  ((rawLines [] s).map stripCr).filter fun line => line ≠ []

variable {cur s t line : List UInt8}

theorem rawLines_cons (cur : List UInt8) (b : UInt8) (s : List UInt8) :
    rawLines cur (b :: s) =
      if b = lf then cur :: rawLines [] s else rawLines (cur ++ [b]) s := rfl

theorem lastLine_nil (cur : List UInt8) : lastLine cur [] = cur := rfl

theorem lastLine_cons (cur : List UInt8) (b : UInt8) (s : List UInt8) :
    lastLine cur (b :: s) = if b = lf then lastLine [] s else lastLine (cur ++ [b]) s := rfl

theorem rawLines_append (cur s t : List UInt8) :
    rawLines cur (s ++ t) = rawLines cur s ++ rawLines (lastLine cur s) t := by
  induction s generalizing cur with
  | nil => rfl
  | cons b s ih =>
    by_cases hb : b = lf
    · simp [rawLines_cons, lastLine_cons, hb, ih]
    · simp [rawLines_cons, lastLine_cons, hb, ih]

theorem lastLine_append (cur s t : List UInt8) :
    lastLine cur (s ++ t) = lastLine (lastLine cur s) t := by
  induction s generalizing cur with
  | nil => rfl
  | cons b s ih =>
    by_cases hb : b = lf
    · simp [lastLine_cons, hb, ih]
    · simp [lastLine_cons, hb, ih]

/-- A stream without an LF is a part of a line. -/
theorem rawLines_of_no_lf (h : lf ∉ s) : rawLines cur s = [] := by
  induction s generalizing cur with
  | nil => rfl
  | cons b s ih =>
    rw [List.mem_cons, not_or] at h
    rw [rawLines_cons, if_neg fun e => h.1 e.symm]
    exact ih h.2

theorem lastLine_of_no_lf (h : lf ∉ s) : lastLine cur s = cur ++ s := by
  induction s generalizing cur with
  | nil => rw [lastLine_nil, List.append_nil]
  | cons b s ih =>
    rw [List.mem_cons, not_or] at h
    rw [lastLine_cons, if_neg fun e => h.1 e.symm, ih h.2, List.append_assoc, List.singleton_append]

/-- What is not a line yet has no LF. -/
theorem no_lf_lastLine (h : lf ∉ cur) (s : List UInt8) : lf ∉ lastLine cur s := by
  induction s generalizing cur with
  | nil => exact h
  | cons b s ih =>
    rw [lastLine_cons]
    split
    · exact ih List.not_mem_nil
    · rename_i hb
      refine ih ?_
      rw [List.mem_append, List.mem_singleton, not_or]
      exact ⟨h, fun e => hb e.symm⟩

/-- The first line, up to its LF, and those behind it. -/
theorem rawLines_line (h : lf ∉ line) (s : List UInt8) :
    rawLines cur (line ++ lf :: s) = (cur ++ line) :: rawLines [] s := by
  rw [rawLines_append, rawLines_of_no_lf h, lastLine_of_no_lf h, List.nil_append, rawLines_cons,
    if_pos rfl]

theorem lastLine_line (line s : List UInt8) : lastLine cur (line ++ lf :: s) = lastLine [] s := by
  rw [lastLine_append, lastLine_cons, if_pos rfl]

/-- What stands between the LFs has none. -/
theorem no_lf_of_mem_rawLines (hcur : lf ∉ cur) (h : line ∈ rawLines cur s) : lf ∉ line := by
  induction s generalizing cur with
  | nil => cases h
  | cons b s ih =>
    rw [rawLines_cons] at h
    split at h
    · rcases List.mem_cons.mp h with rfl | hin
      · exact hcur
      · exact ih List.not_mem_nil hin
    · rename_i hb
      refine ih ?_ h
      rw [List.mem_append, List.mem_singleton, not_or]
      exact ⟨hcur, fun e => hb e.symm⟩

theorem no_lf_of_mem_textLines (h : line ∈ textLines s) : lf ∉ line := by
  obtain ⟨raw, hraw, rfl⟩ := List.mem_map.mp (List.mem_filter.mp h).1
  have hno := no_lf_of_mem_rawLines List.not_mem_nil hraw
  unfold stripCr
  split
  · exact fun hin => hno (List.dropLast_subset raw hin)
  · exact hno

/-- A line that ends with CR LF. -/
theorem textLines_crlf (h : lf ∉ line) (s : List UInt8) :
    textLines (line ++ cr :: lf :: s) =
      (if line = [] then textLines s else line :: textLines s) := by
  have hraw : rawLines [] (line ++ cr :: lf :: s) = (line ++ [cr]) :: rawLines [] s := by
    have hno : lf ∉ line ++ [cr] := by
      rw [List.mem_append, List.mem_singleton, not_or]
      exact ⟨h, lf_ne_cr⟩
    rw [show line ++ cr :: lf :: s = (line ++ [cr]) ++ lf :: s by simp, rawLines_line hno]
    rfl
  have hstrip : stripCr (line ++ [cr]) = line := by simp [stripCr]
  rw [textLines, hraw, List.map_cons, hstrip, List.filter_cons]
  by_cases hnil : line = []
  · simp [hnil, textLines]
  · simp [hnil, textLines]

/-- A line that ends with an LF alone. -/
theorem textLines_lf (h : lf ∉ line) (hcr : line.getLast? ≠ some cr) (s : List UInt8) :
    textLines (line ++ lf :: s) = (if line = [] then textLines s else line :: textLines s) := by
  rw [textLines, rawLines_line h, List.nil_append, List.map_cons, List.filter_cons,
    show stripCr line = line from if_neg hcr]
  by_cases hnil : line = []
  · simp [hnil, textLines]
  · simp [hnil, textLines]

theorem textLines_of_no_lf (h : lf ∉ s) : textLines s = [] := by
  rw [textLines, rawLines_of_no_lf h]
  rfl

/-- The lines of a stream that is cut: what the first part leaves goes before the second. -/
theorem textLines_append (s t : List UInt8) :
    textLines (s ++ t) = textLines s ++ textLines (lastLine [] s ++ t) := by
  have hno : lf ∉ lastLine [] s := no_lf_lastLine List.not_mem_nil s
  have hlast : rawLines (lastLine [] s) t = rawLines [] (lastLine [] s ++ t) := by
    rw [rawLines_append, rawLines_of_no_lf hno, lastLine_of_no_lf hno]
    rfl
  rw [textLines, rawLines_append, List.map_append, List.filter_append, hlast]
  rfl

/-! ## 2. Looking for ends -/

/-- The stream before and behind the first CR LF. -/
def breakCrlf : List UInt8 → Option (List UInt8 × List UInt8)
  | [] => none
  | [_] => none
  | a :: b :: rest =>
    if a = cr ∧ b = lf then some ([], rest)
    else (breakCrlf (b :: rest)).map fun p => (a :: p.1, p.2)

/-- The stream before and behind the first LF. -/
def breakLf : List UInt8 → Option (List UInt8 × List UInt8)
  | [] => none
  | a :: rest => if a = lf then some ([], rest) else (breakLf rest).map fun p => (a :: p.1, p.2)

theorem breakLf_cons (a : UInt8) (rest : List UInt8) :
    breakLf (a :: rest) =
      if a = lf then some ([], rest) else (breakLf rest).map fun p => (a :: p.1, p.2) := rfl

theorem breakCrlf_cons (a b : UInt8) (rest : List UInt8) :
    breakCrlf (a :: b :: rest) =
      if a = cr ∧ b = lf then some ([], rest)
      else (breakCrlf (b :: rest)).map fun p => (a :: p.1, p.2) := rfl

theorem breakLf_some {l r : List UInt8} (h : breakLf s = some (l, r)) :
    s = l ++ lf :: r ∧ lf ∉ l := by
  induction s generalizing l with
  | nil => cases h
  | cons a s ih =>
    rw [breakLf_cons] at h
    split at h
    · rename_i ha
      obtain ⟨rfl, rfl⟩ := Prod.mk.inj (Option.some.inj h)
      exact ⟨by rw [ha]; rfl, List.not_mem_nil⟩
    · rename_i ha
      obtain ⟨⟨l', r'⟩, hbreak, he⟩ := Option.map_eq_some_iff.mp h
      obtain ⟨rfl, rfl⟩ := Prod.mk.inj he
      obtain ⟨rfl, hno⟩ := ih hbreak
      refine ⟨rfl, ?_⟩
      rw [List.mem_cons, not_or]
      exact ⟨fun e => ha e.symm, hno⟩

theorem breakLf_none (h : breakLf s = none) : lf ∉ s := by
  induction s with
  | nil => exact List.not_mem_nil
  | cons a s ih =>
    rw [breakLf_cons] at h
    split at h
    · cases h
    · rename_i ha
      rw [List.mem_cons, not_or]
      exact ⟨fun e => ha e.symm, ih (Option.map_eq_none_iff.mp h)⟩

theorem breakCrlf_some {l r : List UInt8} (h : breakCrlf s = some (l, r)) :
    s = l ++ cr :: lf :: r := by
  induction s using breakCrlf.induct generalizing l with
  | case1 => cases h
  | case2 a => cases h
  | case3 a b rest hab =>
    rw [breakCrlf_cons, if_pos hab] at h
    obtain ⟨rfl, rfl⟩ := Prod.mk.inj (Option.some.inj h)
    rw [hab.1, hab.2]
    rfl
  | case4 a b rest hab ih =>
    rw [breakCrlf_cons, if_neg hab] at h
    obtain ⟨⟨l', r'⟩, hbreak, he⟩ := Option.map_eq_some_iff.mp h
    obtain ⟨rfl, rfl⟩ := Prod.mk.inj he
    rw [ih hbreak]
    rfl

/-- A stream with a CR LF, and how it is broken: no earlier one is passed over. -/
theorem breakCrlf_of_crlf (p q : List UInt8) :
    ∃ l r, breakCrlf (p ++ cr :: lf :: q) = some (l, r) ∧ l.length ≤ p.length := by
  induction p with
  | nil => exact ⟨[], q, rfl, Nat.le_refl 0⟩
  | cons a p ih =>
    obtain ⟨l, r, hbreak, hle⟩ := ih
    obtain ⟨b, rest, hcons⟩ : ∃ b rest, p ++ cr :: lf :: q = b :: rest :=
      List.exists_cons_of_ne_nil (by simp)
    rw [List.cons_append, hcons, breakCrlf_cons]
    rw [hcons] at hbreak
    split
    · exact ⟨[], rest, rfl, Nat.zero_le _⟩
    · exact ⟨a :: l, r, by rw [hbreak]; rfl, by simpa using hle⟩

/-- The part before the first CR LF has none. -/
theorem no_crlf_of_breakCrlf {l r p q : List UInt8} (h : breakCrlf s = some (l, r)) :
    l ≠ p ++ cr :: lf :: q := by
  rintro rfl
  have hs := breakCrlf_some h
  obtain ⟨l', r', hbreak, hle⟩ := breakCrlf_of_crlf p (q ++ cr :: lf :: r)
  rw [hs] at h
  simp only [List.append_assoc, List.cons_append] at h
  rw [h] at hbreak
  obtain ⟨rfl, _⟩ := Prod.mk.inj (Option.some.inj hbreak)
  rw [List.length_append, List.length_cons] at hle
  omega

theorem breakCrlf_isSome_iff :
    (breakCrlf s).isSome = true ↔ ∃ q r, s = q ++ cr :: lf :: r := by
  constructor
  · intro h
    obtain ⟨⟨l, r⟩, hbreak⟩ := Option.isSome_iff_exists.mp h
    exact ⟨l, r, breakCrlf_some hbreak⟩
  · rintro ⟨q, r, rfl⟩
    obtain ⟨l, r', hbreak, _⟩ := breakCrlf_of_crlf q r
    rw [hbreak]
    rfl

/-! ## 3. Streams with both ends -/

/-- An LF that is not the end of a CR LF stands before a CR LF; `prev` is the byte before the
    stream. -/
def mixed : UInt8 → List UInt8 → Bool
  | _, [] => false
  | prev, b :: rest =>
    (decide (b = lf ∧ prev ≠ cr) && (breakCrlf rest).isSome) || mixed b rest

theorem mixed_cons (prev b : UInt8) (rest : List UInt8) :
    mixed prev (b :: rest) =
      ((decide (b = lf ∧ prev ≠ cr) && (breakCrlf rest).isSome) || mixed b rest) := rfl

theorem mixed_iff {prev : UInt8} : mixed prev s = true ↔
    ∃ p q r, s = p ++ lf :: (q ++ cr :: lf :: r) ∧ p.getLast?.getD prev ≠ cr := by
  induction s generalizing prev with
  | nil =>
    constructor
    · intro h
      cases h
    · rintro ⟨p, q, r, h, _⟩
      exact absurd h (by simp)
  | cons b s ih =>
    rw [mixed_cons, Bool.or_eq_true, Bool.and_eq_true, decide_eq_true_eq, breakCrlf_isSome_iff, ih]
    constructor
    · rintro (⟨⟨rfl, hprev⟩, q, r, rfl⟩ | ⟨p, q, r, rfl, hlast⟩)
      · exact ⟨[], q, r, rfl, hprev⟩
      · refine ⟨b :: p, q, r, rfl, ?_⟩
        cases p with
        | nil => exact hlast
        | cons a p =>
          rw [List.getLast?_cons_cons]
          rw [List.getLast?_eq_some_getLast (List.cons_ne_nil a p)] at hlast ⊢
          exact hlast
    · rintro ⟨p, q, r, h, hlast⟩
      cases p with
      | nil =>
        obtain ⟨rfl, rfl⟩ := List.cons.inj h
        exact .inl ⟨⟨rfl, hlast⟩, q, r, rfl⟩
      | cons a p =>
        obtain ⟨rfl, rfl⟩ := List.cons.inj h
        refine .inr ⟨p, q, r, rfl, ?_⟩
        cases p with
        | nil => exact hlast
        | cons a' p =>
          rw [List.getLast?_cons_cons] at hlast
          rw [List.getLast?_eq_some_getLast (List.cons_ne_nil a' p)] at hlast ⊢
          exact hlast

/-- Both ends behind a line are both ends. -/
theorem mixed_of_rest {l r : List UInt8} {prev : UInt8} (h : mixed lf r = true) :
    mixed prev (l ++ lf :: r) = true := by
  rw [mixed_iff] at h ⊢
  obtain ⟨p, q, r', rfl, hlast⟩ := h
  refine ⟨l ++ lf :: p, q, r', by simp, ?_⟩
  cases p with
  | nil =>
    rw [List.getLast?_concat]
    exact hlast
  | cons a p =>
    rw [List.getLast?_append, List.getLast?_cons_cons]
    rw [List.getLast?_eq_some_getLast (List.cons_ne_nil a p)] at hlast ⊢
    exact hlast

/-- An LF before the first CR LF. -/
theorem mixed_of_lf_before {l r : List UInt8} {prev : UInt8} (hprev : prev ≠ cr) (hin : lf ∈ l)
    (hfirst : ∀ p q, l ≠ p ++ cr :: lf :: q) : mixed prev (l ++ cr :: lf :: r) = true := by
  obtain ⟨p, q, rfl⟩ := List.append_of_mem hin
  rw [mixed_iff]
  refine ⟨p, q, r, by simp, ?_⟩
  rcases List.eq_nil_or_concat p with rfl | ⟨p', a, rfl⟩
  · exact hprev
  · rw [List.concat_eq_append, List.getLast?_concat]
    rintro (rfl : a = cr)
    exact hfirst p' q (by simp)

/-- Both ends, but not in the first line. -/
theorem mixed_rest {l r : List UInt8} {prev : UInt8} (hno : lf ∉ l)
    (h : mixed prev (l ++ cr :: lf :: r) = true) : mixed lf r = true := by
  induction l generalizing prev with
  | nil => simpa [mixed_cons, lf_ne_cr.symm] using h
  | cons a l ih =>
    rw [List.mem_cons, not_or] at hno
    rw [List.cons_append, mixed_cons, decide_eq_false fun e => hno.1 e.1.symm, Bool.false_and,
      Bool.false_or] at h
    exact ih hno.2 h

theorem breakCrlf_of_mixed {prev : UInt8} (h : mixed prev s = true) :
    (breakCrlf s).isSome = true := by
  obtain ⟨p, q, r, rfl, _⟩ := mixed_iff.1 h
  rw [breakCrlf_isSome_iff]
  exact ⟨p ++ lf :: q, r, by simp⟩

end Nvecd.Lib
