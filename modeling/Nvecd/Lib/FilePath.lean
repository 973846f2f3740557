/-
  File:      Nvecd/Lib/FilePath.lean
  Subject:   Paths as texts: their elements, and what can be done with them without a look at the
             files.

  A path is a text whose elements stand between separators. A run of separators counts as one;
  one at the end is an empty last element.

  * `FilePath`, `FilePath.parse`, `FilePath.text` -- elements and text, `parse_text`;
  * `FilePath.cut` -- the elements up to the first NUL, which is all that a system call sees;
  * `FilePath.lexicallyNormal`, `FilePath.lexicallyRelative`, and what they are where no `..` stands
    (`lexicallyNormal_spec`, `lexicallyRelative_spec`).
-/
import Mathlib.Data.List.Basic
import Mathlib.Data.List.Infix

namespace Nvecd.Lib

structure FilePath where
  /-- It starts at the root. -/
  absolute : Bool
  elems : List (List UInt8)
  deriving DecidableEq, Repr

namespace FilePath

def slash : UInt8 := 47

def dot : List UInt8 := [46]

def dotDot : List UInt8 := [46, 46]

/-! ## 1. Texts -/

/-- What stands between the separators, the first with `cur` before it, and an empty element where
    the text ends with a separator. -/
def split : List UInt8 → List UInt8 → List (List UInt8)
  | cur, [] => [cur]
  | cur, b :: rest =>
    if b = slash then (if cur = [] then split [] rest else cur :: split [] rest)
    else split (cur ++ [b]) rest

def elemsOf (s : List UInt8) : List (List UInt8) := if split [] s = [[]] then [] else split [] s

def parse (s : List UInt8) : FilePath := ⟨s.head? = some slash, elemsOf s⟩

/-- The elements with separators between them. -/
def join : List (List UInt8) → List UInt8
  | [] => []
  | [e] => e
  | e :: rest => e ++ slash :: join rest

def text (p : FilePath) : List UInt8 := (if p.absolute then [slash] else []) ++ join p.elems

def isEmpty (p : FilePath) : Bool := !p.absolute && p.elems.isEmpty

/-- The path without its last element; the root is its own parent. -/
def parentPath (p : FilePath) : FilePath := ⟨p.absolute, p.elems.dropLast⟩

def filename (p : FilePath) : List UInt8 := p.elems.getLastD []

/-- The path with further elements behind its own. -/
def adjoin (p : FilePath) (es : List (List UInt8)) : FilePath := ⟨p.absolute, p.elems ++ es⟩

/-- A name as an entry of a directory has one, and a path leads to it. -/
structure Plain (e : List UInt8) : Prop where
  ne_nil : e ≠ []
  no_slash : slash ∉ e
  no_nul : 0 ∉ e
  ne_dot : e ≠ dot
  ne_dotDot : e ≠ dotDot

variable {cur s t e : List UInt8} {es : List (List UInt8)}

theorem split_nil (cur : List UInt8) : split cur [] = [cur] := rfl

theorem split_cons (cur : List UInt8) (b : UInt8) (s : List UInt8) :
    split cur (b :: s) =
      if b = slash then (if cur = [] then split [] s else cur :: split [] s)
      else split (cur ++ [b]) s := rfl

theorem split_ne_nil (cur s : List UInt8) : split cur s ≠ [] := by
  induction s generalizing cur with
  | nil => simp [split_nil]
  | cons b s ih =>
    rw [split_cons]
    split
    · split
      · exact ih []
      · simp
    · exact ih _

theorem split_append (cur s t : List UInt8) :
    split cur (s ++ slash :: t) = (split cur s).filter (· ≠ []) ++ split [] t := by
  induction s generalizing cur with
  | nil =>
    by_cases hcur : cur = []
    · simp [split_nil, split_cons, hcur]
    · simp [split_nil, split_cons, hcur]
  | cons b s ih =>
    by_cases hb : b = slash
    · by_cases hcur : cur = []
      · simp [split_cons, hb, hcur, ih]
      · simp [split_cons, hb, hcur, ih]
    · simp [split_cons, hb, ih]

/-- Only the last element can be empty. -/
theorem filter_split_prefix (cur s : List UInt8) :
    (split cur s).filter (· ≠ []) <+: split cur s := by
  induction s generalizing cur with
  | nil =>
    by_cases hcur : cur = []
    · simp [split_nil, hcur]
    · simp [split_nil, hcur]
  | cons b s ih =>
    by_cases hb : b = slash
    · by_cases hcur : cur = []
      · simpa [split_cons, hb, hcur] using ih []
      · simpa [split_cons, hb, hcur] using ih []
    · simpa [split_cons, hb] using ih (cur ++ [b])

theorem no_slash_of_mem_split (hcur : slash ∉ cur) (he : e ∈ split cur s) : slash ∉ e := by
  induction s generalizing cur with
  | nil =>
    rw [split_nil, List.mem_singleton] at he
    exact he ▸ hcur
  | cons b s ih =>
    rw [split_cons] at he
    split at he
    · split at he
      · exact ih List.not_mem_nil he
      · rcases List.mem_cons.mp he with rfl | he
        · exact hcur
        · exact ih List.not_mem_nil he
    · rename_i hb
      refine ih ?_ he
      rw [List.mem_append, List.mem_singleton]
      rintro (h | h)
      · exact hcur h
      · exact hb h.symm

theorem infix_of_mem_split (he : e ∈ split cur s) : e <:+: cur ++ s := by
  induction s generalizing cur with
  | nil =>
    rw [split_nil, List.mem_singleton] at he
    rw [he, List.append_nil]
  | cons b s ih =>
    have hrest : e ∈ split [] s → e <:+: cur ++ b :: s := by
      intro he
      have h := ih he
      rw [List.nil_append] at h
      exact h.trans ⟨cur ++ [b], [], by simp⟩
    rw [split_cons] at he
    split at he
    · split at he
      · exact hrest he
      · rcases List.mem_cons.mp he with rfl | he
        · exact ⟨[], b :: s, by simp⟩
        · exact hrest he
    · have h := ih he
      rwa [List.append_assoc, List.singleton_append] at h

theorem mem_split_of_mem_elemsOf (he : e ∈ elemsOf s) : e ∈ split [] s := by
  rw [elemsOf] at he
  split at he
  · cases he
  · exact he

theorem no_slash_of_mem_elemsOf (he : e ∈ elemsOf s) : slash ∉ e :=
  no_slash_of_mem_split List.not_mem_nil (mem_split_of_mem_elemsOf he)

theorem infix_of_mem_elemsOf (he : e ∈ elemsOf s) : e <:+: s :=
  infix_of_mem_split (mem_split_of_mem_elemsOf he)

/-- Text behind a separator has its elements behind those before it. -/
theorem elemsOf_append (s : List UInt8) (ht : elemsOf t ≠ []) :
    ∃ ds, ds <+: elemsOf s ∧ elemsOf (s ++ slash :: t) = ds ++ elemsOf t := by
  have hne : split [] t ≠ [[]] := by
    intro h
    rw [elemsOf, if_pos h] at ht
    exact ht rfl
  have htail : elemsOf t = split [] t := if_neg hne
  refine ⟨(split [] s).filter (· ≠ []), ?_, ?_⟩
  · rw [elemsOf]
    split
    · rename_i h
      rw [h]
      simp
    · exact filter_split_prefix [] s
  · rw [elemsOf, split_append, htail, if_neg]
    intro h
    rcases List.append_eq_singleton_iff.mp h with ⟨-, h⟩ | ⟨-, h⟩
    · exact hne h
    · exact split_ne_nil [] t h

theorem split_ne_singleton (hcur : cur ≠ []) (s : List UInt8) : split cur s ≠ [[]] := by
  induction s generalizing cur with
  | nil =>
    intro h
    rw [split_nil, List.cons.injEq] at h
    exact hcur h.1
  | cons b s ih =>
    rw [split_cons, if_neg hcur]
    split
    · intro h
      rw [List.cons.injEq] at h
      exact hcur h.1
    · exact ih (by simp)

/-- A text that starts with something else than a separator has elements. -/
theorem elemsOf_ne_nil (hs : s ≠ []) (habs : s.head? ≠ some slash) : elemsOf s ≠ [] := by
  cases s with
  | nil => exact absurd rfl hs
  | cons b s =>
    have hb : b ≠ slash := fun h => habs (by rw [h]; rfl)
    have hsplit : split [] (b :: s) ≠ [[]] := by
      rw [split_cons, if_neg hb]
      exact split_ne_singleton (by simp) s
    rw [elemsOf, if_neg hsplit]
    exact split_ne_nil _ _

theorem split_name (cur s : List UInt8) (hs : slash ∉ s) : split cur s = [cur ++ s] := by
  induction s generalizing cur with
  | nil => rw [split_nil, List.append_nil]
  | cons b s ih =>
    rw [List.mem_cons, not_or] at hs
    rw [split_cons, if_neg (Ne.symm hs.1), ih _ hs.2, List.append_assoc, List.singleton_append]

theorem split_join (hes : ∀ e ∈ es, e ≠ [] ∧ slash ∉ e) (hne : es ≠ []) :
    split [] (join es) = es := by
  induction es with
  | nil => exact absurd rfl hne
  | cons e rest ih =>
    have he := hes e List.mem_cons_self
    cases rest with
    | nil => rw [join, split_name _ _ he.2, List.nil_append]
    | cons e' rest =>
      rw [join, split_append, split_name _ _ he.2, List.nil_append,
        ih (fun x hx => hes x (List.mem_cons_of_mem _ hx)) (List.cons_ne_nil _ _)]
      · simp [he.1]
      · exact List.cons_ne_nil _ _

/-- The elements of a text can be read back from it. -/
theorem parse_text (hes : ∀ e ∈ es, e ≠ [] ∧ slash ∉ e) : parse (text ⟨true, es⟩) = ⟨true, es⟩ := by
  have hsplit : elemsOf (slash :: join es) = es := by
    have hslash : split [] (slash :: join es) = split [] (join es) := by simp [split_cons]
    rw [elemsOf, hslash]
    by_cases hne : es = []
    · rw [hne]
      rfl
    · rw [split_join hes hne, if_neg]
      intro h
      exact (hes [] (h ▸ List.mem_singleton_self _)).1 rfl
  rw [text, parse]
  simp [hsplit]

/-! ## 2. What a system call sees -/

/-- **The elements up to the first NUL.** -/
def cut : List (List UInt8) → List (List UInt8)
  | [] => []
  | e :: rest => if 0 ∈ e then [e.takeWhile (· ≠ 0)] else e :: cut rest

variable {xs ys : List (List UInt8)}

theorem cut_cons (e : List UInt8) (rest : List (List UInt8)) :
    cut (e :: rest) = if 0 ∈ e then [e.takeWhile (· ≠ 0)] else e :: cut rest := rfl

theorem cut_append (h : ∀ e ∈ xs, 0 ∉ e) : cut (xs ++ ys) = xs ++ cut ys := by
  induction xs with
  | nil => rfl
  | cons e xs ih =>
    rw [List.cons_append, cut_cons, if_neg (h e List.mem_cons_self),
      ih fun x hx => h x (List.mem_cons_of_mem _ hx), List.cons_append]

theorem cut_eq_self (h : ∀ e ∈ xs, 0 ∉ e) : cut xs = xs := by
  simpa [cut] using @cut_append xs [] h

/-- Nothing behind a NUL is seen. -/
theorem cut_append_of_nul (h : ∃ e ∈ xs, 0 ∈ e) : cut (xs ++ ys) = cut xs := by
  induction xs with
  | nil =>
    obtain ⟨e, he, -⟩ := h
    cases he
  | cons e xs ih =>
    by_cases he : 0 ∈ e
    · rw [List.cons_append, cut_cons, cut_cons, if_pos he, if_pos he]
    · have htail : ∃ e ∈ xs, 0 ∈ e := by
        obtain ⟨x, hx, h0⟩ := h
        rcases List.mem_cons.mp hx with rfl | hx
        · exact absurd h0 he
        · exact ⟨x, hx, h0⟩
      rw [List.cons_append, cut_cons, cut_cons, if_neg he, if_neg he, ih htail]

theorem cut_prefix (xs ys : List (List UInt8)) : cut xs <+: cut (xs ++ ys) := by
  by_cases h : ∃ e ∈ xs, 0 ∈ e
  · rw [cut_append_of_nul h]
  · push Not at h
    rw [cut_append h, cut_eq_self h]
    exact List.prefix_append _ _

theorem cut_singleton (e : List UInt8) : ∃ c, cut [e] = [c] := by
  by_cases he : 0 ∈ e
  · exact ⟨_, by rw [cut_cons, if_pos he]⟩
  · exact ⟨e, by rw [cut_cons, if_neg he, cut]⟩

theorem cut_mem (he : e ∈ cut xs) : 0 ∉ e ∧ ∃ x ∈ xs, e <+: x := by
  induction xs with
  | nil => cases he
  | cons x xs ih =>
    rw [cut_cons] at he
    split at he
    · rw [List.mem_singleton] at he
      subst he
      refine ⟨fun h => ?_, x, List.mem_cons_self, List.takeWhile_prefix _⟩
      have hall := List.all_takeWhile (l := x) (p := (· ≠ 0))
      rw [List.all_eq_true] at hall
      simpa using hall 0 h
    · rename_i hx
      rcases List.mem_cons.mp he with rfl | he
      · exact ⟨hx, _, List.mem_cons_self, List.prefix_refl _⟩
      · obtain ⟨h0, y, hy, hpre⟩ := ih he
        exact ⟨h0, y, List.mem_cons_of_mem _ hy, hpre⟩

/-! ## 3. Normal form -/

/-- The names that stay, behind `stack`: dots and empty elements go, and `..` goes with the name
    before it. -/
def collapse (absolute : Bool) : List (List UInt8) → List (List UInt8) → List (List UInt8)
  | stack, [] => stack
  | stack, e :: rest =>
    if e = [] ∨ e = dot then collapse absolute stack rest
    else if e = dotDot then
      match stack.getLast? with
      | none => collapse absolute (if absolute then [] else [dotDot]) rest
      | some top =>
        collapse absolute (if top = dotDot then stack ++ [dotDot] else stack.dropLast) rest
    else collapse absolute (stack ++ [e]) rest

/-- `lexically_normal`. Where the last element went, a separator stands at the end, if it is a name
    that stands before it. -/
def lexicallyNormal (p : FilePath) : FilePath :=
  if p.isEmpty then p
  else
    let names := collapse p.absolute [] p.elems
    let last := p.elems.getLastD []
    if names = [] then ⟨p.absolute, if p.absolute then [] else [dot]⟩
    else if (last = [] ∨ last = dot ∨ last = dotDot) ∧ names.getLast? ≠ some dotDot then
      ⟨p.absolute, names ++ [[]]⟩
    else ⟨p.absolute, names⟩

theorem lexicallyNormal_absolute (p : FilePath) : p.lexicallyNormal.absolute = p.absolute := by
  unfold lexicallyNormal
  dsimp only
  split
  · rfl
  · split
    · rfl
    · split <;> rfl

theorem mem_collapse {absolute : Bool} {stack : List (List UInt8)}
    (he : e ∈ collapse absolute stack es) : e ∈ stack ∨ e ∈ es ∨ e = dotDot := by
  induction es generalizing stack with
  | nil => exact .inl he
  | cons x es ih =>
    have hlift : ∀ stack', (∀ y ∈ stack', y ∈ stack ∨ y = x ∨ y = dotDot) →
        e ∈ collapse absolute stack' es → e ∈ stack ∨ e ∈ x :: es ∨ e = dotDot := by
      intro stack' hsub h
      rcases ih h with h | h | h
      · rcases hsub e h with h | rfl | h
        · exact .inl h
        · exact .inr (.inl List.mem_cons_self)
        · exact .inr (.inr h)
      · exact .inr (.inl (List.mem_cons_of_mem _ h))
      · exact .inr (.inr h)
    rw [collapse] at he
    split at he
    · exact hlift stack (fun y hy => .inl hy) he
    · split at he
      · split at he
        · refine hlift _ (fun y hy => .inr (.inr ?_)) he
          split at hy
          · cases hy
          · exact List.mem_singleton.mp hy
        · refine hlift _ (fun y hy => ?_) he
          split at hy
          · rcases List.mem_append.mp hy with hy | hy
            · exact .inl hy
            · exact .inr (.inr (List.mem_singleton.mp hy))
          · exact .inl (List.mem_of_mem_dropLast hy)
      · refine hlift _ (fun y hy => ?_) he
        rcases List.mem_append.mp hy with hy | hy
        · exact .inl hy
        · exact .inr (.inl (List.mem_singleton.mp hy))

theorem no_slash_lexicallyNormal {p : FilePath} (hp : ∀ e ∈ p.elems, slash ∉ e) :
    ∀ e ∈ p.lexicallyNormal.elems, slash ∉ e := by
  have hnames : ∀ e ∈ collapse p.absolute [] p.elems, slash ∉ e := by
    intro e he
    rcases mem_collapse he with h | h | rfl
    · cases h
    · exact hp e h
    · decide
  unfold lexicallyNormal
  dsimp only
  split
  · exact hp
  · split
    · split
      · exact fun _ h => nomatch h
      · intro e he
        rw [List.mem_singleton.mp he]
        decide
    · split
      · intro e he
        rcases List.mem_append.mp he with he | he
        · exact hnames e he
        · rw [List.mem_singleton.mp he]
          exact List.not_mem_nil
      · exact hnames

/-- It is an element of its own in a normal form. -/
def isName (e : List UInt8) : Bool := e ≠ [] ∧ e ≠ dot

theorem collapse_names (absolute : Bool) (stack : List (List UInt8)) (h : dotDot ∉ es) :
    collapse absolute stack es = stack ++ es.filter isName := by
  induction es generalizing stack with
  | nil => simp [collapse]
  | cons e es ih =>
    rw [List.mem_cons, not_or] at h
    by_cases he : e = [] ∨ e = dot
    · rw [collapse, if_pos he, ih _ h.2, List.filter_cons_of_neg]
      rw [isName, decide_eq_true_eq]
      exact fun hn => he.elim hn.1 hn.2
    · rw [not_or] at he
      rw [collapse, if_neg (not_or.mpr he), if_neg (Ne.symm h.1), ih _ h.2,
        List.filter_cons_of_pos (by rw [isName, decide_eq_true_eq]; exact he), List.append_assoc,
        List.singleton_append]

/-- **Names, and elements without `..` behind them**: the names of both, and an empty element where
    the last one was no name. -/
theorem lexicallyNormal_spec (hplain : ∀ e ∈ xs, Plain e) (hys : dotDot ∉ ys) (hne : ys ≠ [])
    (hsome : xs ++ ys.filter isName ≠ []) :
    lexicallyNormal ⟨true, xs ++ ys⟩ = ⟨true, xs ++ ys.filter isName ++
      if isName (ys.getLastD []) then [] else [[]]⟩ := by
  have hdots : dotDot ∉ xs ++ ys := by
    rw [List.mem_append, not_or]
    exact ⟨fun h => (hplain _ h).ne_dotDot rfl, hys⟩
  have hxs : xs.filter isName = xs := by
    rw [List.filter_eq_self]
    intro e he
    rw [isName, decide_eq_true_eq]
    exact ⟨(hplain e he).ne_nil, (hplain e he).ne_dot⟩
  have hcollapse : collapse true [] (xs ++ ys) = xs ++ ys.filter isName := by
    rw [collapse_names true [] hdots, List.filter_append, hxs, List.nil_append]
  have hlast : (xs ++ ys).getLastD [] = ys.getLastD [] := by
    rw [List.getLastD_eq_getLast?, List.getLastD_eq_getLast?,
      List.getLast?_append_of_ne_nil _ hne]
  have hmem : ys.getLastD [] ∈ ys := by
    rw [List.getLastD_eq_getLast?, List.getLast?_eq_some_getLast hne, Option.getD_some]
    exact List.getLast_mem hne
  have hlastname : (xs ++ ys.filter isName).getLast? ≠ some dotDot := by
    intro h
    have := List.mem_of_getLast? h
    rcases List.mem_append.mp this with h | h
    · exact (hplain _ h).ne_dotDot rfl
    · exact hys (List.mem_of_mem_filter h)
  have hnotDotDot : ys.getLastD [] ≠ dotDot := fun h => hys (h ▸ hmem)
  unfold lexicallyNormal
  simp only [isEmpty, Bool.not_true, Bool.false_and, Bool.false_eq_true, if_false, hcollapse, hlast,
    if_neg hsome, hnotDotDot, or_false, ne_eq, hlastname, not_false_eq_true, and_true]
  by_cases hname : isName (ys.getLastD [])
  · rw [isName, decide_eq_true_eq] at hname
    rw [if_neg (not_or.mpr hname), if_pos (by rw [isName, decide_eq_true_eq]; exact hname),
      List.append_nil]
  · have hgone : ys.getLastD [] = [] ∨ ys.getLastD [] = dot := by
      rw [isName, decide_eq_true_eq, not_and_or, not_not, not_not] at hname
      exact hname
    rw [if_pos hgone, if_neg hname]

/-! ## 4. Relative paths -/

/-- What is left of two lists behind their common beginning. -/
def dropCommon : List (List UInt8) → List (List UInt8) → List (List UInt8) × List (List UInt8)
  | x :: xs, y :: ys => if x = y then dropCommon xs ys else (x :: xs, y :: ys)
  | xs, ys => (xs, ys)

/-- `lexically_relative`: how the path is reached from another one, by their elements alone. -/
def lexicallyRelative (p base : FilePath) : FilePath :=
  if p.absolute ≠ base.absolute then ⟨false, []⟩
  else
    let (a, b) := dropCommon p.elems base.elems
    if a = [] ∧ b = [] then ⟨false, [dot]⟩
    else
      let up : Int := (b.countP fun e => e ≠ dot ∧ e ≠ dotDot ∧ e ≠ []) - b.count dotDot
      if up < 0 then ⟨false, []⟩
      else if up = 0 ∧ a.headD [] = [] then ⟨false, [dot]⟩
      else ⟨false, List.replicate up.toNat dotDot ++ a⟩

theorem dropCommon_self (xs : List (List UInt8)) : dropCommon xs xs = ([], []) := by
  induction xs with
  | nil => rfl
  | cons x xs ih => rw [dropCommon, if_pos rfl, ih]

/-- A path seen from itself. -/
theorem lexicallyRelative_self (p : FilePath) : p.lexicallyRelative p = ⟨false, [dot]⟩ := by
  unfold lexicallyRelative
  simp [dropCommon_self]

theorem dropCommon_spec (xs ys : List (List UInt8)) :
    (ys <+: xs ∧ (dropCommon xs ys).2 = [] ∧ xs = ys ++ (dropCommon xs ys).1) ∨
      (¬ ys <+: xs ∧ (dropCommon xs ys).2 ≠ [] ∧ (dropCommon xs ys).2 <:+ ys) := by
  induction ys generalizing xs with
  | nil => cases xs <;> exact .inl ⟨List.nil_prefix, rfl, rfl⟩
  | cons y ys ih =>
    cases xs with
    | nil => exact .inr ⟨by simp, by simp [dropCommon], List.suffix_refl _⟩
    | cons x xs =>
      by_cases hxy : x = y
      · subst hxy
        rw [dropCommon, if_pos rfl]
        rcases ih xs with ⟨hpre, hnil, heq⟩ | ⟨hpre, hne, hsuf⟩
        · refine .inl ⟨?_, hnil, ?_⟩
          · rwa [List.prefix_cons_inj]
          · rw [List.cons_append, ← heq]
        · refine .inr ⟨?_, hne, hsuf.trans (List.suffix_cons _ _)⟩
          rwa [List.prefix_cons_inj]
      · rw [dropCommon, if_neg hxy]
        refine .inr ⟨?_, List.cons_ne_nil _ _, List.suffix_refl _⟩
        rw [List.cons_prefix_cons]
        exact fun h => hxy h.1.symm

/-- **Seen from a path of names**: what does not begin with it is reached by a `..`, and what
    does by its own other elements. -/
theorem lexicallyRelative_spec (hplain : ∀ e ∈ ys, Plain e) :
    (∃ rest, lexicallyRelative ⟨true, xs⟩ ⟨true, ys⟩ = ⟨false, dotDot :: rest⟩) ∨
      ∃ tail, xs = ys ++ tail ∧ lexicallyRelative ⟨true, xs⟩ ⟨true, ys⟩ =
        ⟨false, if tail.headD [] = [] then [dot] else tail⟩ := by
  unfold lexicallyRelative
  have hspec := dropCommon_spec xs ys
  rcases hcommon : dropCommon xs ys with ⟨a, b⟩
  rw [hcommon] at hspec
  simp only at hspec
  rcases hspec with ⟨-, hb, heq⟩ | ⟨-, hb, hsuf⟩
  · obtain rfl : b = [] := hb
    refine .inr ⟨a, heq, ?_⟩
    cases a with
    | nil => simp
    | cons x a => by_cases hx : x = [] <;> simp [hx]
  · -- every name of the other path that is left counts as one step up
    have hcount : (b.countP fun e => decide (e ≠ dot ∧ e ≠ dotDot ∧ e ≠ [])) = b.length := by
      rw [List.countP_eq_length]
      intro e he
      have := hplain e (hsuf.subset he)
      exact decide_eq_true ⟨this.ne_dot, this.ne_dotDot, this.ne_nil⟩
    have hdots : b.count dotDot = 0 := by
      rw [List.count_eq_zero]
      exact fun h => (hplain _ (hsuf.subset h)).ne_dotDot rfl
    obtain ⟨n, hn⟩ : ∃ n, b.length = n + 1 :=
      ⟨b.length - 1, by have := List.length_pos_iff.mpr hb; omega⟩
    refine .inl ⟨List.replicate n dotDot ++ a, ?_⟩
    have hup : ¬ ((n + 1 : Nat) : Int) - ((0 : Nat) : Int) < 0 := by omega
    have hup0 : ¬ ((n + 1 : Nat) : Int) - ((0 : Nat) : Int) = 0 := by omega
    have htoNat : (((n + 1 : Nat) : Int) - ((0 : Nat) : Int)).toNat = n + 1 := by omega
    simp only [ne_eq, not_true_eq_false, if_false]
    rw [if_neg fun h => hb h.2, hcount, hdots, hn, if_neg hup, if_neg fun h => hup0 h.1, htoNat,
      List.replicate_succ, List.cons_append]

end FilePath

end Nvecd.Lib
