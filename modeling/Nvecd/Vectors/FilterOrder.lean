/-
  File:      Nvecd/Vectors/FilterOrder.lean
  Subject:   What the comparisons of `vectors/metadata_filter.cpp` say about the values themselves.

  Integers and doubles compare by rounding the integer. Against the exact order of the values that
  errs in one way: an integer and a double that differ are taken to be equal. A NaN, which a text
  can be, is equal to every number. Both make equality intransitive.

  * `ExactLt`, `ExactEq` -- the order of the values;
  * `Sharp` -- the pairs whose comparison does not err; `agrees_iff`;
  * `matchesFilter_missing` -- an item without metadata;
  * `filter_semantics_iff`.
-/
import Nvecd.Lib.BinaryFloat
import Nvecd.Vectors.MetadataFilter

namespace Nvecd.Vectors

open Nvecd.Lib Nvecd.Storage Nvecd.Utils

/-! ## 1. The order of the values -/

/-- The number a value is, if it is one and not a NaN. -/
def MetadataValue.number : MetadataValue → Option (WithBot (WithTop ℚ))
  | .int64 n => some (exactInt n.toInt)
  | .double d => exactDouble d
  | _ => none

/-- Two numbers, two strings or two truth values. -/
def Comparable : MetadataValue → MetadataValue → Bool
  | .string _, .string _ => true
  | .bool _, .bool _ => true
  | .int64 _, .int64 _ => true
  | .int64 _, .double _ => true
  | .double _, .int64 _ => true
  | .double _, .double _ => true
  | _, _ => false

def ExactLt : MetadataValue → MetadataValue → Prop
  | .string l, .string r => l < r
  | .bool l, .bool r => l = false ∧ r = true
  | l, r => ∃ x y, l.number = some x ∧ r.number = some y ∧ x < y

def ExactEq : MetadataValue → MetadataValue → Prop
  | .string l, .string r => l = r
  | .bool l, .bool r => l = r
  | l, r => ∃ x, l.number = some x ∧ r.number = some x

/-- A condition `op r` on the value `l`. -/
def holds (op : FilterOp) (l r : MetadataValue) : Bool :=
  FilterCondition.match { field := [], op := op, value := r } l

/-- `<`, `=` and `>` are the order of the values. -/
structure Agrees (l r : MetadataValue) : Prop where
  lt : holds .kLt l r = true ↔ ExactLt l r
  eq : holds .kEq l r = true ↔ ExactEq l r
  gt : holds .kGt l r = true ↔ ExactLt r l

/-- An integer is not rounded to a double that is another number. -/
def NotRounded (n : Int64) (d : UInt64) : Prop :=
  doubleRank (doubleOfInt64 n) = doubleRank d → exactDouble d = some (exactInt n.toInt)

/-- **No NaN, and no integer that is rounded to the other value.** -/
def Sharp : MetadataValue → MetadataValue → Prop
  | .int64 n, .double d => isNaNDouble d = false ∧ NotRounded n d
  | .double d, .int64 n => isNaNDouble d = false ∧ NotRounded n d
  | .double l, .double r => isNaNDouble l = false ∧ isNaNDouble r = false
  | _, _ => True

/-! ## 2. Comparisons -/

section Compare

variable {l r : MetadataValue}

theorem threeWay_eq_zero {lt gt : Bool} : threeWay lt gt = 0 ↔ lt = false ∧ gt = false := by
  cases lt <;> cases gt <;> decide

theorem threeWay_eq_neg_one {lt gt : Bool} : threeWay lt gt = -1 ↔ lt = true := by
  cases lt <;> cases gt <;> decide

theorem threeWay_eq_one {lt gt : Bool} : threeWay lt gt = 1 ↔ lt = false ∧ gt = true := by
  cases lt <;> cases gt <;> decide

/-- **Values that compare**: the result is -1, 0 or 1. -/
theorem compareValues_cases (h : Comparable l r = true) :
    compareValues l r = -1 ∨ compareValues l r = 0 ∨ compareValues l r = 1 := by
  have hthree : ∀ lt gt : Bool, threeWay lt gt = -1 ∨ threeWay lt gt = 0 ∨ threeWay lt gt = 1 := by
    decide
  unfold Comparable at h
  split at h
  case h_7 => cases h
  all_goals exact hthree _ _

theorem compareValues_of_not (h : Comparable l r = false) : compareValues l r = -2 := by
  cases l <;> cases r <;> first | rfl | cases h

theorem compareValues_ne (h : compareValues l r ≠ -2) : Comparable l r = true := by
  by_contra hnot
  exact h (compareValues_of_not (Bool.eq_false_of_not_eq_true hnot))

theorem holds_kEq : holds .kEq l r = true ↔ compareValues l r = 0 := decide_eq_true_iff

theorem holds_kLt : holds .kLt l r = true ↔ compareValues l r = -1 := decide_eq_true_iff

theorem holds_kGt : holds .kGt l r = true ↔ compareValues l r = 1 := decide_eq_true_iff

/-- A comparison of two tests that are the order. -/
theorem Agrees.of_threeWay {lt gt : Bool} (hcmp : compareValues l r = threeWay lt gt)
    (hlt : lt = true ↔ ExactLt l r) (hgt : gt = true ↔ ExactLt r l)
    (heq : ExactEq l r ↔ ¬ExactLt l r ∧ ¬ExactLt r l) (hasymm : ExactLt r l → ¬ExactLt l r) :
    Agrees l r := by
  have hlt' : lt = false ↔ ¬ExactLt l r := by rw [← hlt, Bool.not_eq_true]
  have hgt' : gt = false ↔ ¬ExactLt r l := by rw [← hgt, Bool.not_eq_true]
  refine ⟨?_, ?_, ?_⟩
  · rw [holds_kLt, hcmp, threeWay_eq_neg_one, hlt]
  · rw [holds_kEq, hcmp, threeWay_eq_zero, hlt', hgt', heq]
  · rw [holds_kGt, hcmp, threeWay_eq_one, hlt', hgt]
    exact ⟨And.right, fun h => ⟨hasymm h, h⟩⟩

variable {x y : WithBot (WithTop ℚ)}

theorem exactLt_numbers (hl : l.number = some x) (hr : r.number = some y) :
    ExactLt l r ↔ x < y := by
  cases l <;> cases r <;> first
    | (simp only [ExactLt, hl, hr, Option.some.injEq]
       exact ⟨fun ⟨_, _, hx, hy, h⟩ => hx ▸ hy ▸ h, fun h => ⟨x, y, rfl, rfl, h⟩⟩)
    | cases hl

theorem exactEq_numbers (hl : l.number = some x) (hr : r.number = some y) :
    ExactEq l r ↔ x = y := by
  cases l <;> cases r <;> first
    | (simp only [ExactEq, hl, hr, Option.some.injEq]
       exact ⟨fun ⟨_, hx, hy⟩ => hx.trans hy.symm, fun h => ⟨x, rfl, h.symm⟩⟩)
    | cases hl

/-- Two numbers whose tests are right. -/
theorem Agrees.of_numbers {lt gt : Bool} (hcmp : compareValues l r = threeWay lt gt)
    (hl : l.number = some x) (hr : r.number = some y) (hlt : lt = true ↔ x < y)
    (hgt : gt = true ↔ y < x) : Agrees l r := by
  refine .of_threeWay hcmp ?_ ?_ ?_ ?_
  · rw [hlt, exactLt_numbers hl hr]
  · rw [hgt, exactLt_numbers hr hl]
  · rw [exactEq_numbers hl hr, exactLt_numbers hl hr, exactLt_numbers hr hl, not_lt, not_lt]
    exact ⟨fun h => ⟨h.ge, h.le⟩, fun ⟨h, h'⟩ => le_antisymm h' h⟩
  · rw [exactLt_numbers hl hr, exactLt_numbers hr hl]
    exact lt_asymm

end Compare

/-! ## 3. The pairs that compare right -/

theorem exactDouble_isSome {d : UInt64} (h : isNaNDouble d = false) : ∃ x, exactDouble d = some x := by
  unfold exactDouble
  rw [if_neg (by rw [h]; exact Bool.false_ne_true)]
  split
  · exact ⟨_, rfl⟩
  · split
    · exact ⟨_, rfl⟩
    · exact ⟨_, rfl⟩

theorem exactDouble_of_nan {d : UInt64} (h : isNaNDouble d = true) : exactDouble d = none := if_pos h

theorem exactInt_lt {m n : Int} : exactInt m < exactInt n ↔ m < n := by
  unfold exactInt
  rw [WithBot.coe_lt_coe, WithTop.coe_lt_coe, Int.cast_lt]

/-- A NaN is never less. -/
theorem ltDouble_of_nan {x y : UInt64} (h : isNaNDouble x = true ∨ isNaNDouble y = true) :
    ltDouble x y = false := by
  unfold ltDouble
  rcases h with h | h
  · simp [h]
  · simp [h]

/-- **An integer and a double.** -/
theorem roundedCompare {n : Int64} {d : UInt64} (hnan : isNaNDouble d = false) :
    NotRounded n d ↔ ∃ v, exactDouble d = some v ∧
      (ltDouble (doubleOfInt64 n) d = true ↔ exactInt n.toInt < v) ∧
      (ltDouble d (doubleOfInt64 n) = true ↔ v < exactInt n.toInt) := by
  obtain ⟨v, hv⟩ := exactDouble_isSome hnan
  obtain ⟨hbelow, habove⟩ := ltDouble_doubleOfInt64 (n := n) hv
  have hlt : ltDouble (doubleOfInt64 n) d = true ↔ doubleRank (doubleOfInt64 n) < doubleRank d := by
    simp [ltDouble, hnan, isNaNDouble_doubleOfInt64]
  have hgt : ltDouble d (doubleOfInt64 n) = true ↔ doubleRank d < doubleRank (doubleOfInt64 n) := by
    simp [ltDouble, hnan, isNaNDouble_doubleOfInt64]
  constructor
  · intro hnot
    refine ⟨v, hv, ⟨hbelow, fun h => ?_⟩, ⟨habove, fun h => ?_⟩⟩
    · rw [hlt]
      rcases lt_trichotomy (doubleRank (doubleOfInt64 n)) (doubleRank d) with hr | hr | hr
      · exact hr
      · rw [Option.some.inj (hv.symm.trans (hnot hr))] at h
        exact absurd h (lt_irrefl _)
      · exact absurd h (lt_asymm (habove (hgt.mpr hr)))
    · rw [hgt]
      rcases lt_trichotomy (doubleRank (doubleOfInt64 n)) (doubleRank d) with hr | hr | hr
      · exact absurd h (lt_asymm (hbelow (hlt.mpr hr)))
      · rw [Option.some.inj (hv.symm.trans (hnot hr))] at h
        exact absurd h (lt_irrefl _)
      · exact hr
  · rintro ⟨w, hw, hbelow', habove'⟩ hrank
    rw [hw]
    refine congrArg some (le_antisymm ?_ ?_)
    · rw [← not_lt, ← hbelow', hlt]
      omega
    · rw [← not_lt, ← habove', hgt]
      omega

/-- **The comparison says what the order of the values is** for the pairs that are sharp, and no
    others. -/
theorem agrees_iff {l r : MetadataValue} (h : Comparable l r = true) : Agrees l r ↔ Sharp l r := by
  -- what would be equal to a NaN
  have hequal : compareValues l r = 0 → ¬ExactEq l r → ¬Agrees l r :=
    fun hcmp hne hagrees => hne (hagrees.eq.mp (holds_kEq.2 hcmp))
  unfold Comparable at h
  split at h
  case h_1 a b =>
    refine iff_of_true (.of_threeWay rfl decide_eq_true_iff decide_eq_true_iff ?_ ?_) trivial
    · exact ⟨fun h => h ▸ ⟨List.lt_irrefl _, List.lt_irrefl _⟩,
        fun ⟨hlt, hgt⟩ => List.le_antisymm hgt hlt⟩
    · exact List.lt_asymm
  case h_2 a b =>
    have hcmp : compareValues (.bool a) (.bool b) = threeWay (!a && b) (a && !b) := rfl
    refine iff_of_true (.of_threeWay hcmp ?_ ?_ ?_ ?_) trivial
    all_goals cases a <;> cases b <;> simp [ExactLt, ExactEq]
  case h_3 a b =>
    refine iff_of_true (.of_numbers rfl rfl rfl ?_ ?_) trivial
    · rw [exactInt_lt, decide_eq_true_iff, Int64.lt_iff_toInt_lt]
    · rw [exactInt_lt, decide_eq_true_iff, Int64.lt_iff_toInt_lt]
  case h_4 n d =>
    cases hnan : isNaNDouble d with
    | true =>
      refine iff_of_false (hequal ?_ ?_) (fun hs => Bool.false_ne_true (hs.1.symm.trans hnan))
      · simp [compareValues, threeWay, ltDouble_of_nan (.inl hnan), ltDouble_of_nan (.inr hnan)]
      · rintro ⟨x, -, hx⟩
        exact nomatch (exactDouble_of_nan hnan).symm.trans hx
    | false =>
      constructor
      · intro hagrees
        obtain ⟨v, hv⟩ := exactDouble_isSome hnan
        refine ⟨hnan, fun hrank => ?_⟩
        have hcmp : compareValues (.int64 n) (.double d) = 0 := by
          simp [compareValues, threeWay, ltDouble, hrank]
        obtain ⟨x, hx, hx'⟩ := hagrees.eq.mp (holds_kEq.2 hcmp)
        exact hx'.trans hx.symm
      · rintro ⟨-, hnot⟩
        obtain ⟨v, hv, hlt, hgt⟩ := (roundedCompare hnan).mp hnot
        exact .of_numbers rfl rfl hv hlt hgt
  case h_5 d n =>
    cases hnan : isNaNDouble d with
    | true =>
      refine iff_of_false (hequal ?_ ?_) (fun hs => Bool.false_ne_true (hs.1.symm.trans hnan))
      · simp [compareValues, threeWay, ltDouble_of_nan (.inl hnan), ltDouble_of_nan (.inr hnan)]
      · rintro ⟨x, hx, -⟩
        exact nomatch (exactDouble_of_nan hnan).symm.trans hx
    | false =>
      constructor
      · intro hagrees
        refine ⟨hnan, fun hrank => ?_⟩
        have hcmp : compareValues (.double d) (.int64 n) = 0 := by
          simp [compareValues, threeWay, ltDouble, hrank]
        obtain ⟨x, hx, hx'⟩ := hagrees.eq.mp (holds_kEq.2 hcmp)
        exact hx.trans hx'.symm
      · rintro ⟨-, hnot⟩
        obtain ⟨v, hv, hlt, hgt⟩ := (roundedCompare hnan).mp hnot
        exact .of_numbers rfl hv rfl hgt hlt
  case h_6 a b =>
    by_cases hnan : isNaNDouble a = true ∨ isNaNDouble b = true
    · refine iff_of_false (hequal ?_ ?_) ?_
      · simp [compareValues, threeWay, ltDouble_of_nan hnan, ltDouble_of_nan hnan.symm]
      · rintro ⟨x, hx, hx'⟩
        rcases hnan with hn | hn
        · exact nomatch (exactDouble_of_nan hn).symm.trans hx
        · exact nomatch (exactDouble_of_nan hn).symm.trans hx'
      · rintro ⟨ha, hb⟩
        rw [ha, hb] at hnan
        simp at hnan
    · rw [not_or, Bool.not_eq_true, Bool.not_eq_true] at hnan
      obtain ⟨x, hx⟩ := exactDouble_isSome hnan.1
      obtain ⟨y, hy⟩ := exactDouble_isSome hnan.2
      exact iff_of_true (.of_numbers rfl hx hy (ltDouble_iff hx hy) (ltDouble_iff hy hx)) hnan
  case h_7 => cases h

/-! ## 4. Filters -/

/-- Of `<`, `=` and `>` one holds, and the others are made of them. -/
structure Trichotomy (l r : MetadataValue) : Prop where
  some : holds .kLt l r = true ∨ holds .kEq l r = true ∨ holds .kGt l r = true
  ltEq : ¬(holds .kLt l r = true ∧ holds .kEq l r = true)
  ltGt : ¬(holds .kLt l r = true ∧ holds .kGt l r = true)
  eqGt : ¬(holds .kEq l r = true ∧ holds .kGt l r = true)
  le : holds .kLe l r = true ↔ holds .kLt l r = true ∨ holds .kEq l r = true
  ge : holds .kGe l r = true ↔ holds .kGt l r = true ∨ holds .kEq l r = true
  ne : holds .kNe l r = true ↔ ¬holds .kEq l r = true

theorem trichotomy {l r : MetadataValue} (h : Comparable l r = true) : Trichotomy l r := by
  have hcases := compareValues_cases h
  have hle : holds .kLe l r = true ↔ compareValues l r = 0 ∨ compareValues l r = -1 :=
    decide_eq_true_iff
  have hge : holds .kGe l r = true ↔ compareValues l r ≥ 0 := decide_eq_true_iff
  have hne : holds .kNe l r = true ↔ compareValues l r ≠ 0 ∧ compareValues l r ≠ -2 :=
    decide_eq_true_iff
  constructor
  all_goals simp only [holds_kLt, holds_kEq, holds_kGt, hle, hge, hne]; omega

/-- A condition on what a map has under its field. -/
def FilterCondition.passes (c : FilterCondition) : Option MetadataValue → Prop
  | none => c.op = .kNe
  | some v => c.match v = true

theorem match_iff (filter : MetadataFilter) (fields : Metadata) :
    MetadataFilter.match filter fields = true ↔
      ∀ c ∈ filter, c.passes (fields.find? c.field) := by
  unfold MetadataFilter.match
  rw [List.all_eq_true]
  refine forall₂_congr fun c _ => ?_
  unfold FilterCondition.passes
  cases fields.find? c.field with
  | none => exact decide_eq_true_iff
  | some v => exact Iff.rfl

theorem match_kIn {c : FilterCondition} (hop : c.op = .kIn) (l : MetadataValue) :
    c.match l = true ↔ ∃ v ∈ c.values, holds .kEq l v = true := by
  unfold FilterCondition.match
  rw [hop]
  simp only [List.any_eq_true, decide_eq_true_eq, holds_kEq]

/-- **An item without metadata** does not pass a filter that the empty map passes, unless there is
    nothing to pass. -/
theorem matchesFilter_missing {s : MetadataStore} {id : Bytes} (h : s.get id = none)
    (filter : MetadataFilter) :
    s.matchesFilter id filter = MetadataFilter.match filter .empty ↔
      filter = [] ∨ ∃ c ∈ filter, c.op ≠ .kNe := by
  have hempty : MetadataFilter.match filter .empty = true ↔ ∀ c ∈ filter, c.op = .kNe := by
    rw [match_iff]
    refine forall₂_congr fun c _ => ?_
    rw [AssocMap.find?_empty]
    exact Iff.rfl
  unfold MetadataStore.matchesFilter
  rw [show s.metadata.find? id = none from h]
  by_cases hnil : filter = []
  · rw [if_pos hnil]
    exact iff_of_true (hnil ▸ rfl) (.inl hnil)
  · rw [if_neg hnil, or_iff_right hnil, eq_comm, ← Bool.not_eq_true, hempty]
    push Not
    exact Iff.rfl

theorem comparable_trans {a b c : MetadataValue} (hab : Comparable a b = true)
    (hbc : Comparable b c = true) : Comparable a c = true := by
  cases a <;> cases b <;> cases hab <;> cases c <;> cases hbc <;> rfl

theorem exactEq_trans {a b c : MetadataValue} (h : Comparable a b = true)
    (h' : Comparable b c = true) (hab : ExactEq a b) (hbc : ExactEq b c) : ExactEq a c := by
  cases a <;> cases b <;> cases h <;> cases c <;> cases h' <;> first
    | exact Eq.trans hab hbc
    | (obtain ⟨x, hx, hy⟩ := hab
       obtain ⟨x', hx', hz⟩ := hbc
       exact ⟨x, hx, hz.trans (hx'.symm.trans hy)⟩)

/-- The comparisons among some values are their order, and equality is transitive. -/
structure Ordered (values : Set MetadataValue) : Prop where
  agrees : ∀ l ∈ values, ∀ r ∈ values, Comparable l r = true → Agrees l r
  trans : ∀ a ∈ values, ∀ b ∈ values, ∀ c ∈ values,
    holds .kEq a b = true → holds .kEq b c = true → holds .kEq a c = true

/-- **Among values that are pairwise sharp**, and among no others. -/
theorem ordered_iff (values : Set MetadataValue) : Ordered values ↔
    ∀ l ∈ values, ∀ r ∈ values, Comparable l r = true → Sharp l r := by
  constructor
  · intro h l hl r hr hcmp
    exact (agrees_iff hcmp).mp (h.agrees l hl r hr hcmp)
  · intro hsharp
    have hagrees : ∀ l ∈ values, ∀ r ∈ values, Comparable l r = true → Agrees l r :=
      fun l hl r hr hcmp => (agrees_iff hcmp).mpr (hsharp l hl r hr hcmp)
    refine ⟨hagrees, fun a ha b hb c hc hab hbc => ?_⟩
    have hcomparable : ∀ {l r : MetadataValue}, holds .kEq l r = true → Comparable l r = true :=
      fun h => compareValues_ne fun he => absurd ((holds_kEq.1 h).symm.trans he) (by decide)
    have hb' := hcomparable hab
    have hc' := hcomparable hbc
    exact (hagrees a ha c hc (comparable_trans hb' hc')).eq.mpr
      (exactEq_trans hb' hc' ((hagrees a ha b hb hb').eq.mp hab)
        ((hagrees b hb c hc hc').eq.mp hbc))

/-- **What a filter means.** It is the conjunction of its conditions, a list asks for one of its
    values, and of `<`, `=` and `>` one holds. That these are the order of the values is true of
    the values that are pairwise sharp; that an item without metadata is like one with the empty
    map, of the filters that do not only ask for differences. -/
theorem filter_semantics_iff (values : Set MetadataValue) (s : MetadataStore) (id : Bytes)
    (filter : MetadataFilter) (fields : Metadata) :
    (MetadataFilter.match filter fields = true ↔
      ∀ c ∈ filter, c.passes (fields.find? c.field)) ∧
    (∀ c : FilterCondition, c.op = .kIn → ∀ l, c.match l = true ↔
      ∃ v ∈ c.values, holds .kEq l v = true) ∧
    (∀ l r : MetadataValue, Comparable l r = true → Trichotomy l r) ∧
    (Ordered values ↔ ∀ l ∈ values, ∀ r ∈ values, Comparable l r = true → Sharp l r) ∧
    (s.get id = none →
      (s.matchesFilter id filter = MetadataFilter.match filter .empty ↔
        filter = [] ∨ ∃ c ∈ filter, c.op ≠ .kNe)) :=
  ⟨match_iff filter fields, fun _ hop l => match_kIn hop l, fun _ _ h => trichotomy h,
    ordered_iff values, fun h => matchesFilter_missing h filter⟩

/-! ## 5. Two numbers and no metadata -/

/-- `strtod`, on the texts that follow. -/
def exampleStrtod (text : Bytes) : Option UInt64 :=
  if text = [57, 48, 48, 55, 49, 57, 57, 50, 53, 52, 55, 52, 48, 57, 57, 50, 46, 48] then
    some 0x4340000000000000  -- 9007199254740992.0
  else if text = [110, 97, 110] then some 0x7FF8000000000000  -- nan
  else none

/-- `9007199254740993`, which is one more than the double `9007199254740992.0`. -/
def oddInteger : MetadataValue :=
  parseValue exampleStrtod [57, 48, 48, 55, 49, 57, 57, 50, 53, 52, 55, 52, 48, 57, 57, 51]

def evenDouble : MetadataValue :=
  parseValue exampleStrtod
    [57, 48, 48, 55, 49, 57, 57, 50, 53, 52, 55, 52, 48, 57, 57, 50, 46, 48]

def evenInteger : MetadataValue :=
  parseValue exampleStrtod [57, 48, 48, 55, 49, 57, 57, 50, 53, 52, 55, 52, 48, 57, 57, 50]

def notANumber : MetadataValue := parseValue exampleStrtod [110, 97, 110]

/-- **Equality that is not equality**: the odd integer is equal to the double, and the double to
    the even integer; `nan` is equal to both integers; and an item without metadata does not pass
    `a!=1`, which the empty map passes. -/
theorem filter_semantics_fails :
    (holds .kEq oddInteger evenDouble = true ∧ holds .kEq evenDouble evenInteger = true ∧
      holds .kEq oddInteger evenInteger = false) ∧
    (holds .kEq oddInteger notANumber = true ∧ holds .kEq notANumber evenInteger = true) ∧
    ∃ filter, parseSimpleFilter exampleStrtod [97, 33, 61, 49] = .ok filter ∧
      MetadataFilter.match filter .empty = true ∧
      (⟨.empty⟩ : MetadataStore).matchesFilter [105] filter = false := by
  refine ⟨⟨?_, ?_, ?_⟩, ⟨?_, ?_⟩, _, rfl, ?_, ?_⟩
  all_goals decide +kernel

end Nvecd.Vectors
