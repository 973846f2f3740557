/-
  File:      Nvecd/Vectors/MetadataFilter.lean
  Subject:   `vectors/metadata_filter.cpp`, and the part of `vectors/metadata_store.cpp` that
             filters items.

  A filter is the conjunction of its conditions. Values of different kinds do not compare, except
  that an integer and a double compare as doubles. A condition on a field the item does not have
  fails, unless it asks for a difference.
-/
import Nvecd.Vectors.Metadata

namespace Nvecd.Vectors

open Nvecd.Lib Nvecd.Storage

/-- Of two comparisons, the lesser and the greater. -/
def threeWay (lt gt : Bool) : Int := if lt then -1 else if gt then 1 else 0

/-- `CompareValues`; -2 says that the values do not compare. -/
def compareValues : MetadataValue → MetadataValue → Int
  | .int64 l, .double r => threeWay (ltDouble (doubleOfInt64 l) r) (ltDouble r (doubleOfInt64 l))
  | .double l, .int64 r => threeWay (ltDouble l (doubleOfInt64 r)) (ltDouble (doubleOfInt64 r) l)
  | .string l, .string r => threeWay (decide (l < r)) (decide (r < l))
  | .int64 l, .int64 r => threeWay (decide (l < r)) (decide (r < l))
  | .double l, .double r => threeWay (ltDouble l r) (ltDouble r l)
  | .bool l, .bool r => threeWay (!l && r) (l && !r)
  | _, _ => -2

/-- `FilterCondition::Match`. -/
def FilterCondition.match (c : FilterCondition) (metaValue : MetadataValue) : Bool :=
  let cmp := compareValues metaValue c.value
  match c.op with
  | .kEq => cmp = 0
  | .kNe => cmp ≠ 0 ∧ cmp ≠ -2
  | .kGt => cmp = 1
  | .kGe => cmp ≥ 0
  | .kLt => cmp = -1
  | .kLe => cmp = 0 ∨ cmp = -1
  | .kIn => c.values.any fun v => compareValues metaValue v = 0

/-- The conditions of a filter. -/
abbrev MetadataFilter := List FilterCondition

/-- `MetadataFilter::Match`. -/
def MetadataFilter.match (filter : MetadataFilter) (fields : Metadata) : Bool :=
  filter.all fun c =>
    match fields.find? c.field with
    | none => c.op = .kNe
    | some value => c.match value

namespace MetadataStore

/-- `Matches`. -/
def matchesFilter (s : MetadataStore) (id : Bytes) (filter : MetadataFilter) : Bool :=
  if filter = [] then true
  else
    match s.metadata.find? id with
    | none => false
    | some fields => MetadataFilter.match filter fields

/-- `Filter`, over the candidates, or over all items if there is no candidate. -/
def filter (s : MetadataStore) (filter : MetadataFilter) (candidates : List Bytes) : List Bytes :=
  if filter = [] then
    if candidates ≠ [] then candidates else s.ids
  else if candidates ≠ [] then
    candidates.filter fun id => (s.metadata.find? id).any (MetadataFilter.match filter)
  else (s.metadata.entries.filter fun e => MetadataFilter.match filter e.2).map Prod.fst

end MetadataStore

/-! ## What a filter sees of the metadata -/

variable {fields fields' : Metadata} {s t : MetadataStore}

/-- A filter sees the fields, not the order in which they are kept. -/
theorem MetadataFilter.match_congr {filter : MetadataFilter}
    (h : ∀ key, fields'.find? key = fields.find? key) :
    MetadataFilter.match filter fields' = MetadataFilter.match filter fields := by
  unfold MetadataFilter.match
  simp only [h]

namespace MetadataStore

/-- What is stored under `field` of `id`, if `id` has metadata. -/
def getField (s : MetadataStore) (id field : Bytes) : Option (Option MetadataValue) :=
  (s.get id).map fun fields => fields.find? field

/-- Two stores with the same fields for the same ids. -/
def SameMetadata (s t : MetadataStore) : Prop :=
  ∀ id field, t.getField id field = s.getField id field

theorem SameMetadata.get (h : SameMetadata s t) (id : Bytes) :
    (s.get id = none ∧ t.get id = none) ∨
      ∃ fields fields', s.get id = some fields ∧ t.get id = some fields' ∧
        ∀ field, fields'.find? field = fields.find? field := by
  have hid := h id
  unfold getField at hid
  cases hs : s.get id with
  | none => simpa [hs] using hid []
  | some fields =>
    cases ht : t.get id with
    | none => simp [hs, ht] at hid
    | some fields' => exact .inr ⟨fields, fields', rfl, rfl, by simpa [hs, ht] using hid⟩

theorem SameMetadata.matchesFilter (h : SameMetadata s t) (id : Bytes) (filter : MetadataFilter) :
    t.matchesFilter id filter = s.matchesFilter id filter := by
  have hget : ∀ u : MetadataStore, u.metadata.find? id = u.get id := fun _ => rfl
  unfold MetadataStore.matchesFilter
  rw [hget, hget]
  obtain ⟨hs, ht⟩ | ⟨fields, fields', hs, ht, hsame⟩ := h.get id
  · rw [hs, ht]
  · rw [hs, ht]
    simp only [MetadataFilter.match_congr hsame]

theorem mem_filter_all {filter : MetadataFilter} (hf : filter ≠ []) {id : Bytes} :
    id ∈ s.filter filter [] ↔ s.matchesFilter id filter = true := by
  unfold MetadataStore.filter MetadataStore.matchesFilter
  rw [if_neg hf, if_neg hf, if_neg (not_not.mpr rfl), List.mem_map]
  constructor
  · rintro ⟨⟨i, fields⟩, he, rfl⟩
    obtain ⟨hin, hmatch⟩ := List.mem_filter.mp he
    rw [AssocMap.mem_entries.mp hin]
    exact hmatch
  · intro hm
    cases hget : s.metadata.find? id with
    | none => simp [hget] at hm
    | some fields =>
      rw [hget] at hm
      exact ⟨(id, fields), List.mem_filter.mpr ⟨AssocMap.mem_entries.mpr hget, hm⟩, rfl⟩

theorem mem_filter_of_candidates {filter : MetadataFilter} (hf : filter ≠ [])
    {candidates : List Bytes} (hc : candidates ≠ []) {id : Bytes} :
    id ∈ s.filter filter candidates ↔ id ∈ candidates ∧ s.matchesFilter id filter = true := by
  unfold MetadataStore.filter MetadataStore.matchesFilter
  rw [if_neg hf, if_neg hf, if_pos hc, List.mem_filter]
  cases s.metadata.find? id <;> rfl

theorem SameMetadata.mem_ids (h : SameMetadata s t) {id : Bytes} : id ∈ t.ids ↔ id ∈ s.ids := by
  have hmem : ∀ u : MetadataStore, id ∈ u.ids ↔ ∃ fields, u.get id = some fields := fun u =>
    AssocMap.mem_keys
  rw [hmem, hmem]
  obtain ⟨hs, ht⟩ | ⟨fields, fields', hs, ht, -⟩ := h.get id
  · rw [hs, ht]
  · simp [hs, ht]

/-- **The ids a filter selects** are the same. -/
theorem SameMetadata.mem_filter (h : SameMetadata s t) {filter : MetadataFilter}
    {candidates : List Bytes} {id : Bytes} :
    id ∈ t.filter filter candidates ↔ id ∈ s.filter filter candidates := by
  by_cases hf : filter = []
  · unfold MetadataStore.filter
    rw [if_pos hf, if_pos hf]
    by_cases hc : candidates = []
    · rw [if_neg (not_not.mpr hc), if_neg (not_not.mpr hc), h.mem_ids]
    · rw [if_pos hc, if_pos hc]
  · by_cases hc : candidates = []
    · rw [hc, mem_filter_all hf, mem_filter_all hf, h.matchesFilter]
    · rw [mem_filter_of_candidates hf hc, mem_filter_of_candidates hf hc, h.matchesFilter]

theorem getField_set (id' field : Bytes) (id : Bytes) (fields : Metadata) :
    (s.set id fields).getField id' field =
      if id' = id then some (fields.find? field) else s.getField id' field := by
  unfold getField get set
  rw [AssocMap.find?_insert]
  split <;> rfl

theorem getField_delete (id' field : Bytes) (id : Bytes) :
    (s.delete id).getField id' field = if id' = id then none else s.getField id' field := by
  unfold getField get delete
  rw [AssocMap.find?_erase]
  split <;> rfl

theorem SameMetadata.set (h : SameMetadata s t) (id : Bytes) (fields : Metadata) :
    SameMetadata (s.set id fields) (t.set id fields) := by
  intro id' field
  rw [getField_set, getField_set, h id' field]

theorem SameMetadata.delete (h : SameMetadata s t) (id : Bytes) :
    SameMetadata (s.delete id) (t.delete id) := by
  intro id' field
  rw [getField_delete, getField_delete, h id' field]

end MetadataStore

end Nvecd.Vectors
