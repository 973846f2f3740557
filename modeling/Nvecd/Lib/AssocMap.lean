/-
  File:      Nvecd/Lib/AssocMap.lean
  Subject:   Finite maps as lists of entries without repeated keys.

  The list is the order in which the map is walked: a new key goes to its end, an assignment
  leaves a key where it is. `find?` does not see this order, `entries` does.

  * `AssocMap` -- the map, with its keys pairwise distinct;
  * `insert`, `emplace`, `erase` -- assignment, insertion of a new key only, removal;
  * `find?_insert_self` … `find?_erase_of_ne` -- what they do to `find?`;
  * `mem_keys`, `mem_entries` -- the keys and the entries in terms of `find?`.
-/
import Mathlib.Data.List.Nodup
import Mathlib.Data.List.Perm.Lattice
import Mathlib.Data.Option.Basic

namespace Nvecd.Lib

universe u v

/-- The list with `v` under `k`: in place, or at the end. -/
def assign {κ : Type u} {ν : Type v} [DecidableEq κ] (k : κ) (v : ν) :
    List (κ × ν) → List (κ × ν)
  | [] => [(k, v)]
  | e :: l => if e.1 = k then (k, v) :: l else e :: assign k v l

section Assign

variable {κ : Type u} {ν : Type v} [DecidableEq κ] {k : κ} {v : ν}

theorem assign_nil : assign k v [] = [(k, v)] := rfl

theorem assign_cons (e : κ × ν) (l : List (κ × ν)) :
    assign k v (e :: l) = if e.1 = k then (k, v) :: l else e :: assign k v l := rfl

theorem keys_assign_of_mem {l : List (κ × ν)} (h : k ∈ l.map Prod.fst) :
    (assign k v l).map Prod.fst = l.map Prod.fst := by
  induction l with
  | nil => simp at h
  | cons e l ih =>
    by_cases he : e.1 = k
    · simp [assign_cons, he]
    · have hk : k ∈ l.map Prod.fst := by
        simpa [Ne.symm he] using h
      simp [assign_cons, he, ih hk]

theorem assign_of_not_mem {l : List (κ × ν)} (h : k ∉ l.map Prod.fst) :
    assign k v l = l ++ [(k, v)] := by
  induction l with
  | nil => rfl
  | cons e l ih =>
    rw [List.map_cons, List.mem_cons, not_or] at h
    simp [assign_cons, Ne.symm h.1, ih h.2]

theorem nodup_keys_assign {l : List (κ × ν)} (h : (l.map Prod.fst).Nodup) :
    ((assign k v l).map Prod.fst).Nodup := by
  by_cases hk : k ∈ l.map Prod.fst
  · rw [keys_assign_of_mem hk]
    exact h
  · rw [assign_of_not_mem hk, List.map_append, List.nodup_append]
    refine ⟨h, by simp, ?_⟩
    rintro a ha b hb rfl
    simp only [List.map_cons, List.map_nil, List.mem_singleton] at hb
    exact hk (hb ▸ ha)

theorem mem_keys_assign {l : List (κ × ν)} {k' : κ} :
    k' ∈ (assign k v l).map Prod.fst ↔ k' = k ∨ k' ∈ l.map Prod.fst := by
  by_cases hk : k ∈ l.map Prod.fst
  · rw [keys_assign_of_mem hk, or_iff_right_of_imp fun heq => heq ▸ hk]
  · rw [assign_of_not_mem hk, List.map_append, List.mem_append, List.map_cons, List.map_nil,
      List.mem_singleton, or_comm]

theorem mem_assign {l : List (κ × ν)} (h : (l.map Prod.fst).Nodup) {e : κ × ν} :
    e ∈ assign k v l ↔ e = (k, v) ∨ e ∈ l ∧ e.1 ≠ k := by
  induction l with
  | nil => simp [assign_nil]
  | cons a l ih =>
    rw [List.map_cons, List.nodup_cons] at h
    rw [assign_cons]
    split
    · rename_i ha
      have hfresh : ∀ e ∈ l, e.1 ≠ k :=
        fun e he heq => h.1 (ha.trans heq.symm ▸ List.mem_map_of_mem he)
      simp only [List.mem_cons]
      constructor
      · rintro (rfl | he)
        · exact .inl rfl
        · exact .inr ⟨.inr he, hfresh e he⟩
      · rintro (rfl | ⟨rfl | he, hne⟩)
        · exact .inl rfl
        · exact absurd ha hne
        · exact .inr he
    · rename_i ha
      rw [List.mem_cons, ih h.2, List.mem_cons]
      constructor
      · rintro (rfl | rfl | ⟨he, hne⟩)
        · exact .inr ⟨.inl rfl, ha⟩
        · exact .inl rfl
        · exact .inr ⟨.inr he, hne⟩
      · rintro (rfl | ⟨rfl | he, hne⟩)
        · exact .inr (.inl rfl)
        · exact .inl rfl
        · exact .inr (.inr ⟨he, hne⟩)

end Assign

/-- **A finite map**: its entries in the order in which it is walked. -/
structure AssocMap (κ : Type u) (ν : Type v) where
  entries : List (κ × ν)
  nodupKeys : (entries.map Prod.fst).Nodup

namespace AssocMap

variable {κ : Type u} {ν : Type v}

def empty : AssocMap κ ν := ⟨[], List.nodup_nil⟩

instance : Inhabited (AssocMap κ ν) := ⟨empty⟩

def keys (m : AssocMap κ ν) : List κ := m.entries.map Prod.fst

def size (m : AssocMap κ ν) : Nat := m.entries.length

@[simp] theorem keys_empty : (empty : AssocMap κ ν).keys = [] := rfl

theorem length_keys (m : AssocMap κ ν) : m.keys.length = m.size := by
  simp [keys, size]

/-- Two maps with the same keys have the same size. -/
theorem size_eq_of_mem_keys {m m' : AssocMap κ ν} (h : ∀ k, k ∈ m.keys ↔ k ∈ m'.keys) :
    m.size = m'.size := by
  rw [← length_keys, ← length_keys]
  exact ((List.perm_ext_iff_of_nodup m.nodupKeys m'.nodupKeys).mpr h).length_eq

theorem ext_entries {m m' : AssocMap κ ν} (h : m.entries = m'.entries) : m = m' := by
  cases m
  cases m'
  simp_all

instance [DecidableEq κ] [DecidableEq ν] : DecidableEq (AssocMap κ ν) := fun m m' =>
  decidable_of_iff (m.entries = m'.entries) ⟨ext_entries, congrArg entries⟩

/-- Only the entries that satisfy `p`. -/
def filter (p : κ × ν → Bool) (m : AssocMap κ ν) : AssocMap κ ν :=
  ⟨m.entries.filter p, m.nodupKeys.sublist (List.filter_sublist.map _)⟩

/-- Every value replaced, the keys left as they are. -/
def mapValues {μ : Type v} (f : ν → μ) (m : AssocMap κ ν) : AssocMap κ μ :=
  ⟨m.entries.map fun e => (e.1, f e.2), by simpa [Function.comp_def] using m.nodupKeys⟩

variable [DecidableEq κ]

def find? (m : AssocMap κ ν) (k : κ) : Option ν :=
  (m.entries.find? fun e => e.1 = k).map Prod.snd

def contains (m : AssocMap κ ν) (k : κ) : Bool := (m.find? k).isSome

/-- `m[k] = v`. -/
def insert (m : AssocMap κ ν) (k : κ) (v : ν) : AssocMap κ ν :=
  ⟨assign k v m.entries, nodup_keys_assign m.nodupKeys⟩

/-- `m.emplace(k, v)`: a key that is there keeps its value. -/
def emplace (m : AssocMap κ ν) (k : κ) (v : ν) : AssocMap κ ν :=
  if m.contains k then m else m.insert k v

/-- `m.erase(k)`. -/
def erase (m : AssocMap κ ν) (k : κ) : AssocMap κ ν := m.filter fun e => e.1 ≠ k

@[simp] theorem find?_empty (k : κ) : (empty : AssocMap κ ν).find? k = none := rfl

theorem mem_entries {m : AssocMap κ ν} {k : κ} {v : ν} :
    (k, v) ∈ m.entries ↔ m.find? k = some v := by
  obtain ⟨l, hl⟩ := m
  induction l with
  | nil => simp [find?]
  | cons e l ih =>
    rw [List.map_cons, List.nodup_cons] at hl
    have ih' := ih hl.2
    simp only [find?] at ih' ⊢
    by_cases he : e.1 = k
    · have hno : ∀ w, (k, w) ∉ l := fun w hw => hl.1 (he ▸ List.mem_map_of_mem hw)
      rw [List.mem_cons, List.find?_cons_of_pos (by simpa using he)]
      constructor
      · rintro (rfl | h)
        · rfl
        · exact absurd h (hno v)
      · intro h
        refine .inl (Prod.ext he.symm ?_)
        simpa using h.symm
    · rw [List.mem_cons, List.find?_cons_of_neg (by simpa using he), ← ih']
      constructor
      · rintro (rfl | h)
        · exact absurd rfl he
        · exact h
      · exact .inr

theorem mem_keys {m : AssocMap κ ν} {k : κ} : k ∈ m.keys ↔ ∃ v, m.find? k = some v := by
  simp only [keys, List.mem_map, Prod.exists, exists_and_right, exists_eq_right, mem_entries]

theorem find?_eq_none {m : AssocMap κ ν} {k : κ} : m.find? k = none ↔ k ∉ m.keys := by
  rw [mem_keys, Option.eq_none_iff_forall_ne_some, not_exists]

theorem contains_iff {m : AssocMap κ ν} {k : κ} : m.contains k = true ↔ k ∈ m.keys := by
  rw [contains, Option.isSome_iff_exists, mem_keys]

@[simp] theorem find?_insert_self (m : AssocMap κ ν) (k : κ) (v : ν) :
    (m.insert k v).find? k = some v := by
  simp only [find?, insert]
  induction m.entries with
  | nil => simp [assign_nil]
  | cons e l ih =>
    by_cases he : e.1 = k
    · simp [assign_cons, he]
    · simp [assign_cons, he, ih]

theorem find?_insert_of_ne (m : AssocMap κ ν) {k k' : κ} (v : ν) (h : k' ≠ k) :
    (m.insert k v).find? k' = m.find? k' := by
  simp only [find?, insert]
  induction m.entries with
  | nil => simp [assign_nil, Ne.symm h]
  | cons e l ih =>
    by_cases he : e.1 = k
    · simp [assign_cons, he, Ne.symm h]
    · by_cases he' : e.1 = k'
      · simp [assign_cons, he', h]
      · simpa [assign_cons, he, he', h] using ih

/-- Assigning the value a key has changes nothing. -/
theorem insert_of_find? {m : AssocMap κ ν} {k : κ} {v : ν} (h : m.find? k = some v) :
    m.insert k v = m := by
  have hlist : ∀ l : List (κ × ν), (l.find? fun e => e.1 = k).map Prod.snd = some v →
      assign k v l = l := by
    intro l
    induction l with
    | nil => simp
    | cons e l ih =>
      intro hl
      by_cases he : e.1 = k
      · rw [List.find?_cons_of_pos (by simpa using he), Option.map_some, Option.some.injEq] at hl
        rw [assign_cons, if_pos he, ← hl, ← he]
      · rw [List.find?_cons_of_neg (by simpa using he)] at hl
        simp [assign_cons, he, ih hl]
  exact ext_entries (hlist m.entries h)

theorem find?_insert (m : AssocMap κ ν) (k k' : κ) (v : ν) :
    (m.insert k v).find? k' = if k' = k then some v else m.find? k' := by
  by_cases h : k' = k
  · subst h
    simp
  · rw [find?_insert_of_ne m v h, if_neg h]

theorem mem_keys_insert {m : AssocMap κ ν} {k k' : κ} {v : ν} :
    k' ∈ (m.insert k v).keys ↔ k' = k ∨ k' ∈ m.keys := by
  rw [mem_keys, mem_keys, find?_insert]
  by_cases h : k' = k <;> simp [h]

theorem keys_insert_of_mem {m : AssocMap κ ν} {k : κ} {v : ν} (h : k ∈ m.keys) :
    (m.insert k v).keys = m.keys := keys_assign_of_mem h

theorem entries_insert_of_not_mem {m : AssocMap κ ν} {k : κ} {v : ν} (h : k ∉ m.keys) :
    (m.insert k v).entries = m.entries ++ [(k, v)] := assign_of_not_mem h

theorem keys_insert_of_not_mem {m : AssocMap κ ν} {k : κ} {v : ν} (h : k ∉ m.keys) :
    (m.insert k v).keys = m.keys ++ [k] := by
  rw [keys, entries_insert_of_not_mem h, List.map_append]
  rfl

theorem size_insert_of_mem {m : AssocMap κ ν} {k : κ} {v : ν} (h : k ∈ m.keys) :
    (m.insert k v).size = m.size := by
  rw [← length_keys, keys_insert_of_mem h, length_keys]

theorem size_insert_of_not_mem {m : AssocMap κ ν} {k : κ} {v : ν} (h : k ∉ m.keys) :
    (m.insert k v).size = m.size + 1 := by
  rw [← length_keys, keys_insert_of_not_mem h, List.length_append, length_keys]
  rfl

theorem find?_erase (m : AssocMap κ ν) (k k' : κ) :
    (m.erase k).find? k' = if k' = k then none else m.find? k' := by
  simp only [find?, erase, filter, List.find?_filter]
  by_cases h : k' = k
  · subst h
    rw [if_pos rfl, Option.map_eq_none_iff, List.find?_eq_none]
    simp
  · rw [if_neg h]
    congr 2
    funext e
    by_cases he : e.1 = k'
    · simp [he, h]
    · simp [he]

theorem mem_keys_erase {m : AssocMap κ ν} {k k' : κ} :
    k' ∈ (m.erase k).keys ↔ k' ≠ k ∧ k' ∈ m.keys := by
  rw [mem_keys, mem_keys, find?_erase]
  by_cases h : k' = k <;> simp [h]

theorem keys_erase (m : AssocMap κ ν) (k : κ) : (m.erase k).keys = m.keys.erase k := by
  have hnd : m.keys.Nodup := m.nodupKeys
  rw [hnd.erase_eq_filter]
  simp only [keys, erase, filter, List.filter_map]
  congr 1
  apply List.filter_congr
  intro e _
  by_cases he : e.1 = k <;> simp [he]

theorem size_erase_of_mem {m : AssocMap κ ν} {k : κ} (h : k ∈ m.keys) :
    (m.erase k).size = m.size - 1 := by
  rw [← length_keys, keys_erase, List.length_erase_of_mem h, length_keys]

/-- An entry, and the map without its key. -/
theorem entries_perm_erase {m : AssocMap κ ν} {k : κ} {v : ν} (h : m.find? k = some v) :
    m.entries.Perm ((k, v) :: (m.erase k).entries) := by
  have hnot : (k, v) ∉ (m.erase k).entries := by
    rw [mem_entries, find?_erase, if_pos rfl]
    exact fun hcon => by cases hcon
  refine (List.perm_ext_iff_of_nodup (.of_map _ m.nodupKeys)
    (List.nodup_cons.mpr ⟨hnot, .of_map _ (m.erase k).nodupKeys⟩)).mpr fun e => ?_
  obtain ⟨k', v'⟩ := e
  rw [List.mem_cons, mem_entries, mem_entries, find?_erase]
  by_cases hk : k' = k
  · rw [hk, h, if_pos rfl]
    simp [eq_comm]
  · simp [hk]

theorem find?_filter (p : κ × ν → Bool) (m : AssocMap κ ν) (k : κ) :
    (m.filter p).find? k = (m.find? k).filter fun v => p (k, v) := by
  ext v
  rw [← mem_entries, Option.filter_eq_some_iff, ← mem_entries]
  simp [filter]

@[simp] theorem find?_mapValues {μ : Type v} (f : ν → μ) (m : AssocMap κ ν) (k : κ) :
    (m.mapValues f).find? k = (m.find? k).map f := by
  simp only [find?, mapValues, List.find?_map, Option.map_map]
  rfl

theorem size_eq_zero {m : AssocMap κ ν} : m.size = 0 ↔ ∀ k, m.find? k = none := by
  rw [← length_keys, List.length_eq_zero_iff, List.eq_nil_iff_forall_not_mem]
  exact forall_congr' fun k => find?_eq_none.symm

end AssocMap

end Nvecd.Lib
