/-
  File:      Nvecd/Events/CoBounds.lean
  Subject:   The bounds of the co-occurrence index: at most `max_neighbors_per_item` neighbours of
             an item, and no score below `min_support`.

  Pruning an item brings its own row within the bounds and only removes from others, so an update
  that prunes every item whose row it has written leaves all rows within them. Two updates do not:
  the negative signal of a deletion is written after the pruning, and `UpdateFromEvents` prunes a
  row only if it is too long, whatever the scores in it.

  * `Bounded`, `bounded_foldl_pruneItem` -- the bounds, and the pruning that restores them;
  * `scoreAfter`, `partners` -- what a list of changes makes of a score and of a row;
  * `CoOp.pruningFollows` -- the updates that write nothing which stays unpruned;
  * `pruning_bounds` -- the bounds hold in runs of such updates;
  * `bounds_broken` -- runs in which one does.
-/
import Nvecd.Events.CoMatrix

namespace Nvecd.Events

open Nvecd.Lib Nvecd.Storage SparseMatrix FloatOps

/-! ## 1. Bounds and pruning -/

section Bounds

variable {F : Type} {m m' : CoScores F} {a : Bytes}

theorem shrinks_removeNeighbors {itemId : Bytes} {removed : List Bytes} :
    Shrinks (removeNeighbors m itemId removed) m := by
  intro a b s h
  rw [entry_removeNeighbors] at h
  split at h
  · cases h
  · exact h

/-- An empty row is no entry. -/
theorem entry_close (m : CoScores F) (itemId a b : Bytes) :
    entry (if ((m.find? itemId).getD .empty).size = 0 then m.erase itemId else m) a b =
      entry m a b := by
  split
  · rename_i hsize
    rw [entry_erase]
    split
    · subst a
      rw [← find?_row, AssocMap.size_eq_zero.mp hsize b]
    · rfl
  · rfl

variable [FloatOps F] {cfg : CoOccurrenceConfig F}

/-- A support is demanded, and the score does not have it. -/
def low (cfg : CoOccurrenceConfig F) (score : F) : Bool :=
  lt zero cfg.minSupport && lt (magnitude score) cfg.minSupport

/-- The row `a` is within the bounds. -/
structure RowBounded (cfg : CoOccurrenceConfig F) (m : CoScores F) (a : Bytes) : Prop where
  neighbors : (neighborKeys m a).length ≤ cfg.maxNeighborsPerItem
  support : ∀ b s, entry m a b = some s → low cfg s = false

/-- **All rows are within the bounds.** -/
def Bounded (cfg : CoOccurrenceConfig F) (m : CoScores F) : Prop := ∀ a, RowBounded cfg m a

theorem rowBounded_of_none (h : ∀ b, entry m a b = none) : RowBounded cfg m a := by
  have hnone : ∀ b s, entry m a b ≠ some s := fun b s hb => by rw [h b] at hb; cases hb
  refine ⟨?_, fun b s hb => absurd hb (hnone b s)⟩
  exact Nat.le_trans (length_neighborKeys_le (l := []) fun b s hb => absurd hb (hnone b s))
    (Nat.zero_le _)

theorem bounded_empty : Bounded cfg (AssocMap.empty : CoScores F) :=
  fun _ => rowBounded_of_none fun _ => rfl

theorem RowBounded.mono (h : RowBounded cfg m a) (hs : Shrinks m' m) : RowBounded cfg m' a := by
  refine ⟨?_, fun b s hb => h.support b s (hs a b s hb)⟩
  refine Nat.le_trans (length_neighborKeys_le fun b s hb => ?_) h.neighbors
  exact mem_neighborKeys.2 ⟨s, hs a b s hb⟩

theorem Bounded.mono (h : Bounded cfg m) (hs : Shrinks m' m) : Bounded cfg m' :=
  fun a => (h a).mono hs

/-- Those that are left of a row when what is low in it has been removed. -/
def supported (cfg : CoOccurrenceConfig F) (m : CoScores F) (itemId : Bytes) : CoScores F :=
  if lt zero cfg.minSupport then
    removeNeighbors m itemId
      ((((m.find? itemId).getD .empty).entries.filter fun e =>
        lt (magnitude e.2) cfg.minSupport).map Prod.fst)
  else m

/-- Those that are left when the weakest beyond the limit have been removed. -/
def trimmed (cfg : CoOccurrenceConfig F) (m : CoScores F) (itemId : Bytes) : CoScores F :=
  if 0 < cfg.maxNeighborsPerItem ∧
      cfg.maxNeighborsPerItem < ((m.find? itemId).getD .empty).size then
    removeNeighbors m itemId
      (((((m.find? itemId).getD .empty).entries.insertionSort fun a b =>
        !lt (magnitude a.2) (magnitude b.2)).drop cfg.maxNeighborsPerItem).map Prod.fst)
  else m

/-- Pruning an item in its three parts. -/
theorem entry_pruneItem (cfg : CoOccurrenceConfig F) (m : CoScores F) (itemId a b : Bytes) :
    entry (pruneItem cfg m itemId) a b =
      if m.find? itemId = none then entry m a b
      else entry (trimmed cfg (supported cfg m itemId) itemId) a b := by
  cases hrow : m.find? itemId with
  | none =>
    unfold pruneItem
    rw [hrow]
    rfl
  | some neighbors =>
    have hparts : pruneItem cfg m itemId =
        if (((trimmed cfg (supported cfg m itemId) itemId).find? itemId).getD .empty).size = 0 then
          (trimmed cfg (supported cfg m itemId) itemId).erase itemId
        else trimmed cfg (supported cfg m itemId) itemId := by
      unfold pruneItem trimmed supported
      simp only [hrow, Option.getD_some]
    rw [hparts, entry_close, if_neg (Option.some_ne_none _)]

theorem shrinks_supported (itemId : Bytes) : Shrinks (supported cfg m itemId) m := by
  unfold supported
  split
  · exact shrinks_removeNeighbors
  · exact .refl m

theorem shrinks_trimmed (itemId : Bytes) : Shrinks (trimmed cfg m itemId) m := by
  unfold trimmed
  split
  · exact shrinks_removeNeighbors
  · exact .refl m

theorem shrinks_pruneItem (itemId : Bytes) : Shrinks (pruneItem cfg m itemId) m := by
  intro a b s h
  rw [entry_pruneItem] at h
  split at h
  · exact h
  · exact shrinks_supported itemId a b s (shrinks_trimmed itemId a b s h)

/-- Nothing low is left in the row. -/
theorem low_supported {itemId b : Bytes} {s : F}
    (h : entry (supported cfg m itemId) itemId b = some s) : low cfg s = false := by
  unfold supported at h
  unfold low
  split at h
  · rw [entry_removeNeighbors] at h
    split at h
    · cases h
    · rename_i hkept
      -- the entry stands in the row, and was not taken for removal
      have hmem : (b, s) ∈ ((m.find? itemId).getD .empty).entries :=
        AssocMap.mem_entries.mpr ((find?_row m itemId b).trans h)
      cases hlow : lt (magnitude s) cfg.minSupport with
      | false => rw [Bool.and_false]
      | true =>
        refine absurd (.inl ⟨rfl, ?_⟩) hkept
        exact List.mem_map.mpr ⟨(b, s), List.mem_filter.mpr ⟨hmem, hlow⟩, rfl⟩
  · rename_i hno
    rw [Bool.not_eq_true] at hno
    rw [hno, Bool.false_and]

/-- The row is no longer than the limit. -/
theorem length_trimmed (hpos : 0 < cfg.maxNeighborsPerItem) (itemId : Bytes) :
    (neighborKeys (trimmed cfg m itemId) itemId).length ≤ cfg.maxNeighborsPerItem := by
  unfold trimmed
  generalize hrow : (m.find? itemId).getD .empty = row
  split
  · generalize hsorted : (row.entries.insertionSort fun a b =>
      !lt (magnitude a.2) (magnitude b.2)) = sorted
    have hkept : ((sorted.take cfg.maxNeighborsPerItem).map Prod.fst).length ≤
        cfg.maxNeighborsPerItem := by
      rw [List.length_map]
      exact List.length_take_le _ _
    refine Nat.le_trans (length_neighborKeys_le fun b s h => ?_) hkept
    rw [entry_removeNeighbors] at h
    split at h
    · cases h
    · rename_i hnot
      have hmem : (b, s) ∈ row.entries := by
        rw [← hrow]
        exact AssocMap.mem_entries.mpr ((find?_row m itemId b).trans h)
      have hin : (b, s) ∈ sorted := by
        rw [← hsorted]
        exact (List.perm_insertionSort _ _).mem_iff.mpr hmem
      rw [← List.take_append_drop cfg.maxNeighborsPerItem sorted, List.mem_append] at hin
      rcases hin with hin | hin
      · exact List.mem_map.mpr ⟨(b, s), hin, rfl⟩
      · exact absurd (.inl ⟨rfl, List.mem_map.mpr ⟨(b, s), hin, rfl⟩⟩) hnot
  · rename_i hshort
    have hsize : row.size ≤ cfg.maxNeighborsPerItem := Nat.le_of_not_lt fun h => hshort ⟨hpos, h⟩
    rw [neighborKeys, hrow, AssocMap.length_keys]
    exact hsize

/-- **Pruning brings a row within the bounds.** -/
theorem rowBounded_pruneItem (hpos : 0 < cfg.maxNeighborsPerItem) (itemId : Bytes) :
    RowBounded cfg (pruneItem cfg m itemId) itemId := by
  by_cases hrow : m.find? itemId = none
  · refine rowBounded_of_none fun b => ?_
    rw [entry_pruneItem, if_pos hrow, entry_of_no_row hrow]
  · have hentry : ∀ b, entry (pruneItem cfg m itemId) itemId b =
        entry (trimmed cfg (supported cfg m itemId) itemId) itemId b := by
      intro b
      rw [entry_pruneItem, if_neg hrow]
    refine ⟨?_, fun b s h => ?_⟩
    · have hlen := length_trimmed (m := supported cfg m itemId) hpos itemId
      refine Nat.le_trans (length_neighborKeys_le fun b s h => ?_) hlen
      rw [hentry] at h
      exact mem_neighborKeys.2 ⟨s, h⟩
    · rw [hentry] at h
      exact low_supported (shrinks_trimmed itemId itemId b s h)

/-- A row within the bounds is left as it is. -/
theorem entry_pruneItem_of_bounded {itemId : Bytes} (h : RowBounded cfg m itemId) (a b : Bytes) :
    entry (pruneItem cfg m itemId) a b = entry m a b := by
  have hsupported : supported cfg m itemId = m := by
    unfold supported
    split
    · rename_i hdemand
      have hempty : (((m.find? itemId).getD .empty).entries.filter fun e =>
          lt (magnitude e.2) cfg.minSupport) = [] := by
        rw [List.filter_eq_nil_iff]
        rintro ⟨c, s⟩ hmem hlow
        have hs := h.support c s ((find?_row m itemId c).symm.trans (AssocMap.mem_entries.mp hmem))
        rw [low, hdemand, Bool.true_and] at hs
        rw [hs] at hlow
        cases hlow
      rw [hempty]
      rfl
    · rfl
  have htrimmed : trimmed cfg m itemId = m := by
    unfold trimmed
    have hsize := h.neighbors
    rw [neighborKeys, AssocMap.length_keys] at hsize
    rw [if_neg fun hlong => Nat.not_lt.mpr hsize hlong.2]
  rw [entry_pruneItem, hsupported, htrimmed]
  split <;> rfl

/-- Pruning an item writes no pair of two others. -/
theorem entry_pruneItem_of_ne {itemId b : Bytes} (ha : a ≠ itemId) (hb : b ≠ itemId) :
    entry (pruneItem cfg m itemId) a b = entry m a b := by
  have hremoved : ∀ (m : CoScores F) (removed : List Bytes),
      entry (removeNeighbors m itemId removed) a b = entry m a b := by
    intro m removed
    rw [entry_removeNeighbors, if_neg]
    rintro (⟨hitem, -⟩ | ⟨hitem, -⟩)
    · exact ha hitem
    · exact hb hitem
  have hsupported : entry (supported cfg m itemId) a b = entry m a b := by
    unfold supported
    split
    · exact hremoved _ _
    · rfl
  have htrimmed : ∀ m : CoScores F, entry (trimmed cfg m itemId) a b = entry m a b := by
    intro m
    unfold trimmed
    split
    · exact hremoved _ _
    · rfl
  rw [entry_pruneItem, htrimmed, hsupported, ite_self]

/-- **Every row that may be out of bounds is pruned**: the others are not made worse. -/
theorem bounded_foldl_pruneItem (hpos : 0 < cfg.maxNeighborsPerItem) {items : List Bytes}
    (h : ∀ a, a ∉ items → RowBounded cfg m a) : Bounded cfg (items.foldl (pruneItem cfg) m) := by
  induction items generalizing m with
  | nil => exact fun a => h a List.not_mem_nil
  | cons item items ih =>
    refine ih fun a ha => ?_
    by_cases hitem : a = item
    · subst hitem
      exact rowBounded_pruneItem hpos a
    · exact (h a fun hmem => (List.mem_cons.mp hmem).elim hitem ha).mono (shrinks_pruneItem item)

end Bounds

/-! ## 2. Changes -/

/-- A pair of items, and what is done to its score. -/
abbrev Change (F : Type) := (Bytes × Bytes) × (F → F)

/-- The change is one of the pair, in either direction. -/
def concerns {F : Type} (c : Change F) (a b : Bytes) : Bool :=
  decide (c.1.1 = a ∧ c.1.2 = b ∨ c.1.1 = b ∧ c.1.2 = a)

section Changes

variable {F : Type} {changes : List (Change F)} {a b : Bytes}

/-- Two items in every pair. -/
def Proper (changes : List (Change F)) : Prop := ∀ c ∈ changes, c.1.1 ≠ c.1.2

/-- The items that the changes pair with `a`. -/
def partners (changes : List (Change F)) (a : Bytes) : List Bytes :=
  changes.flatMap fun c =>
    if c.1.1 = a then [c.1.2] else if c.1.2 = a then [c.1.1] else []

variable [FloatOps F] {m : CoScores F}

/-- A score after changes; one that is not there begins as zero. -/
def scoreAfter (changes : List (Change F)) (a b : Bytes) (score : Option F) : Option F :=
  changes.foldl (fun s c => if concerns c a b then some (c.2 (s.getD zero)) else s) score

/-- The changes, written into the matrix. -/
def applyChanges (changes : List (Change F)) (m : CoScores F) : CoScores F :=
  changes.foldl (fun m c => updatePair c.2 m c.1.1 c.1.2) m

theorem entry_applyChanges (hs : ∀ a b, entry m a b = entry m b a) (hp : Proper changes)
    (a b : Bytes) :
    entry (applyChanges changes m) a b = scoreAfter changes a b (entry m a b) := by
  induction changes generalizing m with
  | nil => rfl
  | cons c changes ih =>
    have hne : c.1.1 ≠ c.1.2 := hp c List.mem_cons_self
    have hentry := entry_updatePair c.2 hne (hs c.1.1 c.1.2)
    have hsymm : ∀ a b, entry (updatePair c.2 m c.1.1 c.1.2) a b =
        entry (updatePair c.2 m c.1.1 c.1.2) b a := by
      intro a b
      rw [hentry, hentry, hs a b]
      exact if_congr (by tauto) rfl rfl
    have hlater := ih hsymm (fun c' hc' => hp c' (List.mem_cons_of_mem c hc'))
    refine hlater.trans ?_
    show scoreAfter changes a b _ = scoreAfter changes a b _
    congr 1
    rw [hentry]
    simp only [concerns, decide_eq_true_eq]
    by_cases hpair : c.1.1 = a ∧ c.1.2 = b ∨ c.1.1 = b ∧ c.1.2 = a
    · rw [if_pos hpair, if_pos (by tauto)]
      rcases hpair with ⟨rfl, rfl⟩ | ⟨rfl, rfl⟩
      · rfl
      · rw [hs]
    · rw [if_neg hpair, if_neg (by tauto)]

/-- A pair that no change is about. -/
theorem scoreAfter_eq_self (h : ∀ c ∈ changes, concerns c a b = false) (score : Option F) :
    scoreAfter changes a b score = score := by
  unfold scoreAfter
  refine List.foldlRecOn changes _ (motive := fun s => s = score) rfl fun s hs c hc => ?_
  rw [h c hc]
  exact hs

theorem scoreAfter_cons (c : Change F) (changes : List (Change F)) (a b : Bytes)
    (score : Option F) :
    scoreAfter (c :: changes) a b score =
      scoreAfter changes a b (if concerns c a b then some (c.2 (score.getD zero)) else score) := rfl

/-- A pair that is there, or that a change is about, is there afterwards. -/
theorem isSome_scoreAfter (score : Option F) :
    (scoreAfter changes a b score).isSome =
      (score.isSome || changes.any fun c => concerns c a b) := by
  induction changes generalizing score with
  | nil => rw [List.any_nil, Bool.or_false]; rfl
  | cons c changes ih =>
    rw [scoreAfter_cons, ih, List.any_cons]
    cases concerns c a b
    · rfl
    · rw [if_pos rfl, Option.isSome_some, Bool.true_or]
      exact (Bool.or_true _).symm

/-- A partner stands in the row. -/
theorem mem_row_of_mem_partners (hs : ∀ a b, entry m a b = entry m b a) (hp : Proper changes)
    (h : b ∈ partners changes a) : b ∈ neighborKeys (applyChanges changes m) a := by
  obtain ⟨c, hc, hb⟩ := List.mem_flatMap.mp h
  have hpair : concerns c a b = true := by
    refine decide_eq_true ?_
    split at hb
    · exact .inl ⟨‹_›, (List.mem_singleton.mp hb).symm⟩
    · split at hb
      · exact .inr ⟨(List.mem_singleton.mp hb).symm, ‹_›⟩
      · cases hb
  rw [mem_neighborKeys, ← Option.isSome_iff_exists, entry_applyChanges hs hp, isSome_scoreAfter,
    List.any_eq_true.mpr ⟨c, hc, hpair⟩, Bool.or_true]

/-- A neighbour stays one. -/
theorem mem_row_of_mem_row (hs : ∀ a b, entry m a b = entry m b a) (hp : Proper changes)
    (h : b ∈ neighborKeys m a) : b ∈ neighborKeys (applyChanges changes m) a := by
  rw [mem_neighborKeys, ← Option.isSome_iff_exists] at h ⊢
  rw [entry_applyChanges hs hp, isSome_scoreAfter, h, Bool.true_or]

/-- New and old neighbours make up the row. -/
theorem length_row_of_changes (hs : ∀ a b, entry m a b = entry m b a) (hp : Proper changes)
    (a : Bytes) :
    (partners changes a ∪ neighborKeys m a).length ≤
      (neighborKeys (applyChanges changes m) a).length := by
  have hnodup : (partners changes a ∪ neighborKeys m a).Nodup := (nodup_neighborKeys m a).union _
  refine hnodup.length_le_of_subset fun b hb => ?_
  rcases List.mem_union_iff.mp hb with hb | hb
  · exact mem_row_of_mem_partners hs hp hb
  · exact mem_row_of_mem_row hs hp hb

/-- Every change is one of a pair that is there. -/
def AmongNeighbors (changes : List (Change F)) (m : CoScores F) : Prop :=
  ∀ c ∈ changes, (entry m c.1.1 c.1.2).isSome = true

/-- Such changes write no new pair. -/
theorem isSome_applyChanges (hs : ∀ a b, entry m a b = entry m b a) (hp : Proper changes)
    (h : AmongNeighbors changes m) (a b : Bytes) :
    (entry (applyChanges changes m) a b).isSome = (entry m a b).isSome := by
  rw [entry_applyChanges hs hp, isSome_scoreAfter]
  cases hany : changes.any fun c => concerns c a b with
  | false => rw [Bool.or_false]
  | true =>
    obtain ⟨c, hc, hpair⟩ := List.any_eq_true.mp hany
    have hthere := h c hc
    rcases of_decide_eq_true hpair with ⟨rfl, rfl⟩ | ⟨rfl, rfl⟩
    · rw [hthere, Bool.or_true]
    · rw [hs, hthere, Bool.or_true]

variable {cfg : CoOccurrenceConfig F}

omit [FloatOps F] in
/-- A row that is not written is as long as before. -/
theorem length_row_congr {m' : CoScores F}
    (h : ∀ b, (entry m' a b).isSome = (entry m a b).isSome) :
    (neighborKeys m' a).length ≤ (neighborKeys m a).length := by
  refine length_neighborKeys_le fun b s hb => ?_
  rw [mem_neighborKeys, ← Option.isSome_iff_exists, ← h, hb]
  rfl

/-- Where no support is demanded, nothing is low. -/
theorem low_eq_false (h : lt zero cfg.minSupport = false) (score : F) : low cfg score = false := by
  rw [low, h, Bool.false_and]

/-- Changes of pairs that are there break no bound if no support is demanded. -/
theorem bounded_applyChanges (hno : lt zero cfg.minSupport = false)
    (hs : ∀ a b, entry m a b = entry m b a) (hp : Proper changes) (hb : Bounded cfg m)
    (h : AmongNeighbors changes m) : Bounded cfg (applyChanges changes m) :=
  fun a => ⟨(length_row_congr (isSome_applyChanges hs hp h a)).trans (hb a).neighbors,
    fun _ s _ => low_eq_false hno s⟩

theorem applyChanges_append (changes changes' : List (Change F)) (m : CoScores F) :
    applyChanges (changes ++ changes') m = applyChanges changes' (applyChanges changes m) :=
  List.foldl_append

/-- Changes that come from a list of events, event by event. -/
theorem foldl_applyChanges {α : Type} (f : α → List (Change F)) (l : List α) (m : CoScores F) :
    l.foldl (fun m e => applyChanges (f e) m) m = applyChanges (l.flatMap f) m := by
  induction l generalizing m with
  | nil => rfl
  | cons e l ih => rw [List.foldl_cons, ih, List.flatMap_cons, applyChanges_append]

end Changes

/-! ## 3. The operations -/

section Operations

variable {F : Type} [FloatOps F] {temporalEnabled : Bool} {halfLifeSec : UInt64}

/-- What a pair of events adds. -/
def gain (temporalEnabled : Bool) (halfLifeSec : UInt64) (event1 event2 : Event) :
    List (Change F) :=
  if event1.itemId = event2.itemId then []
  else
    let score : F := pairScore temporalEnabled halfLifeSec event1 event2
    if beq score zero then [] else [((event1.itemId, event2.itemId), fun s => add s score)]

/-- What every event adds with every later one. -/
def allGains (temporalEnabled : Bool) (halfLifeSec : UInt64) : List Event → List (Change F)
  | [] => []
  | event1 :: rest =>
    rest.flatMap (gain temporalEnabled halfLifeSec event1) ++
      allGains temporalEnabled halfLifeSec rest

/-- What the negative signal of a deletion takes. -/
def loss (removedId : Bytes) (negativeWeight : UInt64) (event : Event) : List (Change F) :=
  if event.itemId = removedId then []
  else [((removedId, event.itemId), fun s => sub s (scaled event.score negativeWeight))]

theorem addPair_eq (event1 event2 : Event) (m : CoScores F) :
    addPair temporalEnabled halfLifeSec event1 event2 m =
      applyChanges (gain temporalEnabled halfLifeSec event1 event2) m := by
  unfold addPair gain
  split
  · rfl
  · simp only
    split <;> rfl

theorem addPairs_eq (event1 : Event) (events : List Event) (m : CoScores F) :
    events.foldl (fun m event2 => addPair temporalEnabled halfLifeSec event1 event2 m) m =
      applyChanges (events.flatMap (gain temporalEnabled halfLifeSec event1)) m := by
  rw [← foldl_applyChanges]
  congr 1
  funext m event2
  exact addPair_eq event1 event2 m

theorem addAllPairs_eq (events : List Event) (m : CoScores F) :
    CoOccurrenceIndex.addAllPairs temporalEnabled halfLifeSec events m =
      applyChanges (allGains temporalEnabled halfLifeSec events) m := by
  induction events generalizing m with
  | nil => rfl
  | cons event1 rest ih => rw [addAllPairs_cons, addPairs_eq, ih, allGains, applyChanges_append]

/-- A gain is one of the two items of its events. -/
theorem mem_gain {event1 event2 : Event} {c : Change F}
    (h : c ∈ gain temporalEnabled halfLifeSec event1 event2) :
    c.1 = (event1.itemId, event2.itemId) ∧ event1.itemId ≠ event2.itemId := by
  unfold gain at h
  split at h
  · cases h
  · simp only at h
    split at h
    · cases h
    · rw [List.mem_singleton] at h
      subst h
      exact ⟨rfl, ‹_›⟩

theorem mem_allGains {events : List Event} {c : Change F}
    (h : c ∈ allGains temporalEnabled halfLifeSec events) :
    c.1.1 ∈ events.map Event.itemId ∧ c.1.2 ∈ events.map Event.itemId ∧ c.1.1 ≠ c.1.2 := by
  induction events with
  | nil => cases h
  | cons event1 rest ih =>
    rcases List.mem_append.mp h with h | h
    · obtain ⟨event2, hmem, h⟩ := List.mem_flatMap.mp h
      obtain ⟨hc, hne⟩ := mem_gain h
      rw [hc]
      exact ⟨List.mem_cons_self, List.mem_cons_of_mem _ (List.mem_map_of_mem hmem), hne⟩
    · obtain ⟨h₁, h₂, hne⟩ := ih h
      exact ⟨List.mem_cons_of_mem _ h₁, List.mem_cons_of_mem _ h₂, hne⟩

theorem mem_loss {removedId : Bytes} {negativeWeight : UInt64} {event : Event} {c : Change F}
    (h : c ∈ loss removedId negativeWeight event) :
    c.1 = (removedId, event.itemId) ∧ removedId ≠ event.itemId := by
  unfold loss at h
  split at h
  · cases h
  · rename_i hne
    rw [List.mem_singleton] at h
    subst h
    exact ⟨rfl, Ne.symm hne⟩

/-- The rows that `UpdateFromEvents` writes are long enough to be pruned: an event that adds to a
    pair with a later one is of an item whose neighbours, old and new, are more than the limit by
    more than the number of events before it. Each of those takes one of them at most. -/
def longRows (cfg : CoOccurrenceConfig F) (m : CoScores F) (gains : List (Change F))
    (temporalEnabled : Bool) (halfLifeSec : UInt64) : Nat → List Event → Bool
  | _, [] => true
  | before, event :: later =>
    ((later.flatMap (gain (F := F) temporalEnabled halfLifeSec event)).isEmpty ||
      decide (cfg.maxNeighborsPerItem + before <
        (partners gains event.itemId ∪ neighborKeys m event.itemId).length)) &&
    longRows cfg m gains temporalEnabled halfLifeSec (before + 1) later

/-- **The condition**: nothing is written that is not pruned afterwards. `UpdateFromEvents` does
    not look at the scores of a row that is short, and after the signal of a deletion there is no
    pruning; where no support is demanded, the first is harmless, and so is the second among
    items that are neighbours already. -/
def CoOp.pruningFollows (x : CoOccurrenceIndex F) : CoOp F → Bool
  | updateFromEvents events temporalEnabled halfLifeSec =>
    !lt zero x.config.minSupport ||
      longRows x.config x.coScores (allGains temporalEnabled halfLifeSec events) temporalEnabled
        halfLifeSec 0 events
  | applyIngestedEvent priorEvents newEvent options =>
    !sendsNegative x newEvent options || priorEvents.all fun event =>
      decide (event.itemId = newEvent.itemId) ||
        (!lt zero x.config.minSupport &&
          (entry x.coScores newEvent.itemId event.itemId).isSome)
  | _ => true

variable {x : CoOccurrenceIndex F}

/-- `UpdateFromEvents` prunes the row of an event if it is too long. -/
def pruneLong (cfg : CoOccurrenceConfig F) (m : CoScores F) (event : Event) : CoScores F :=
  match m.find? event.itemId with
  | none => m
  | some row => if cfg.maxNeighborsPerItem < row.size then pruneItem cfg m event.itemId else m

theorem shrinks_pruneLong {cfg : CoOccurrenceConfig F} {m : CoScores F} (event : Event) :
    Shrinks (pruneLong cfg m event) m := by
  unfold pruneLong
  split
  · exact Shrinks.refl m
  · split
    · exact shrinks_pruneItem _
    · exact Shrinks.refl m

theorem limit_pruneLong {cfg : CoOccurrenceConfig F} (hpos : 0 < cfg.maxNeighborsPerItem)
    (m : CoScores F) (event : Event) :
    (neighborKeys (pruneLong cfg m event) event.itemId).length ≤ cfg.maxNeighborsPerItem := by
  unfold pruneLong
  split
  · rename_i hnone
    rw [neighborKeys, hnone]
    exact Nat.zero_le _
  · rename_i row hrow
    split
    · exact (rowBounded_pruneItem hpos _).neighbors
    · rw [neighborKeys, hrow, AssocMap.length_keys]
      exact Nat.le_of_not_lt ‹_›

theorem limit_foldl_pruneLong {cfg : CoOccurrenceConfig F} (hpos : 0 < cfg.maxNeighborsPerItem)
    {events : List Event} {m : CoScores F}
    (h : ∀ a, a ∉ events.map Event.itemId →
      (neighborKeys m a).length ≤ cfg.maxNeighborsPerItem) (a : Bytes) :
    (neighborKeys (events.foldl (pruneLong cfg) m) a).length ≤ cfg.maxNeighborsPerItem := by
  induction events generalizing m with
  | nil => exact h a List.not_mem_nil
  | cons event events ih =>
    refine ih fun a ha => ?_
    by_cases hne : a = event.itemId
    · rw [hne]
      exact limit_pruneLong hpos m event
    · have hrow := h a fun hmem => (List.mem_cons.mp hmem).elim hne ha
      refine Nat.le_trans (length_neighborKeys_le fun b s hb => ?_) hrow
      exact mem_neighborKeys.2 ⟨s, shrinks_pruneLong event a b s hb⟩

theorem shrinks_foldl_pruneLong {cfg : CoOccurrenceConfig F} (events : List Event)
    (m : CoScores F) : Shrinks (events.foldl (pruneLong cfg) m) m :=
  List.foldlRecOn events (pruneLong cfg) (motive := fun m' => Shrinks m' m) (Shrinks.refl m)
    fun _ hm event _ => (shrinks_pruneLong event).trans hm

/-- The row of an event that is too long is pruned. -/
theorem rowBounded_pruneLong {cfg : CoOccurrenceConfig F} (hpos : 0 < cfg.maxNeighborsPerItem)
    {m : CoScores F} {event : Event}
    (hlong : cfg.maxNeighborsPerItem < (neighborKeys m event.itemId).length) :
    RowBounded cfg (pruneLong cfg m event) event.itemId := by
  unfold pruneLong
  split
  · rename_i hnone
    rw [neighborKeys, hnone] at hlong
    cases hlong
  · rename_i row hrow
    rw [neighborKeys, hrow, Option.getD_some, AssocMap.length_keys] at hlong
    rw [if_pos hlong]
    exact rowBounded_pruneItem hpos _

/-- An event takes itself at most from the row of another item. -/
theorem length_row_pruneLong {cfg : CoOccurrenceConfig F} (m : CoScores F) {event : Event}
    {a : Bytes} (ha : a ≠ event.itemId) :
    (neighborKeys m a).length ≤ (neighborKeys (pruneLong cfg m event) a).length + 1 := by
  rw [← List.length_cons (a := event.itemId)]
  refine length_neighborKeys_le fun b s h => ?_
  by_cases hb : b = event.itemId
  · exact hb ▸ List.mem_cons_self
  · refine List.mem_cons_of_mem _ (mem_neighborKeys.2 ⟨s, ?_⟩)
    rw [← h]
    unfold pruneLong
    split
    · rfl
    · split
      · exact entry_pruneItem_of_ne ha hb
      · rfl

/-- **A row that is long enough is pruned** when the turn of its item comes. -/
theorem rowBounded_foldl_pruneLong {cfg : CoOccurrenceConfig F}
    (hpos : 0 < cfg.maxNeighborsPerItem) {events : List Event} {m : CoScores F} {before : Nat}
    {a : Bytes} (hin : a ∈ (events.take (before + 1)).map Event.itemId)
    (hlong : cfg.maxNeighborsPerItem + before < (neighborKeys m a).length) :
    RowBounded cfg (events.foldl (pruneLong cfg) m) a := by
  induction events generalizing m before with
  | nil => cases hin
  | cons event events ih =>
    by_cases hitem : a = event.itemId
    · subst hitem
      have hbounded := rowBounded_pruneLong hpos (Nat.lt_of_le_of_lt (Nat.le_add_right _ _) hlong)
      exact hbounded.mono (shrinks_foldl_pruneLong events _)
    · rw [List.take_succ_cons, List.map_cons, List.mem_cons] at hin
      have hlater := hin.resolve_left hitem
      have hrow : _ ≤ (neighborKeys (pruneLong cfg m event) a).length + 1 :=
        length_row_pruneLong m hitem
      cases before with
      | zero => cases hlater
      | succ before => exact ih hlater (by omega)

/-- The pair of a gain is one of two events, and the row of the first is long. -/
theorem longRows_of_mem {cfg : CoOccurrenceConfig F} {m : CoScores F} {gains : List (Change F)}
    {events : List Event} {before : Nat}
    (h : longRows cfg m gains temporalEnabled halfLifeSec before events = true) {c : Change F}
    (hc : c ∈ allGains temporalEnabled halfLifeSec events) :
    ∃ i, c.1.1 ∈ (events.take (i + 1)).map Event.itemId ∧
      cfg.maxNeighborsPerItem + (before + i) <
        (partners gains c.1.1 ∪ neighborKeys m c.1.1).length := by
  induction events generalizing before with
  | nil => cases hc
  | cons event later ih =>
    obtain ⟨hfirst, hlater⟩ := (Bool.and_eq_true _ _).mp h
    rcases List.mem_append.mp hc with hc | hc
    · obtain ⟨event2, -, hgain⟩ := List.mem_flatMap.mp hc
      have hpair : c.1.1 = event.itemId := congrArg Prod.fst (mem_gain hgain).1
      rw [List.isEmpty_eq_false_iff.mpr (List.ne_nil_of_mem hc), Bool.false_or,
        decide_eq_true_eq] at hfirst
      rw [hpair]
      exact ⟨0, List.mem_cons_self, hfirst⟩
    · obtain ⟨i, hin, hlong⟩ := ih hlater hc
      exact ⟨i + 1, List.mem_cons_of_mem _ hin, by omega⟩

theorem symmetric_updateFromEvents (hs : SymmetricMatrix x.coScores) (events : List Event) :
    SymmetricMatrix (x.updateFromEvents events temporalEnabled halfLifeSec).coScores := by
  have hkeeps : Keeps False (allPairContributions F temporalEnabled halfLifeSec events)
      x.coScores := ⟨hs, False.elim⟩
  exact (hkeeps.updateFromEvents (List.Subset.refl _)).symmetric

theorem bounded_updateFromEvents (hpos : 0 < x.config.maxNeighborsPerItem)
    (hs : SymmetricMatrix x.coScores) (hb : Bounded x.config x.coScores) {events : List Event}
    (hk : (CoOp.updateFromEvents events temporalEnabled halfLifeSec).pruningFollows x = true) :
    Bounded x.config (x.updateFromEvents events temporalEnabled halfLifeSec).coScores := by
  have hafter : SymmetricMatrix
      (x.updateFromEvents events temporalEnabled halfLifeSec).coScores :=
    symmetric_updateFromEvents hs events
  unfold CoOccurrenceIndex.updateFromEvents at hafter ⊢
  split
  · exact hb
  rename_i hsome
  simp only [hsome, if_false, addAllPairs_eq, if_pos (Or.inl hpos)] at hafter ⊢
  generalize hgains : allGains (F := F) temporalEnabled halfLifeSec events = gains at hafter ⊢
  have hmem : ∀ c ∈ gains, c.1.1 ∈ events.map Event.itemId ∧ c.1.2 ∈ events.map Event.itemId ∧
      c.1.1 ≠ c.1.2 :=
    fun c hc => mem_allGains (hgains ▸ hc)
  have hproper : Proper gains := fun c hc => (hmem c hc).2.2
  refine fun a => ⟨limit_foldl_pruneLong hpos (fun a ha => ?_) a, fun b s h => ?_⟩
  · -- an item without an event: nothing is written to its row
    refine Nat.le_trans (length_neighborKeys_le fun b s h => ?_) (hb a).neighbors
    rw [entry_applyChanges hs.symm hproper, scoreAfter_eq_self fun c hc => ?_] at h
    · exact mem_neighborKeys.2 ⟨s, h⟩
    · obtain ⟨h₁, h₂, -⟩ := hmem c hc
      refine decide_eq_false fun hpair => ha ?_
      rcases hpair with ⟨rfl, -⟩ | ⟨-, rfl⟩
      · exact h₁
      · exact h₂
  · rcases (Bool.or_eq_true _ _).mp hk with hno | hlong
    · exact low_eq_false ((Bool.not_eq_true' _).mp hno) s
    by_cases hpair : ∃ c ∈ gains, concerns c a b = true
    · -- the row of the pair's first item has been pruned
      obtain ⟨c, hc, hpair⟩ := hpair
      obtain ⟨i, hin, hrow⟩ := longRows_of_mem hlong (hgains ▸ hc)
      rw [hgains, Nat.zero_add] at hrow
      have hpruned := rowBounded_foldl_pruneLong hpos hin
        (hrow.trans_le (length_row_of_changes hs.symm hproper _))
      rcases of_decide_eq_true hpair with ⟨rfl, rfl⟩ | ⟨rfl, rfl⟩
      · exact hpruned.support _ s h
      · exact hpruned.support _ s ((hafter.symm _ _).trans h)
    · have hold := shrinks_foldl_pruneLong events _ a b s h
      have hno : ∀ c ∈ gains, concerns c a b = false := by
        intro c hc
        rw [← Bool.not_eq_true]
        exact fun hpos => hpair ⟨c, hc, hpos⟩
      rw [entry_applyChanges hs.symm hproper, scoreAfter_eq_self hno] at hold
      exact (hb a).support b s hold

/-- Sorting and dropping repetitions loses no item. -/
theorem mem_destutter_ne {α : Type} [DecidableEq α] {a : α} {l : List α} (h : a ∈ l) :
    a ∈ l.destutter (· ≠ ·) := by
  have haux : ∀ (l : List α) (b : α), a ∈ b :: l → a ∈ l.destutter' (· ≠ ·) b := by
    intro l
    induction l with
    | nil => exact fun b hb => hb
    | cons c l ih =>
      intro b hb
      by_cases hbc : b ≠ c
      · rw [List.destutter'_cons_pos _ hbc]
        rcases List.mem_cons.mp hb with rfl | hb
        · exact List.mem_cons_self
        · exact List.mem_cons_of_mem _ (ih c hb)
      · rw [List.destutter'_cons_neg _ hbc]
        refine ih b ?_
        rw [not_not] at hbc
        subst hbc
        rcases List.mem_cons.mp hb with rfl | hb
        · exact List.mem_cons_self
        · exact hb
  cases l with
  | nil => cases h
  | cons b l => exact haux l b h

theorem bounded_addEventIncremental (hpos : 0 < x.config.maxNeighborsPerItem)
    (hs : SymmetricMatrix x.coScores) (hb : Bounded x.config x.coScores)
    (priorEvents : List Event) (newEvent : Event) :
    Bounded x.config
      (x.addEventIncremental priorEvents newEvent temporalEnabled halfLifeSec).coScores := by
  unfold CoOccurrenceIndex.addEventIncremental
  split
  · exact hb
  · simp only [foldl_addPair, addPairs_eq, if_pos (Or.inl hpos)]
    refine bounded_foldl_pruneItem hpos fun a ha => ?_
    generalize hchanges : priorEvents.flatMap
      (gain (F := F) temporalEnabled halfLifeSec newEvent) = changes
    have hpairs : ∀ c ∈ changes, ∃ prior ∈ priorEvents,
        c.1 = (newEvent.itemId, prior.itemId) ∧ newEvent.itemId ≠ prior.itemId := by
      intro c hc
      rw [← hchanges] at hc
      obtain ⟨prior, hprior, hc⟩ := List.mem_flatMap.mp hc
      exact ⟨prior, hprior, mem_gain hc⟩
    have hproper : Proper changes := by
      intro c hc
      obtain ⟨prior, -, hc, hne⟩ := hpairs c hc
      rw [hc]
      exact hne
    -- the row of an item that is not pruned has not been written
    have hsame : ∀ b, entry (applyChanges changes x.coScores) a b = entry x.coScores a b := by
      intro b
      rw [entry_applyChanges hs.symm hproper, scoreAfter_eq_self fun c hc => ?_]
      obtain ⟨prior, hprior, hc, hne⟩ := hpairs c hc
      refine decide_eq_false fun hpair => ha (mem_destutter_ne ?_)
      rw [(List.perm_insertionSort _ _).mem_iff, List.mem_cons, List.mem_filter]
      rw [hc] at hpair
      rcases hpair with ⟨rfl, -⟩ | ⟨-, rfl⟩
      · exact .inl rfl
      · exact .inr ⟨List.mem_map_of_mem hprior, by simpa using Ne.symm hne⟩
    refine ⟨Nat.le_trans (length_neighborKeys_le fun b s h => ?_) (hb a).neighbors, fun b s h => ?_⟩
    · rw [hsame] at h
      exact mem_neighborKeys.2 ⟨s, h⟩
    · rw [hsame] at h
      exact (hb a).support b s h

/-- Where nothing is to be pruned, nothing changes. -/
theorem entry_foldl_pruneItem {cfg : CoOccurrenceConfig F} {m : CoScores F} (hb : Bounded cfg m)
    (items : List Bytes) (a b : Bytes) :
    entry (items.foldl (pruneItem cfg) m) a b = entry m a b := by
  induction items generalizing m with
  | nil => rfl
  | cons item items ih =>
    rw [List.foldl_cons, ih (hb.mono (shrinks_pruneItem item)), entry_pruneItem_of_bounded (hb item)]

/-- Where an event adds to pairs that are there, and no support is demanded, the pruning finds
    nothing. -/
theorem isSome_addEventIncremental (hs : SymmetricMatrix x.coScores)
    (hb : Bounded x.config x.coScores) (hno : lt zero x.config.minSupport = false)
    {priorEvents : List Event} {newEvent : Event}
    (h : AmongNeighbors
      (priorEvents.flatMap (gain (F := F) temporalEnabled halfLifeSec newEvent)) x.coScores)
    (a b : Bytes) :
    (entry (x.addEventIncremental priorEvents newEvent temporalEnabled halfLifeSec).coScores a
      b).isSome = (entry x.coScores a b).isSome := by
  have hproper : Proper
      (priorEvents.flatMap (gain (F := F) temporalEnabled halfLifeSec newEvent)) := by
    intro c hc
    obtain ⟨prior, -, hc⟩ := List.mem_flatMap.mp hc
    obtain ⟨hpair, hne⟩ := mem_gain hc
    rw [hpair]
    exact hne
  have hadded := bounded_applyChanges hno hs.symm hproper hb h
  unfold CoOccurrenceIndex.addEventIncremental
  split
  · rfl
  · simp only [foldl_addPair, addPairs_eq]
    split
    · rw [entry_foldl_pruneItem hadded, isSome_applyChanges hs.symm hproper h]
    · exact isSome_applyChanges hs.symm hproper h a b

theorem applyNegativeSignal_eq (y : CoOccurrenceIndex F) (removedId : Bytes)
    (contextEvents : List Event) (negativeWeight : UInt64) :
    (y.applyNegativeSignal removedId contextEvents negativeWeight).coScores =
      if y.config.negativeMaxPropagation = 0 then y.coScores
      else applyChanges (contextEvents.flatMap (loss removedId negativeWeight)) y.coScores := by
  unfold CoOccurrenceIndex.applyNegativeSignal
  split
  · rfl
  · rw [← foldl_applyChanges]
    show contextEvents.foldl _ y.coScores = contextEvents.foldl _ y.coScores
    congr 1
    funext m event
    unfold loss
    split <;> rfl

section Ingest

variable {priorEvents : List Event} {newEvent : Event}

theorem symmetric_addEventIncremental (hs : SymmetricMatrix x.coScores) (priorEvents : List Event)
    (newEvent : Event) :
    SymmetricMatrix
      (x.addEventIncremental priorEvents newEvent temporalEnabled halfLifeSec).coScores := by
  have hkeeps : Keeps False (priorEvents.flatMap
      (pairContribution F temporalEnabled halfLifeSec newEvent)) x.coScores := ⟨hs, False.elim⟩
  exact (hkeeps.addEventIncremental (List.Subset.refl _)).symmetric

/-- The signal of a deletion, among items that are neighbours already. -/
theorem bounded_loss (hs : SymmetricMatrix x.coScores) (hb : Bounded x.config x.coScores)
    (hadd : Bounded x.config (x.addEventIncremental priorEvents newEvent temporalEnabled
      halfLifeSec).coScores) {negativeWeight : UInt64}
    (hno : lt zero x.config.minSupport = false)
    (hk : ∀ event ∈ priorEvents, event.itemId ≠ newEvent.itemId →
      (entry x.coScores newEvent.itemId event.itemId).isSome = true) :
    Bounded x.config (applyChanges
      (priorEvents.flatMap (loss newEvent.itemId negativeWeight))
      (x.addEventIncremental priorEvents newEvent temporalEnabled halfLifeSec).coScores) := by
  have hgains : AmongNeighbors
      (priorEvents.flatMap (gain (F := F) temporalEnabled halfLifeSec newEvent)) x.coScores := by
    intro c hc
    obtain ⟨event, hevent, hc⟩ := List.mem_flatMap.mp hc
    obtain ⟨hpair, hne⟩ := mem_gain hc
    rw [hpair]
    exact hk event hevent (Ne.symm hne)
  have hlosses : ∀ c ∈ priorEvents.flatMap (loss (F := F) newEvent.itemId negativeWeight),
      ∃ event ∈ priorEvents, c.1 = (newEvent.itemId, event.itemId) ∧
        newEvent.itemId ≠ event.itemId := by
    intro c hc
    obtain ⟨event, hevent, hc⟩ := List.mem_flatMap.mp hc
    exact ⟨event, hevent, mem_loss hc⟩
  refine bounded_applyChanges hno (symmetric_addEventIncremental hs _ _).symm ?_ hadd ?_
  · intro c hc
    obtain ⟨event, -, hpair, hne⟩ := hlosses c hc
    rw [hpair]
    exact hne
  · intro c hc
    obtain ⟨event, hevent, hpair, hne⟩ := hlosses c hc
    rw [isSome_addEventIncremental hs hb hno hgains, hpair]
    exact hk event hevent (Ne.symm hne)

theorem bounded_applyIngestedEvent (hpos : 0 < x.config.maxNeighborsPerItem)
    (hs : SymmetricMatrix x.coScores) (hb : Bounded x.config x.coScores)
    {options : IngestOptions}
    (hk : (CoOp.applyIngestedEvent priorEvents newEvent options).pruningFollows x = true) :
    Bounded x.config (x.applyIngestedEvent priorEvents newEvent options).coScores := by
  have hadd : Bounded x.config (x.addEventIncremental priorEvents newEvent options.temporalEnabled
      options.halfLifeSec).coScores := bounded_addEventIncremental hpos hs hb priorEvents newEvent
  unfold CoOccurrenceIndex.applyIngestedEvent
  simp only
  split
  · rename_i hdel
    rw [applyNegativeSignal_eq, config_addEventIncremental]
    split
    · exact hadd
    · rename_i hprop
      have hsends : sendsNegative x newEvent options = true := by
        simp [sendsNegative, hdel.1, hdel.2, hprop]
      rw [CoOp.pruningFollows, hsends, Bool.not_true, Bool.false_or, List.all_eq_true] at hk
      cases hno : lt zero x.config.minSupport with
      | false =>
        refine bounded_loss hs hb hadd hno fun event hevent hne => ?_
        have hpair := hk event hevent
        rwa [decide_eq_false hne, Bool.false_or, hno, Bool.not_false, Bool.true_and] at hpair
      | true =>
        -- the events before are all of the deleted item
        have hnone : priorEvents.flatMap
            (loss (F := F) newEvent.itemId options.negativeWeight) = [] := by
          refine List.flatMap_eq_nil_iff.mpr fun event hevent => if_pos ?_
          have hsame := hk event hevent
          rwa [hno, Bool.not_true, Bool.false_and, Bool.or_false, decide_eq_true_eq] at hsame
        rw [hnone]
        exact hadd
  · exact hadd

end Ingest

theorem bounded_applyDecay (hb : Bounded x.config x.coScores) (alpha : UInt64)
    (hs : SymmetricMatrix x.coScores) : Bounded x.config (x.applyDecay alpha).coScores := by
  have hwithin := (symmetricMatrix_applyDecay hs alpha).2
  refine fun a => ⟨Nat.le_trans (length_neighborKeys_le fun b s h => ?_) (hb a).neighbors,
    fun b s h => ?_⟩
  · rw [mem_neighborKeys, ← Option.ne_none_iff_exists']
    intro hnone
    rw [hwithin a b hnone] at h
    cases h
  · unfold CoOccurrenceIndex.applyDecay at h
    split at h
    · exact (hb a).support b s h
    split at h
    · split at h
      · exact (hb a).support b s h
      · cases h
    · -- the threshold is the support, if one is demanded
      rw [entry_decayed (fun s => mul s (ofDouble alpha)) (fun s => !lt (magnitude s)
        (if lt zero x.config.minSupport then x.config.minSupport else decayThreshold)),
        Option.filter_eq_some_iff] at h
      have hkeep := h.2
      unfold low
      cases hdemand : lt zero x.config.minSupport with
      | false => rfl
      | true => simpa [hdemand] using hkeep

theorem bounded_prune (hpos : 0 < x.config.maxNeighborsPerItem) :
    Bounded x.config x.prune.coScores := by
  refine bounded_foldl_pruneItem hpos fun a ha => rowBounded_of_none fun b => ?_
  exact entry_of_no_row (AssocMap.find?_eq_none.mpr ha) b

/-! ## 4. Runs -/

/-- One of the operations that keep an index up to date; `SetScore` is for restores. -/
def updateStep (x : CoOccurrenceIndex F) : CoOp F → Option (CoOccurrenceIndex F)
  | .setScore .. => none
  | op => some (op.apply x)

/-- A symmetric matrix within the bounds. -/
structure BoundsInv (cfg : CoOccurrenceConfig F) (x : CoOccurrenceIndex F) : Prop where
  config : x.config = cfg
  symmetric : SymmetricMatrix x.coScores
  bounded : Bounded cfg x.coScores

/-- **Every update keeps the bounds** that meets the condition. -/
theorem BoundsInv.step {cfg : CoOccurrenceConfig F} {x' : CoOccurrenceIndex F} {op : CoOp F}
    (hpos : 0 < cfg.maxNeighborsPerItem) (hinv : BoundsInv cfg x) (hk : op.pruningFollows x = true)
    (h : updateStep x op = some x') : BoundsInv cfg x' := by
  obtain ⟨rfl, hs, hb⟩ := hinv
  have hkeeps : Keeps False [] x.coScores := ⟨hs, False.elim⟩
  have hsymm : op.valid = true → SymmetricMatrix (op.apply x).coScores :=
    fun hvalid => (hkeeps.op hvalid False.elim).symmetric
  cases op with
  | setScore item1 item2 score => cases h
  | updateFromEvents events temporalEnabled halfLifeSec =>
    cases h
    refine ⟨?_, hsymm rfl, bounded_updateFromEvents hpos hs hb hk⟩
    show (x.updateFromEvents _ _ _).config = x.config
    unfold CoOccurrenceIndex.updateFromEvents
    split <;> rfl
  | applyIngestedEvent priorEvents newEvent options =>
    cases h
    refine ⟨?_, hsymm rfl, bounded_applyIngestedEvent hpos hs hb hk⟩
    show (x.applyIngestedEvent _ _ _).config = x.config
    unfold CoOccurrenceIndex.applyIngestedEvent CoOccurrenceIndex.applyNegativeSignal
    simp only
    split
    · split <;> exact config_addEventIncremental _ _ _ _ _
    · exact config_addEventIncremental _ _ _ _ _
  | applyDecay alpha =>
    cases h
    refine ⟨?_, hsymm rfl, bounded_applyDecay hb alpha hs⟩
    show (x.applyDecay alpha).config = x.config
    unfold CoOccurrenceIndex.applyDecay
    split
    · rfl
    split
    · split <;> rfl
    · rfl
  | prune =>
    cases h
    exact ⟨rfl, hsymm rfl, bounded_prune hpos⟩
  | clear =>
    cases h
    exact ⟨rfl, hsymm rfl, bounded_empty⟩

/-- **The bounds of the index**: in every run from an empty index whose updates all meet the
    condition, no item has more than `max_neighbors_per_item` neighbours and no score is below
    `min_support`. -/
theorem pruning_bounds {cfg : CoOccurrenceConfig F} (hpos : 0 < cfg.maxNeighborsPerItem)
    {ops : List (CoOp F)} {x : CoOccurrenceIndex F}
    (hrun : run updateStep { config := cfg } ops = some x)
    (hok : Meets updateStep (fun x op => op.pruningFollows x = true) { config := cfg } ops) :
    ∀ a, (neighborKeys x.coScores a).length ≤ cfg.maxNeighborsPerItem ∧
      ∀ b s, entry x.coScores a b = some s → lt zero cfg.minSupport = true →
        lt (magnitude s) cfg.minSupport = false := by
  have hinv : BoundsInv cfg x := run_inv_of_meets (fun _ _ _ h hk hs => h.step hpos hk hs)
    ⟨rfl, symmetricMatrix_empty, bounded_empty⟩ hok hrun
  intro a
  obtain ⟨hneighbors, hsupport⟩ := hinv.bounded a
  refine ⟨hneighbors, fun b s h hdemand => ?_⟩
  have hlow := hsupport b s h
  rwa [low, hdemand, Bool.true_and] at hlow

end Operations

/-- One neighbour for each item, scores of ten at least. -/
def strictConfig : CoOccurrenceConfig Int := { maxNeighborsPerItem := 1, minSupport := 10 }

/-- A pair, a batch that adds a small score to the row of its first item, the deletion of an item
    in a context without others, and a third item. -/
def batched : List (CoOp Int) :=
  [.applyIngestedEvent [⟨[97], 5, 1, .ADD⟩] ⟨[98], 9, 2, .ADD⟩ negativeOptions,
    .updateFromEvents [⟨[97], 5, 1, .ADD⟩, ⟨[99], 1, 3, .ADD⟩] false 0,
    .applyIngestedEvent [⟨[98], 9, 2, .ADD⟩] ⟨[98], 0, 4, .DEL⟩ negativeOptions,
    .applyIngestedEvent [⟨[97], 5, 1, .ADD⟩] ⟨[99], 10, 5, .ADD⟩ negativeOptions, .prune]

/-- The batch leaves the pair with `5 * 9` alone; then the third item has more and takes its
    place. -/
theorem pruning_bounds_batched :
    ∃ x, run updateStep { config := strictConfig } batched = some x ∧
      entry x.coScores [97] [99] = some 50 ∧
      ∀ a, (neighborKeys x.coScores a).length ≤ 1 ∧
        ∀ b s, entry x.coScores a b = some s → lt zero strictConfig.minSupport = true →
          lt (magnitude s) strictConfig.minSupport = false := by
  have hrun : (run updateStep { config := strictConfig } batched).map
      (fun x => entry x.coScores [97] [99]) = some (some 50) := by
    decide +kernel
  have hok : Meets updateStep (fun x op => op.pruningFollows x = true)
      { config := strictConfig } batched := by
    decide +kernel
  obtain ⟨x, hx, he⟩ := Option.map_eq_some_iff.mp hrun
  exact ⟨x, hx, he, pruning_bounds (by decide) hx hok⟩

/-- The deletion of an item that has a neighbour, in a context where it meets another. -/
def signalled : List (CoOp Int) :=
  [.applyIngestedEvent [⟨[97], 5, 1, .ADD⟩] ⟨[98], 9, 2, .ADD⟩ negativeOptions,
    .applyIngestedEvent [⟨[99], 20, 1, .ADD⟩] ⟨[97], 0, 3, .DEL⟩ negativeOptions]

/-- Two events whose scores are small. -/
def unsupported : List (CoOp Int) :=
  [.updateFromEvents [⟨[97], 2, 1, .ADD⟩, ⟨[98], 3, 2, .ADD⟩] false 0]

/-- **Both bounds can be broken**: the signal gives an item its second neighbour, and the batch
    update stores a score of six. -/
theorem bounds_broken :
    (∃ x, run updateStep { config := strictConfig } signalled = some x ∧
      ¬ (neighborKeys x.coScores [97]).length ≤ strictConfig.maxNeighborsPerItem) ∧
    ∃ x, run updateStep { config := strictConfig } unsupported = some x ∧
      entry x.coScores [97] [98] = some 6 ∧ lt zero strictConfig.minSupport = true ∧
        lt (magnitude (6 : Int)) strictConfig.minSupport = true := by
  constructor
  · have hrun : (run updateStep { config := strictConfig } signalled).map
        (fun x => (neighborKeys x.coScores [97]).length) = some 2 := by
      decide +kernel
    obtain ⟨x, hx, he⟩ := Option.map_eq_some_iff.mp hrun
    refine ⟨x, hx, ?_⟩
    rw [he]
    decide
  · have hrun : (run updateStep { config := strictConfig } unsupported).map
        (fun x => entry x.coScores [97] [98]) = some (some 6) := by
      decide +kernel
    obtain ⟨x, hx, he⟩ := Option.map_eq_some_iff.mp hrun
    exact ⟨x, hx, he, by decide, by decide⟩

end Nvecd.Events
