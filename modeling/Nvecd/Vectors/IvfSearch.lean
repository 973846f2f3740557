/-
  File:      Nvecd/Vectors/IvfSearch.lean
  Subject:   What a search of an IVF index finds among its candidates.

  The candidates are what the probed lists and the two pending tiers name, each with the score of
  the row the store has. The parts are cut to `topK` before they are put together, the probed
  entries while an index may still be there several times.

  * `newestScore`, `candidates`, `ExactSearch` -- what is asked of a search;
  * `find?_pendingScores` -- the scores of the pending tiers are those of the newest rows;
  * `searchBuffer_spec`, `searchLists_spec`, `mergeResults_spec` -- the parts, and their merge;
  * `Orderly` -- the condition on a search; `search_exact`.
-/
import Mathlib.Data.List.Dedup
import Nvecd.Lib.Covers
import Nvecd.Vectors.IvfMachine

namespace Nvecd.Vectors

open Nvecd.Lib

/-! ## 1. What is asked of a search -/

section Candidates

variable (fl : IvfFloats) (o : IvfOrders)

/-- The rows of a store with their norms. -/
def withNorms (rows : List Row) : List (Row × UInt32) := rows.map fun row => (row, fl.l2Norm row)

namespace IvfIndex

/-- The score of the newest embedding, if there is one that can be scored. -/
def newestScore (ix : IvfIndex) (query : Row) (queryNorm : UInt32) (rows : List Row) (idx : Nat) :
    Option UInt32 :=
  rows[idx]?.bind fun row =>
    let score := similarity fl ix.config.metric query queryNorm row (fl.l2Norm row)
    if eqFloat score kWorstScore then none else some score

/-- The indices that are pending. -/
def pending (ix : IvfIndex) : List Nat := ix.sealing.map Prod.fst ++ ix.buffer.map Prod.fst

end IvfIndex

namespace IvfMachine

/-- What the probed lists name, if there are any. -/
def probed (m : IvfMachine) (query : Row) : List Nat :=
  if ¬ m.ix.trained ∨ m.rows = [] then [] else (m.ix.probedEntries fl o query).getD []

/-- The probed entries with their scores, once for every time they are listed. -/
def listed (m : IvfMachine) (query : Row) (queryNorm : UInt32) : List (UInt32 × Nat) :=
  m.ix.scoreEntries fl query queryNorm (withNorms fl m.rows) (m.probed fl o query)

/-- **The candidates**: each once, scored by the newest embedding. -/
def candidates (m : IvfMachine) (query : Row) (queryNorm : UInt32) : List (UInt32 × Nat) :=
  m.ix.scoreEntries fl query queryNorm (withNorms fl m.rows)
    (m.probed fl o query ++ m.ix.pending).dedup

/-- `Search`, with the rows of the store. -/
def search (m : IvfMachine) (query : Row) (queryNorm : UInt32) (topK : Nat) :
    Option (List (UInt32 × Nat)) :=
  m.ix.search fl o query queryNorm (withNorms fl m.rows) topK

end IvfMachine

/-- **An exact search**: different indices by falling scores, as many as there can be, and no
    candidate that is left out is better. -/
def IvfMachine.ExactSearch (m : IvfMachine) (query : Row) (queryNorm : UInt32) (topK : Nat) :
    Prop :=
  ∃ results, m.search fl o query queryNorm topK = some results ∧
    (results.map Prod.snd).Nodup ∧
    results.Pairwise (fun x y => gtFloat y.1 x.1 = false) ∧
    Selects floatKey topK (m.candidates fl o query queryNorm) results

/-- **The condition on a search**: the scores are numbers, a pending embedding that cannot be
    scored has no older copy that can, and indices that are listed twice leave room. -/
structure IvfMachine.Orderly (m : IvfMachine) (query : Row) (queryNorm : UInt32) (topK : Nat) :
    Prop where
  one_le : 1 ≤ topK
  numbers : ∀ x ∈ m.candidates fl o query queryNorm, (floatKey x.1).isSome
  scorable : ∀ e ∈ m.ix.buffer, ∀ e' ∈ m.ix.sealing, e'.1 = e.1 →
    eqFloat (similarity fl m.ix.config.metric query queryNorm e.2 (fl.l2Norm e.2)) kWorstScore =
      true →
    eqFloat (similarity fl m.ix.config.metric query queryNorm e'.2 (fl.l2Norm e'.2)) kWorstScore =
      true
  uncrowded : Uncrowded floatKey topK (m.listed fl o query queryNorm)

end Candidates

variable {fl : IvfFloats} {o : IvfOrders} {ix : IvfIndex} {query : Row} {queryNorm : UInt32}
  {rows : List Row} {topK : Nat}

theorem scoreEntries_eq (entries : List Nat) :
    ix.scoreEntries fl query queryNorm (withNorms fl rows) entries =
      entries.filterMap fun idx =>
        (ix.newestScore fl query queryNorm rows idx).map fun score => (score, idx) := by
  unfold IvfIndex.scoreEntries IvfIndex.newestScore withNorms
  refine congrArg (List.filterMap · entries) (funext fun idx => ?_)
  rw [List.getElem?_map]
  cases rows[idx]? with
  | none => rfl
  | some row =>
    simp only [Option.map_some, Option.bind_some]
    split <;> rfl

theorem mem_scoreEntries {entries : List Nat} {x : UInt32 × Nat} :
    x ∈ ix.scoreEntries fl query queryNorm (withNorms fl rows) entries ↔
      x.2 ∈ entries ∧ ix.newestScore fl query queryNorm rows x.2 = some x.1 := by
  rw [scoreEntries_eq, List.mem_filterMap]
  constructor
  · rintro ⟨idx, hidx, hx⟩
    obtain ⟨score, hscore, rfl⟩ := Option.map_eq_some_iff.mp hx
    exact ⟨hidx, hscore⟩
  · rintro ⟨hidx, hscore⟩
    exact ⟨x.2, hidx, by rw [hscore, Option.map_some]⟩

/-- An index has one score. -/
theorem scoreEntries_inj {entries entries' : List Nat} {x y : UInt32 × Nat}
    (hx : x ∈ ix.scoreEntries fl query queryNorm (withNorms fl rows) entries)
    (hy : y ∈ ix.scoreEntries fl query queryNorm (withNorms fl rows) entries') (h : x.2 = y.2) :
    x = y := by
  have hscore := (mem_scoreEntries.1 hx).2
  rw [h, (mem_scoreEntries.1 hy).2] at hscore
  exact Prod.ext (Option.some.inj hscore).symm h

theorem nodup_scoreEntries {entries : List Nat} (h : entries.Nodup) :
    ((ix.scoreEntries fl query queryNorm (withNorms fl rows) entries).map Prod.snd).Nodup := by
  refine h.sublist ?_
  rw [scoreEntries_eq, List.map_filterMap]
  induction entries with
  | nil => exact List.Sublist.slnil
  | cons idx entries ih =>
    rw [List.filterMap_cons]
    cases ix.newestScore fl query queryNorm rows idx with
    | none => exact (ih (List.nodup_cons.mp h).2).cons idx
    | some score => exact (ih (List.nodup_cons.mp h).2).cons_cons idx

/-! ## 2. Queues and sorting -/

section Selecting

variable {l : List (UInt32 × Nat)}

/-- **The queue selects.** -/
theorem keepBest_spec (o : IvfOrders) (hk : 1 ≤ topK) (hl : ∀ x ∈ l, (floatKey x.1).isSome) :
    ∃ r, keepBest o topK l = some r ∧ Selects floatKey topK l r := by
  unfold keepBest
  rw [if_neg fun h => by omega]
  exact ⟨_, rfl, (foldl_offer_selects o.queue_orders topK hl).perm_left (Ranking.drain_perm _)⟩

theorem sortByScore_perm : (sortByScore l).Perm l := List.mergeSort_perm l _

theorem pairwise_sortByScore (hl : ∀ x ∈ l, (floatKey x.1).isSome) :
    (sortByScore l).Pairwise fun x y => gtFloat y.1 x.1 = false := by
  have hsorted : (sortByScore l).Pairwise fun x y => (!gtFloat y.1 x.1) = true := by
    refine pairwise_mergeSort_of_forall (P := fun x : UInt32 × Nat => (floatKey x.1).isSome = true)
      (fun {x y z} hy hxy hyz => ?_) (fun {x y} _ _ => ?_) hl
    · rw [Bool.not_eq_true'] at hxy hyz ⊢
      exact not_better_trans hy hyz hxy
    · cases h : gtFloat y.1 x.1
      · rfl
      · rw [gtFloat, betterScore_asymm h]
        rfl
  exact hsorted.imp fun h => by simpa using h

theorem dedupIndices_concat (l : List (UInt32 × Nat)) (e : UInt32 × Nat) :
    dedupIndices (l ++ [e]) =
      if e.2 ∈ (dedupIndices l).map Prod.snd then dedupIndices l else dedupIndices l ++ [e] := by
  unfold dedupIndices
  rw [List.foldl_append, List.foldl_cons, List.foldl_nil]

theorem dedupIndices_sublist (l : List (UInt32 × Nat)) : (dedupIndices l).Sublist l := by
  induction l using List.reverseRec with
  | nil => exact List.Sublist.slnil
  | append_singleton l e ih =>
    rw [dedupIndices_concat]
    split
    · exact ih.trans (List.sublist_append_left l [e])
    · exact ih.append_right [e]

theorem nodup_dedupIndices (l : List (UInt32 × Nat)) : ((dedupIndices l).map Prod.snd).Nodup := by
  induction l using List.reverseRec with
  | nil => exact List.nodup_nil
  | append_singleton l e ih =>
    rw [dedupIndices_concat]
    split
    · exact ih
    · rename_i hnew
      rw [List.map_append, List.map_singleton]
      exact List.nodup_append.mpr ⟨ih, List.nodup_singleton _, fun i hi j hj heq =>
        hnew (List.mem_singleton.mp hj ▸ heq ▸ hi)⟩

theorem nodup_keepBest {r : List (UInt32 × Nat)} (h : keepBest o topK l = some r)
    (hl : (l.map Prod.snd).Nodup) : (r.map Prod.snd).Nodup := by
  unfold keepBest at h
  split at h
  · cases h
  · cases h
    refine ((Ranking.drain_perm _).map Prod.snd).nodup_iff.mpr ?_
    exact (Ranking.foldl_offer_nodup (by rwa [List.append_nil])).1

theorem nodup_searchBuffer {r : List (UInt32 × Nat)}
    (h : ix.searchBuffer fl o query queryNorm topK = some r) : (r.map Prod.snd).Nodup := by
  unfold IvfIndex.searchBuffer at h
  split at h
  · cases h
    exact List.nodup_nil
  · obtain ⟨kept, hkept, hr⟩ := Option.bind_eq_some_iff.mp h
    cases hr
    refine (sortByScore_perm.map Prod.snd).nodup_iff.mpr (nodup_keepBest hkept ?_)
    rw [List.map_map]
    exact ((o.walk_perm _).map Prod.fst).nodup_iff.mpr
      (ix.pendingScores fl query queryNorm).nodupKeys

/-- **A search finds no index twice**, whatever is listed and pending. -/
theorem IvfIndex.nodup_search {rows : List (Row × UInt32)} {r : List (UInt32 × Nat)}
    (h : ix.search fl o query queryNorm rows topK = some r) : (r.map Prod.snd).Nodup := by
  obtain ⟨found, hfound, h⟩ := Option.bind_eq_some_iff.mp h
  obtain ⟨kept, hkept, h⟩ := Option.bind_eq_some_iff.mp h
  unfold mergeResults at h
  split at h
  · cases h
    exact nodup_dedupIndices _
  · split at h
    · cases h
      exact nodup_searchBuffer hfound
    · obtain ⟨best, hbest, rfl⟩ := Option.map_eq_some_iff.mp h
      exact (sortByScore_perm.map Prod.snd).nodup_iff.mpr
        (nodup_keepBest hbest (nodup_dedupIndices _))

theorem mem_map_dedupIndices {l : List (UInt32 × Nat)} {i : Nat} (h : i ∈ l.map Prod.snd) :
    i ∈ (dedupIndices l).map Prod.snd := by
  induction l using List.reverseRec with
  | nil => exact h
  | append_singleton l e ih =>
    rw [List.map_append, List.mem_append] at h
    rw [dedupIndices_concat]
    split
    · rename_i hold
      exact h.elim ih fun hi => List.mem_singleton.mp hi ▸ hold
    · rw [List.map_append, List.mem_append]
      exact h.imp_left ih

/-- Where an index has one score, nothing but repetitions goes. -/
theorem mem_dedupIndices (hsame : ∀ x ∈ l, ∀ y ∈ l, x.2 = y.2 → x = y) {x : UInt32 × Nat} :
    x ∈ dedupIndices l ↔ x ∈ l := by
  refine ⟨fun h => (dedupIndices_sublist l).mem h, fun h => ?_⟩
  obtain ⟨y, hy, heq⟩ := List.mem_map.mp (mem_map_dedupIndices (List.mem_map_of_mem h))
  exact hsame y ((dedupIndices_sublist l).mem hy) x h heq ▸ hy

/-- **The merge**: the best of the parts are the best of all. -/
theorem mergeResults_spec (o : IvfOrders) {pending kept listed all : List (UInt32 × Nat)}
    {found : List (UInt32 × Nat)} (hk : 1 ≤ topK) (hall : all.Nodup)
    (hmem : ∀ x, x ∈ all ↔ x ∈ pending ∨ x ∈ listed) (hnum : ∀ x ∈ all, (floatKey x.1).isSome)
    (hsame : ∀ x ∈ all, ∀ y ∈ all, x.2 = y.2 → x = y) (hpending : pending.Nodup)
    (hfound : Selects floatKey topK pending found)
    (hsorted : found.Pairwise fun x y => gtFloat y.1 x.1 = false)
    (hkept : Selects floatKey topK listed kept) (hroom : Uncrowded floatKey topK listed) :
    ∃ results, mergeResults o topK found kept = some results ∧
      (results.map Prod.snd).Nodup ∧ results.Pairwise (fun x y => gtFloat y.1 x.1 = false) ∧
      Selects floatKey topK all results := by
  have hin : ∀ x ∈ found ++ kept, x ∈ all := fun x hx => (hmem x).mpr
    ((List.mem_append.mp hx).imp (hfound.subset x) (hkept.subset x))
  have hinj : ∀ x ∈ found ++ kept, ∀ y ∈ found ++ kept, x.2 = y.2 → x = y :=
    fun x hx y hy => hsame x (hin x hx) y (hin y hy)
  have hfoundNodup : found.Nodup := by
    obtain ⟨omitted, hperm, -⟩ := hfound.omitted
    exact (List.nodup_append.mp (hperm.nodup_iff.mpr hpending)).1
  have hcov : Covers floatKey topK all (dedupIndices (found ++ kept)) := by
    refine ((hfound.covers hfoundNodup).append (hkept.covers_of_uncrowded (fun x hx y hy =>
      hsame x ((hmem x).mpr (.inr hx)) y ((hmem y).mpr (.inr hy))) hroom)).congr (fun x => ?_)
        fun x => mem_dedupIndices hinj
    rw [hmem, List.mem_append]
  have hkeptNum : ∀ x ∈ kept, (floatKey x.1).isSome :=
    fun x hx => hnum x (hin x (List.mem_append_right found hx))
  -- each way of putting the two together selects from what was kept of them
  obtain ⟨results, hmerge, hsorted', hselects⟩ : ∃ results,
      mergeResults o topK found kept = some results ∧
      results.Pairwise (fun x y => gtFloat y.1 x.1 = false) ∧
      Selects floatKey topK (dedupIndices (found ++ kept)) results := by
    unfold mergeResults
    split
    · rename_i hnil
      have hperm : (dedupIndices (sortByScore kept)).Perm (dedupIndices (found ++ kept)) := by
        refine (List.perm_ext_iff_of_nodup (List.Nodup.of_map _ (nodup_dedupIndices _))
          (List.Nodup.of_map _ (nodup_dedupIndices _))).mpr fun x => ?_
        rw [mem_dedupIndices hinj, mem_dedupIndices fun x hx y hy => hinj x
          (List.mem_append_right _ (sortByScore_perm.mem_iff.mp hx)) y
          (List.mem_append_right _ (sortByScore_perm.mem_iff.mp hy)), sortByScore_perm.mem_iff, hnil,
          List.nil_append]
      refine ⟨_, rfl, (pairwise_sortByScore hkeptNum).sublist (dedupIndices_sublist _), ?_⟩
      refine (Selects.of_length_le ?_).perm_left hperm
      have hle := (dedupIndices_sublist (found ++ kept)).length_le
      have := hkept.length
      rw [hnil, List.nil_append] at hle ⊢
      omega
    · split
      · rename_i hnil
        refine ⟨found, rfl, hsorted, ?_⟩
        have hperm : found.Perm (dedupIndices (found ++ kept)) := by
          refine (List.perm_ext_iff_of_nodup hfoundNodup
            (List.Nodup.of_map _ (nodup_dedupIndices _))).mpr fun x => ?_
          rw [mem_dedupIndices hinj, hnil, List.append_nil]
        refine (Selects.of_length_le ?_).perm_left hperm
        rw [← hperm.length_eq, hfound.length]
        exact Nat.min_le_left _ _
      · have hnum' : ∀ x ∈ dedupIndices (found ++ kept), (floatKey x.1).isSome :=
          fun x hx => hnum x (hcov.subset x hx)
        obtain ⟨r, hr, hselects⟩ := keepBest_spec o hk hnum'
        refine ⟨sortByScore r, by rw [hr, Option.map_some], pairwise_sortByScore fun x hx =>
          hnum' x (hselects.subset x hx), hselects.perm_left sortByScore_perm⟩
  have hfinal := Selects.of_covers hnum hall (List.Nodup.of_map _ (nodup_dedupIndices _)) hcov
    hselects
  refine ⟨results, hmerge, ?_, hsorted', hfinal⟩
  obtain ⟨omitted, hperm, -⟩ := hselects.omitted
  have hnd := (hperm.map Prod.snd).nodup_iff.mpr (nodup_dedupIndices _)
  rw [List.map_append] at hnd
  exact (List.nodup_append.mp hnd).1

end Selecting

/-! ## 3. The pending tiers -/

section Pending

variable {scores : AssocMap Nat UInt32} {newer : Bool} {i : Nat} {s : UInt32} {metric : IvfMetric}

theorem find?_scoreTier {e : Nat × Row} (h : newer = true ∨ scores.find? e.1 = none) :
    (scoreTier fl metric query queryNorm newer scores e).find? i = some s ↔
      (e.1 = i ∧ eqFloat (similarity fl metric query queryNorm e.2 (fl.l2Norm e.2)) kWorstScore =
          false ∧ similarity fl metric query queryNorm e.2 (fl.l2Norm e.2) = s) ∨
        (e.1 = i → eqFloat (similarity fl metric query queryNorm e.2 (fl.l2Norm e.2)) kWorstScore =
          true) ∧ scores.find? i = some s := by
  have hinsert : (scoreTier fl metric query queryNorm newer scores e) =
      if eqFloat (similarity fl metric query queryNorm e.2 (fl.l2Norm e.2)) kWorstScore then scores
      else scores.insert e.1 (similarity fl metric query queryNorm e.2 (fl.l2Norm e.2)) := by
    unfold scoreTier
    dsimp only
    split
    · rfl
    · split
      · rfl
      · rename_i old hold
        rw [if_pos (.inl (h.resolve_right (by rw [hold]; exact Option.some_ne_none old)))]
  rw [hinsert]
  generalize similarity fl metric query queryNorm e.2 (fl.l2Norm e.2) = score
  cases hscore : eqFloat score kWorstScore with
  | true => simp
  | false =>
    simp only [Bool.false_eq_true, if_false]
    by_cases hi : e.1 = i
    · rw [← hi, AssocMap.find?_insert_self]
      simp
    · rw [AssocMap.find?_insert_of_ne _ _ (Ne.symm hi)]
      simp [hi]

/-- **A tier of different indices**: its scores, and the older ones of the others. -/
theorem find?_foldl_scoreTier {tier : List (Nat × Row)} (hnd : (tier.map Prod.fst).Nodup)
    (h : newer = true ∨ ∀ e ∈ tier, scores.find? e.1 = none) :
    (tier.foldl (scoreTier fl metric query queryNorm newer) scores).find? i = some s ↔
      (∃ e ∈ tier, e.1 = i ∧
        eqFloat (similarity fl metric query queryNorm e.2 (fl.l2Norm e.2)) kWorstScore = false ∧
        similarity fl metric query queryNorm e.2 (fl.l2Norm e.2) = s) ∨
      (∀ e ∈ tier, e.1 = i →
        eqFloat (similarity fl metric query queryNorm e.2 (fl.l2Norm e.2)) kWorstScore = true) ∧
        scores.find? i = some s := by
  induction tier generalizing scores with
  | nil => simp
  | cons e tier ih =>
    rw [List.map_cons, List.nodup_cons] at hnd
    have hother : ∀ e' ∈ tier, e.1 ≠ e'.1 :=
      fun e' he' heq => hnd.1 (heq ▸ List.mem_map_of_mem he')
    have hhead := h.imp_right fun h => h e List.mem_cons_self
    have htail : newer = true ∨ ∀ e' ∈ tier,
        (scoreTier fl metric query queryNorm newer scores e).find? e'.1 = none := by
      refine h.imp_right fun h e' he' => ?_
      by_contra hsome
      obtain ⟨old, hold⟩ := Option.ne_none_iff_exists'.mp hsome
      rcases (find?_scoreTier hhead).mp hold with ⟨heq, -⟩ | ⟨-, hold⟩
      · exact hother e' he' heq
      · rw [h e' (List.mem_cons_of_mem e he')] at hold
        cases hold
    rw [List.foldl_cons, ih hnd.2 htail, find?_scoreTier hhead]
    constructor
    · rintro (⟨e', he', hrest⟩ | ⟨hall, hrest | ⟨hnot, hold⟩⟩)
      · exact .inl ⟨e', List.mem_cons_of_mem e he', hrest⟩
      · exact .inl ⟨e, List.mem_cons_self, hrest⟩
      · exact .inr ⟨List.forall_mem_cons.mpr ⟨hnot, hall⟩, hold⟩
    · rintro (⟨e', he', hi, hrest⟩ | ⟨hall, hold⟩)
      · rcases List.mem_cons.mp he' with rfl | he'
        · exact .inr ⟨fun e'' he'' heq => absurd (hi.trans heq.symm) (hother e'' he''),
            .inl ⟨hi, hrest⟩⟩
        · exact .inl ⟨e', he', hi, hrest⟩
      · obtain ⟨hnot, hall⟩ := List.forall_mem_cons.mp hall
        exact .inr ⟨hall, .inr ⟨hnot, hold⟩⟩

theorem newestScore_of_row {row : Row} (h : rows[i]? = some row) :
    ix.newestScore fl query queryNorm rows i = some s ↔
      eqFloat (similarity fl ix.config.metric query queryNorm row (fl.l2Norm row)) kWorstScore =
        false ∧ similarity fl ix.config.metric query queryNorm row (fl.l2Norm row) = s := by
  unfold IvfIndex.newestScore
  rw [h, Option.bind_some]
  dsimp only
  split
  · rename_i hworst
    rw [hworst]
    simp
  · rename_i hscore
    rw [Bool.eq_false_of_not_eq_true hscore, Option.some.injEq, eq_self, true_and]

/-- **The pending scores are those of the newest embeddings.** -/
theorem find?_pendingScores (hfresh : Fresh ix rows)
    (hscorable : ∀ e ∈ ix.buffer, ∀ e' ∈ ix.sealing, e'.1 = e.1 →
      eqFloat (similarity fl ix.config.metric query queryNorm e.2 (fl.l2Norm e.2)) kWorstScore =
        true →
      eqFloat (similarity fl ix.config.metric query queryNorm e'.2 (fl.l2Norm e'.2)) kWorstScore =
        true) :
    (ix.pendingScores fl query queryNorm).find? i = some s ↔
      i ∈ ix.pending ∧ ix.newestScore fl query queryNorm rows i = some s := by
  unfold IvfIndex.pendingScores IvfIndex.pending
  dsimp only
  rw [find?_foldl_scoreTier hfresh.bufferNodup (.inl rfl),
    find?_foldl_scoreTier hfresh.sealingNodup (.inr fun e _ => AssocMap.find?_empty e.1),
    AssocMap.find?_empty, List.mem_append]
  constructor
  · rintro (⟨e, he, rfl, hscore⟩ | ⟨hbuffer, ⟨e, he, rfl, hscore⟩ | ⟨-, hnone⟩⟩)
    · exact ⟨.inr (List.mem_map_of_mem he), (newestScore_of_row (hfresh.buffer e he)).mpr hscore⟩
    · -- no newer embedding is pending, since it could not be scored
      have hout : e.1 ∉ ix.buffer.map Prod.fst := by
        intro hin
        obtain ⟨e', he', heq⟩ := List.mem_map.mp hin
        rw [hscorable e' he' e he heq.symm (hbuffer e' he' heq)] at hscore
        cases hscore.1
      exact ⟨.inl (List.mem_map_of_mem he),
        (newestScore_of_row (hfresh.sealing e he hout)).mpr hscore⟩
    · cases hnone
  · rintro ⟨hin, hscore⟩
    by_cases hbuffer : i ∈ ix.buffer.map Prod.fst
    · obtain ⟨e, he, rfl⟩ := List.mem_map.mp hbuffer
      exact .inl ⟨e, he, rfl, (newestScore_of_row (hfresh.buffer e he)).mp hscore⟩
    · obtain ⟨e, he, rfl⟩ := List.mem_map.mp (hin.resolve_right hbuffer)
      refine .inr ⟨fun e' he' heq => absurd (heq ▸ List.mem_map_of_mem he') hbuffer,
        .inl ⟨e, he, rfl, ?_⟩⟩
      exact (newestScore_of_row (hfresh.sealing e he hbuffer)).mp hscore

end Pending

/-! ## 4. The search -/

section Search

/-- Of an undefined cosine nothing can be scored. -/
theorem newestScore_of_undefined (hmetric : ix.config.metric = .kCosine)
    (hnorm : gtFloat kNormEpsilon queryNorm = true) (i : Nat) :
    ix.newestScore fl query queryNorm rows i = none := by
  unfold IvfIndex.newestScore similarity
  cases rows[i]? with
  | none => rfl
  | some row =>
    rw [Option.bind_some, hmetric]
    dsimp only
    rw [if_pos (Or.inl hnorm)]
    decide

/-- **The buffer and the sealing tier.** -/
theorem searchBuffer_spec (o : IvfOrders) (hk : 1 ≤ topK) (hfresh : Fresh ix rows)
    (hscorable : ∀ e ∈ ix.buffer, ∀ e' ∈ ix.sealing, e'.1 = e.1 →
      eqFloat (similarity fl ix.config.metric query queryNorm e.2 (fl.l2Norm e.2)) kWorstScore =
        true →
      eqFloat (similarity fl ix.config.metric query queryNorm e'.2 (fl.l2Norm e'.2)) kWorstScore =
        true)
    (hnum : ∀ x ∈ ix.scoreEntries fl query queryNorm (withNorms fl rows) ix.pending.dedup,
      (floatKey x.1).isSome) :
    ∃ found, ix.searchBuffer fl o query queryNorm topK = some found ∧
      found.Pairwise (fun x y => gtFloat y.1 x.1 = false) ∧
      Selects floatKey topK
        (ix.scoreEntries fl query queryNorm (withNorms fl rows) ix.pending.dedup) found := by
  unfold IvfIndex.searchBuffer
  split
  · rename_i hnone
    have hnil : ix.scoreEntries fl query queryNorm (withNorms fl rows) ix.pending.dedup = [] := by
      refine List.eq_nil_iff_forall_not_mem.mpr fun x hx => ?_
      obtain ⟨hin, hscore⟩ := mem_scoreEntries.1 hx
      rcases hnone with ⟨hbuffer, hsealing⟩ | ⟨hmetric, hnorm⟩
      · unfold IvfIndex.pending at hin
        rw [hbuffer, hsealing] at hin
        cases List.mem_dedup.mp hin
      · rw [newestScore_of_undefined hmetric hnorm] at hscore
        cases hscore
    rw [hnil]
    exact ⟨[], rfl, List.Pairwise.nil, Selects.of_length_le (Nat.zero_le _)⟩
  · dsimp only
    have hperm : ((o.walk (ix.pendingScores fl query queryNorm).entries).map Prod.swap).Perm
        (ix.scoreEntries fl query queryNorm (withNorms fl rows) ix.pending.dedup) := by
      refine ((o.walk_perm _).map Prod.swap).trans ((List.perm_ext_iff_of_nodup ?_ ?_).mpr ?_)
      · refine List.Nodup.of_map Prod.snd ?_
        rw [List.map_map]
        exact (ix.pendingScores fl query queryNorm).nodupKeys
      · exact List.Nodup.of_map _ (nodup_scoreEntries (List.nodup_dedup _))
      · rintro ⟨score, i⟩
        rw [mem_scoreEntries, List.mem_dedup, ← find?_pendingScores hfresh hscorable,
          ← AssocMap.mem_entries]
        constructor
        · intro hmem
          obtain ⟨e, he, hswap⟩ := List.mem_map.mp hmem
          cases hswap
          exact he
        · exact fun hmem => List.mem_map.mpr ⟨(i, score), hmem, rfl⟩
    obtain ⟨r, hr, hselects⟩ := keepBest_spec o hk fun x hx => hnum x (hperm.mem_iff.mp hx)
    rw [hr]
    have hselects' := hselects.perm_right hperm
    exact ⟨sortByScore r, rfl, pairwise_sortByScore fun x hx => hnum x (hselects'.subset x hx),
      hselects'.perm_left sortByScore_perm⟩

/-- The lists of the nearest centroids are there. -/
theorem probedEntries_total (fl : IvfFloats) (o : IvfOrders) (query : Row) (h : Shaped ix) :
    ∃ entries, ix.probedEntries fl o query = some entries := by
  have hsim : ∀ c ∈ List.range ix.config.nlist, ∃ x : UInt32 × Nat, (do
      let centroid ← ix.centroids[c]?
      let norm ← ix.centroidNorms[c]?
      return (similarity fl ix.config.metric query (fl.l2Norm query) centroid norm, c)) = some x ∧
        x.2 < ix.config.nlist := by
    intro c hc
    have hlt := List.mem_range.mp hc
    rw [List.getElem?_eq_getElem (h.centroids ▸ hlt),
      List.getElem?_eq_getElem (h.centroidNorms ▸ hlt)]
    exact ⟨_, rfl, hlt⟩
  obtain ⟨sims, hsims, -, hin⟩ := mapM_total hsim
  have hclusters : ∀ c ∈ ((o.queue.sort sims).take (min (min ix.config.nprobe ix.config.nlist)
      ix.config.nlist)).map Prod.snd, ∃ list, ix.invertedLists[c]? = some list ∧ True := by
    intro c hc
    obtain ⟨x, hx, rfl⟩ := List.mem_map.mp hc
    have hlt := hin x ((o.queue.sort_perm sims).mem_iff.mp (List.mem_of_mem_take hx))
    exact ⟨_, List.getElem?_eq_getElem (h.lists ▸ hlt), trivial⟩
  obtain ⟨lists, hlists, -, -⟩ := mapM_total hclusters
  refine ⟨lists.flatten, ?_⟩
  unfold IvfIndex.probedEntries IvfIndex.findNearestCentroids IvfIndex.centroidSims
  rw [hsims, Option.bind_eq_bind, Option.bind_eq_bind, Option.bind_some]
  dsimp only [pure]
  rw [Option.bind_some, hlists]
  rfl

variable {m : IvfMachine}

/-- **The inverted lists.** -/
theorem searchLists_spec (h : m.ix.trained = true → Shaped m.ix) (hk : 1 ≤ topK)
    (hnum : ∀ x ∈ m.listed fl o query queryNorm, (floatKey x.1).isSome) :
    ∃ kept, m.ix.searchLists fl o query queryNorm (withNorms fl m.rows) topK = some kept ∧
      Selects floatKey topK (m.listed fl o query queryNorm) kept := by
  have hrows : withNorms fl m.rows = [] ↔ m.rows = [] := List.map_eq_nil_iff
  unfold IvfIndex.searchLists
  unfold IvfMachine.listed IvfMachine.probed at hnum ⊢
  simp only [hrows]
  split
  · exact ⟨[], rfl, Selects.of_length_le (Nat.zero_le _)⟩
  · rename_i hsome
    rw [not_or, not_not] at hsome
    obtain ⟨entries, hentries⟩ := probedEntries_total fl o query (h hsome.1)
    rw [if_neg (by simp [hsome]), hentries] at hnum
    rw [hentries]
    exact keepBest_spec o hk hnum

end Search

namespace IvfMachine

/-- **A search of a regular index.** -/
theorem Inv.exactSearch {m : IvfMachine} (h : m.Inv) (hord : m.Orderly fl o query queryNorm topK) :
    m.ExactSearch fl o query queryNorm topK := by
  have hmem : ∀ x, x ∈ m.candidates fl o query queryNorm ↔
      x ∈ m.ix.scoreEntries fl query queryNorm (withNorms fl m.rows) m.ix.pending.dedup ∨
        x ∈ m.listed fl o query queryNorm := by
    intro x
    unfold candidates listed
    simp only [mem_scoreEntries, List.mem_dedup, List.mem_append]
    tauto
  obtain ⟨found, hfound, hsorted, hfoundSel⟩ := searchBuffer_spec o hord.one_le h.fresh
    hord.scorable fun x hx => hord.numbers x ((hmem x).mpr (.inl hx))
  obtain ⟨kept, hkept, hkeptSel⟩ := searchLists_spec h.shaped hord.one_le
    fun x hx => hord.numbers x ((hmem x).mpr (.inr hx))
  obtain ⟨results, hmerge, hrest⟩ := mergeResults_spec o hord.one_le
    (List.Nodup.of_map _ (nodup_scoreEntries (List.nodup_dedup _))) hmem hord.numbers
    (fun x hx y hy => scoreEntries_inj hx hy)
    (List.Nodup.of_map _ (nodup_scoreEntries (List.nodup_dedup _))) hfoundSel hsorted hkeptSel
    hord.uncrowded
  refine ⟨results, ?_, hrest⟩
  unfold search IvfIndex.search
  rw [hfound, Option.bind_eq_bind, Option.bind_some, hkept]
  exact hmerge

/-- **Search is exact**: after any run whose steps meet the condition on them, for any search that
    meets the one on searches. -/
theorem search_exact {config : IvfConfig} {dimension : Nat} {actions : List IvfAction}
    {m : IvfMachine} (hm : Meets (step fl) Regular (start config dimension) actions)
    (h : run (step fl) (start config dimension) actions = some m)
    (hord : m.Orderly fl o query queryNorm topK) : m.ExactSearch fl o query queryNorm topK :=
  (inv_run hm h).exactSearch hord

/-! ## 5. Crowded lists -/

/-- Dot products of the vectors `[1.0]` and `[2.0]`. -/
def dotFloats : IvfFloats where
  l2Norm := fun a => a.headD 0
  dotProduct := fun a b => if a = [0x3F800000] then b.headD 0 else a.headD 0
  l2Distance := fun _ _ => 0
  l2Similarity := fun _ _ => 0x3F800000
  cosine := fun _ _ _ _ => 0x3F800000
  add := fun a b => if a = 0 then b else 0x40000000
  divideBy := fun size a => if size = 2 then 0x3F800000 else a

/-- A queue that sorts, and a hash table that is walked in the order of its insertions. -/
def plainOrders : IvfOrders where
  queue := Ranking.byKey floatKey
  queue_orders := Ranking.byKey_orders floatKey
  walk := id
  walk_perm := fun _ => List.Perm.refl _

/-- Two vectors are stored and trained on, the first one is stored again, and both are sealed. -/
def storedAgain : List IvfAction :=
  [.store 0 [0x3F800000], .store 1 [0x3F800000],
    .train inOrder [[0x3F800000], [0x3F800000]] [0, 1] true,
    .store 0 [0x40000000], .sealBegin, .sealAssign 0, .sealCommit 0]

/-- Both vectors are listed twice. -/
def listedTwice : IvfMachine where
  ix := {
    config := { nlist := 1, metric := .kDot }
    dimension := 1
    trained := true
    centroids := [[0x3F800000]]
    centroidNorms := [0x3F800000]
    invertedLists := [[0, 1, 0, 1]]
    layoutGeneration := 1 }
  rows := [[0x40000000], [0x3F800000]]

theorem run_storedAgain :
    run (step dotFloats) (start { nlist := 1, metric := .kDot } 1) storedAgain =
      some listedTwice := by
  decide +kernel

theorem meets_storedAgain :
    Meets (step dotFloats) Regular (start { nlist := 1, metric := .kDot } 1) storedAgain := by
  simp only [storedAgain, Meets, Regular, true_and]
  repeat' split
  all_goals trivial

theorem search_exact_storedAgain :
    listedTwice.Orderly dotFloats plainOrders [0x3F800000] 0x3F800000 4 ∧
      listedTwice.ExactSearch dotFloats plainOrders [0x3F800000] 0x3F800000 4 := by
  have hord : listedTwice.Orderly dotFloats plainOrders [0x3F800000] 0x3F800000 4 :=
    ⟨by decide, by decide +kernel, nofun, .inr (by decide +kernel)⟩
  exact ⟨hord, search_exact meets_storedAgain run_storedAgain hord⟩

/-- **The two best places are taken by one index**: the other is not found. -/
theorem search_not_exact : ∃ m,
    run (step dotFloats) (start { nlist := 1, metric := .kDot } 1) storedAgain = some m ∧
      ¬ m.ExactSearch dotFloats plainOrders [0x3F800000] 0x3F800000 2 := by
  refine ⟨listedTwice, run_storedAgain, ?_⟩
  rintro ⟨results, hsearch, -, -, hselects⟩
  have hfound : listedTwice.search dotFloats plainOrders [0x3F800000] 0x3F800000 2 =
      some [(0x40000000, 0)] := by
    have hkept : listedTwice.ix.searchLists dotFloats plainOrders [0x3F800000] 0x3F800000
        (withNorms dotFloats listedTwice.rows) 2 = some [(0x40000000, 0), (0x40000000, 0)] := by
      decide +kernel
    have hsorted : sortByScore [(0x40000000, 0), (0x40000000, 0)] =
        [(0x40000000, 0), (0x40000000, 0)] :=
      List.mergeSort_of_pairwise (by decide +kernel)
    unfold search IvfIndex.search
    rw [hkept]
    exact congrArg (fun l => some (dedupIndices l)) hsorted
  have hlen : (listedTwice.candidates dotFloats plainOrders [0x3F800000] 0x3F800000).length = 2 := by
    decide +kernel
  obtain rfl := Option.some.inj (hfound.symm.trans hsearch)
  have := hselects.length
  rw [hlen] at this
  cases this

end IvfMachine

end Nvecd.Vectors
