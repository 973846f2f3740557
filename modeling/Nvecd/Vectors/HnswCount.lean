/-
  File:      Nvecd/Vectors/HnswCount.lean
  Subject:   How many results a search of an HNSW index has.

  The search widens until it has enough live nodes or its width is the number of nodes. It only
  ever sees what the links of layer 0 lead to from the node at which the descent ends, and a node
  that no list names any more is not among that: the reverse links are cut to the nearest.

  * `landing` -- the node at which the descent ends;
  * `liveOf`, `liveReached` -- the live nodes of a list, and those that can be reached;
  * `widen_spec`, `Inv.search_spec` -- a search finds the live nodes that can be reached, as many
    as are asked for;
  * `search_count_iff` -- when that is as many as there are.
-/
import Nvecd.Lib.Reached
import Nvecd.Vectors.HnswInvariant

namespace Nvecd.Vectors

open Nvecd.Lib

variable {F : Type} {fl : HnswMetric F} {g : HnswIndex F}

namespace HnswIndex

/-! ## 1. What can be reached -/

/-- The links of layer 0. -/
def layer0 (g : HnswIndex F) : Nat → List Nat := neighborsAt g.nodes 0

/-- The node at which the descent ends, if there is anything to find. -/
def landing (fl : HnswMetric F) (g : HnswIndex F) (query : List F) : Option Nat :=
  if g.entryPoint = uint32Max ∨ g.activeCount = 0 then none
  else descend fl.ranking (g.computeDistance fl query (queryNormOf fl query)) g.nodes 0 g.maxLevel
    g.entryPoint

/-- The node is not deleted. -/
def isLive (g : HnswIndex F) (id : Nat) : Bool := (g.nodes[id]?).any fun node => !node.deleted

/-- The compact index of a node. -/
def compactOf (g : HnswIndex F) (id : Nat) : Nat := ((g.nodes[id]?).map (·.compactIndex)).getD 0

/-- The live nodes among candidates, as results. -/
def liveOf (g : HnswIndex F) (candidates : List (F × Nat)) : List (Nat × F) :=
  (candidates.filter fun x => g.isLive x.2).map fun x => (g.compactOf x.2, x.1)

open Classical in
/-- **The live nodes that can be reached** from a node. -/
noncomputable def liveReached (g : HnswIndex F) (cur : Nat) : List Nat :=
  ((List.range g.nodes.length).filter g.isLive).filter fun id => Reaches g.layer0 cur id

theorem isLive_iff {id : Nat} :
    g.isLive id = true ↔ ∃ node, g.nodes[id]? = some node ∧ node.deleted = false := by
  unfold isLive
  rw [Option.any_eq_true]
  simp

/-- The live nodes. -/
def liveNodes (g : HnswIndex F) : List Nat := (List.range g.nodes.length).filter g.isLive

theorem mem_liveNodes {id : Nat} : id ∈ g.liveNodes ↔ g.isLive id = true := by
  unfold liveNodes
  rw [List.mem_filter, List.mem_range]
  refine and_iff_right_of_imp fun h => ?_
  obtain ⟨node, hnode, -⟩ := isLive_iff.1 h
  exact (List.getElem?_eq_some_iff.mp hnode).1

theorem mem_liveReached {cur id : Nat} :
    id ∈ g.liveReached cur ↔ g.isLive id = true ∧ Reaches g.layer0 cur id := by
  classical
  unfold liveReached
  rw [List.mem_filter, decide_eq_true_eq]
  exact and_congr_left fun _ => mem_liveNodes

theorem liveReached_sublist (g : HnswIndex F) (cur : Nat) :
    (g.liveReached cur).Sublist g.liveNodes := List.filter_sublist

theorem nodup_liveNodes (g : HnswIndex F) : g.liveNodes.Nodup := List.nodup_range.filter _

/-- All live nodes can be reached if as many can. -/
theorem length_liveReached_eq (g : HnswIndex F) (cur : Nat) :
    (g.liveReached cur).length = g.liveNodes.length ↔
      ∀ id, g.isLive id = true → Reaches g.layer0 cur id := by
  constructor
  · intro h id hid
    have heq := (liveReached_sublist g cur).eq_of_length h
    exact (mem_liveReached.1 (heq ▸ mem_liveNodes.2 hid)).2
  · intro h
    congr 1
    classical
    exact List.filter_eq_self.mpr fun id hid => decide_eq_true (h id (mem_liveNodes.1 hid))

/-- As many live nodes as the list of nodes has. -/
theorem length_liveNodes (g : HnswIndex F) :
    g.liveNodes.length = g.nodes.countP fun node => !node.deleted := by
  have hmap : g.nodes.map (fun node => !node.deleted) =
      (List.range g.nodes.length).map g.isLive := by
    refine List.ext_getElem? fun i => ?_
    rw [List.getElem?_map, List.getElem?_map]
    by_cases hi : i < g.nodes.length
    · rw [List.getElem?_range hi, Option.map_some]
      unfold isLive
      rw [List.getElem?_eq_getElem hi]
      rfl
    · rw [List.getElem?_eq_none (not_lt.mp hi), List.getElem?_eq_none (by simpa using hi)]
      rfl
  unfold liveNodes
  rw [← List.countP_eq_length_filter]
  have hcount := congrArg (List.countP id) hmap
  rw [List.countP_map, List.countP_map] at hcount
  exact hcount.symm

/-! ## 2. What a search takes of its candidates -/

theorem liveResults_eq {topK : Nat} (candidates : List (F × Nat)) {results : List (Nat × F)}
    (h : results.length < topK) :
    g.liveResults topK candidates results =
      results ++ (g.liveOf candidates).take (topK - results.length) := by
  induction candidates generalizing results with
  | nil => simp [liveResults, liveOf]
  | cons x rest ih =>
    obtain ⟨score, id⟩ := x
    unfold liveResults
    cases hnode : g.nodes[id]? with
    | none =>
      have hdead : g.isLive id = false := by rw [isLive, hnode]; rfl
      have hof : g.liveOf ((score, id) :: rest) = g.liveOf rest := by simp [liveOf, hdead]
      rw [hof]
      exact ih h
    | some node =>
      have hlive : g.isLive id = !node.deleted := by rw [isLive, hnode]; rfl
      cases hdel : node.deleted with
      | true =>
        have hof : g.liveOf ((score, id) :: rest) = g.liveOf rest := by simp [liveOf, hlive, hdel]
        rw [hof]
        simpa [hdel] using ih h
      | false =>
        have hcompact : g.compactOf id = node.compactIndex := by rw [compactOf, hnode]; rfl
        have hof : g.liveOf ((score, id) :: rest) = (node.compactIndex, score) :: g.liveOf rest := by
          simp [liveOf, hlive, hdel, hcompact]
        have hlen : (results ++ [(node.compactIndex, score)]).length = results.length + 1 := by
          rw [List.length_append, List.length_singleton]
        obtain ⟨left, hleft⟩ : ∃ left, topK - results.length = left + 1 :=
          ⟨topK - results.length - 1, by omega⟩
        rw [hof, hleft, List.take_succ_cons]
        dsimp only
        rw [hdel, if_neg Bool.false_ne_true, hlen]
        split
        · have hzero : left = 0 := by omega
          rw [hzero, List.take_zero]
        · rw [ih (by omega), hlen, List.append_assoc]
          have hrest : topK - (results.length + 1) = left := by omega
          rw [hrest]
          rfl

theorem nodup_liveOf {live : Nat → Option (List F)} (h : g.Directory live)
    {candidates : List (F × Nat)} (hnd : (candidates.map Prod.snd).Nodup) :
    ((g.liveOf candidates).map Prod.fst).Nodup := by
  unfold liveOf
  rw [List.map_map]
  have hlive : ∀ x ∈ candidates.filter (fun x => g.isLive x.2),
      g.compactToInternal[g.compactOf x.2]? = some x.2 := by
    intro x hx
    obtain ⟨node, hnode, hdel⟩ := isLive_iff.1 (List.mem_filter.mp hx).2
    have hcompact : g.compactOf x.2 = node.compactIndex := by rw [compactOf, hnode]; rfl
    rw [hcompact]
    exact h.reached x.2 node hnode hdel
  refine List.pairwise_map.mpr ((List.pairwise_map.mp (hnd.sublist
    (List.filter_sublist.map Prod.snd))).imp_of_mem fun {x y} hx hy hne heq => hne ?_)
  have hsame := hlive x hx
  rw [show g.compactOf x.2 = g.compactOf y.2 from heq, hlive y hy] at hsame
  exact (Option.some.inj hsame).symm

/-- The live nodes among candidates that can be reached. -/
theorem length_liveOf_le {cur : Nat} {candidates : List (F × Nat)}
    (hnd : (candidates.map Prod.snd).Nodup)
    (hreached : ∀ x ∈ candidates, Reaches g.layer0 cur x.2) :
    (g.liveOf candidates).length ≤ (g.liveReached cur).length := by
  have hids : (g.liveOf candidates).length =
      ((candidates.filter fun x => g.isLive x.2).map Prod.snd).length := by
    rw [liveOf, List.length_map, List.length_map]
  rw [hids]
  refine (List.subperm_of_subset (hnd.sublist (List.filter_sublist.map _)) fun id hid => ?_).length_le
  obtain ⟨x, hx, rfl⟩ := List.mem_map.mp hid
  obtain ⟨hmem, hlive⟩ := List.mem_filter.mp hx
  exact mem_liveReached.2 ⟨hlive, hreached x hmem⟩

/-- Candidates that are all that can be reached have all live nodes that can be. -/
theorem length_liveOf_eq {cur : Nat} {candidates : List (F × Nat)}
    (hnd : (candidates.map Prod.snd).Nodup)
    (hreached : ∀ x ∈ candidates, Reaches g.layer0 cur x.2)
    (hall : ∀ id, Reaches g.layer0 cur id → id ∈ candidates.map Prod.snd) :
    (g.liveOf candidates).length = (g.liveReached cur).length := by
  refine le_antisymm (length_liveOf_le hnd hreached) ?_
  have hids : (g.liveOf candidates).length =
      ((candidates.filter fun x => g.isLive x.2).map Prod.snd).length := by
    rw [liveOf, List.length_map, List.length_map]
  rw [hids]
  refine (List.subperm_of_subset ((nodup_liveNodes g).sublist (liveReached_sublist g cur))
    fun id hid => ?_).length_le
  obtain ⟨hlive, hreach⟩ := mem_liveReached.1 hid
  obtain ⟨x, hx, rfl⟩ := List.mem_map.mp (hall id hreach)
  exact List.mem_map_of_mem (List.mem_filter.mpr ⟨hx, hlive⟩)

/-! ## 3. The search -/

/-- **What a search from a node finds**: live nodes that can be reached, the best first, and as
    many as there are or are asked for. -/
structure Finds (fl : HnswMetric F) (g : HnswIndex F) (query : List F) (topK cur : Nat)
    (results : List (Nat × F)) : Prop where
  length : results.length = min topK (g.liveReached cur).length
  distinct : (results.map Prod.fst).Nodup
  live : ∀ r ∈ results, ∃ id, g.LiveNode r.1 id ∧ Reaches g.layer0 cur id ∧
    r.2 = g.computeDistance fl query (queryNormOf fl query) id
  sorted : results.Pairwise fun r r' => fl.ranking.better r'.2 r.2 = false

variable {query : List F} {topK cur : Nat}

/-- If no more can be reached than are asked for, each that can be is in the answer. -/
theorem Finds.mem_of_reached {results : List (Nat × F)} (h : g.Finds fl query topK cur results)
    (hall : (g.liveReached cur).length ≤ topK) {id : Nat} (hid : id ∈ g.liveReached cur) :
    g.compactOf id ∈ results.map Prod.fst := by
  have hcompact : results.map Prod.fst ⊆ (g.liveReached cur).map g.compactOf := by
    intro i hi
    obtain ⟨r, hr, rfl⟩ := List.mem_map.mp hi
    obtain ⟨id, ⟨node, hnode, hdel, hc⟩, hreach, -⟩ := h.live r hr
    refine List.mem_map.mpr ⟨id, mem_liveReached.mpr ⟨?_, hreach⟩, ?_⟩
    · exact isLive_iff.mpr ⟨node, hnode, hdel⟩
    · rw [compactOf, hnode]
      exact hc
  -- no result twice, and as many results as can be reached
  have hperm := (List.subperm_of_subset h.distinct hcompact).perm_of_length_le (by
    rw [List.length_map, List.length_map, h.length, Nat.min_eq_right hall])
  exact hperm.mem_iff.mpr (List.mem_map_of_mem hid)

theorem Inv.mem_range_of_reaches {live : Nat → Option (List F)} (h : g.Inv live)
    (hcur : HasLayer g.nodes 0 cur) {id : Nat} (hid : Reaches g.layer0 cur id) :
    id ∈ List.range g.nodes.length := by
  induction hid with
  | refl => exact hcur.mem_range
  | tail _ hstep _ => exact (h.linked.ends 0 _ _ hstep).mem_range

/-- If the round is as wide as there are nodes, everything that can be reached is a candidate. -/
theorem mem_of_wide {live : Nat → Option (List F)} (h : g.Inv live) {ef : Nat}
    {candidates : List (F × Nat)}
    (hreached : Reached fl.ranking g.layer0
      (g.computeDistance fl query (queryNormOf fl query)) ef cur candidates)
    (hcur : HasLayer g.nodes 0 cur) (hwide : g.nodes.length ≤ ef) :
    ∀ id, Reaches g.layer0 cur id → id ∈ candidates.map Prod.snd := by
  intro id hid
  rcases hreached.full with hfull | hall
  · have hsub : candidates.map Prod.snd ⊆ List.range g.nodes.length := by
      intro i hi
      obtain ⟨x, hx, rfl⟩ := List.mem_map.mp hi
      exact h.mem_range_of_reaches hcur (hreached.reached x hx)
    have hperm := (List.subperm_of_subset hreached.nodup hsub).perm_of_length_le (by
      rw [List.length_range, List.length_map]
      omega)
    exact hperm.mem_iff.mpr (h.mem_range_of_reaches hcur hid)
  · exact hall id hid

/-- The live candidates of one round, if it is the last. -/
theorem finds_of_reached {live : Nat → Option (List F)} (h : g.Inv live)
    (hsorts : fl.ranking.Sorts) {ef : Nat} {candidates : List (F × Nat)}
    (hreached : Reached fl.ranking g.layer0
      (g.computeDistance fl query (queryNormOf fl query)) ef cur candidates)
    (hcur : HasLayer g.nodes 0 cur)
    (hlast : topK ≤ (g.liveOf candidates).length ∨ g.nodes.length ≤ ef) :
    g.Finds fl query topK cur ((g.liveOf candidates).take topK) := by
  have hle := length_liveOf_le hreached.nodup hreached.reached
  refine ⟨?_, ?_, fun r hr => ?_, ?_⟩
  · rw [List.length_take]
    rcases hlast with henough | hwide
    · omega
    · rw [length_liveOf_eq hreached.nodup hreached.reached (mem_of_wide h hreached hcur hwide)]
  · rw [List.map_take]
    exact (nodup_liveOf h.directory hreached.nodup).sublist (List.take_sublist _ _)
  · obtain ⟨x, hx, rfl⟩ := List.mem_map.mp (List.mem_of_mem_take hr)
    obtain ⟨hmem, hlive⟩ := List.mem_filter.mp hx
    obtain ⟨node, hnode, hdel⟩ := isLive_iff.1 hlive
    refine ⟨x.2, ⟨node, hnode, hdel, ?_⟩, hreached.reached x hmem, hreached.scored x hmem⟩
    rw [compactOf, hnode]
    rfl
  · obtain ⟨found, hfound⟩ := hreached.ranked
    have hsorted : candidates.Pairwise fun x y => fl.ranking.better y.1 x.1 = false :=
      hfound ▸ hsorts found
    refine List.Pairwise.sublist (List.take_sublist _ _) ?_
    exact List.pairwise_map.mpr (hsorted.sublist List.filter_sublist)

/-- One round of the search of layer 0. -/
theorem Inv.searchLayer_reached {live : Nat → Option (List F)} (h : g.Inv live) (query : List F)
    (hcur : HasLayer g.nodes 0 cur) {ef : Nat} (hef : 0 < ef) :
    ∃ candidates, searchLayer fl.ranking (g.computeDistance fl query (queryNormOf fl query))
        g.nodes cur 0 ef = some candidates ∧
      Reached fl.ranking g.layer0 (g.computeDistance fl query (queryNormOf fl query)) ef cur
        candidates := by
  obtain ⟨candidates, hsearch, hreached⟩ := bestFirst_reached fl.ranking
    (g.computeDistance fl query (queryNormOf fl query)) hef
    fun _ hid => h.mem_range_of_reaches hcur hid
  rw [List.length_range] at hsearch
  exact ⟨candidates, hsearch, hreached⟩

/-- **The search of layer 0**, wider and wider. -/
theorem widen_spec (query : List F) {live : Nat → Option (List F)} (h : g.Inv live) (hsorts : fl.ranking.Sorts)
    (hcur : HasLayer g.nodes 0 cur) (hk : 0 < topK) {ef fuel : Nat} (hef : 0 < ef)
    (hfuel : g.nodes.length - ef < fuel) :
    ∃ results, g.widen fl query topK cur fuel ef = some results ∧
      g.Finds fl query topK cur results := by
  induction fuel generalizing ef with
  | zero => omega
  | succ fuel ih =>
    obtain ⟨candidates, hlayer, hreached⟩ := h.searchLayer_reached query hcur hef
    have hresults : g.liveResults topK candidates [] = (g.liveOf candidates).take topK := by
      rw [liveResults_eq candidates (by exact hk)]
      rfl
    unfold widen
    rw [hlayer]
    dsimp only
    rw [hresults]
    split
    · rename_i hlast
      refine ⟨_, rfl, finds_of_reached h hsorts hreached hcur (hlast.imp_left fun hle => ?_)⟩
      exact hle.trans (List.length_take_le' topK _)
    · rename_i hmore
      push Not at hmore
      have hfew := h.directory.fewNodes
      have hsmall : (ef + 1) % 2 ^ 32 = ef + 1 := by
        refine Nat.mod_eq_of_lt ?_
        unfold uint32Max at hfew
        omega
      rw [hsmall]
      exact ih (by omega) (by omega)

/-- **A search** finds what can be reached from where the descent ends. -/
theorem Inv.search_spec (query : List F) {live : Nat → Option (List F)} (h : g.Inv live)
    (hsorts : fl.ranking.Sorts) (hk : 0 < topK) :
    (g.landing fl query = none ∧ g.activeCount = 0 ∧ g.search fl query topK = some []) ∨
      ∃ cur results, g.landing fl query = some cur ∧ HasLayer g.nodes 0 cur ∧
        g.search fl query topK = some results ∧ g.Finds fl query topK cur results := by
  unfold landing search
  split
  · rename_i hempty
    refine .inl ⟨rfl, ?_, rfl⟩
    rcases hempty with hentry | hnone
    · have hnil : g.nodes = [] := by
        by_contra hne
        exact h.entry_ne hne hentry
      rw [h.directory.active, hnil]
      rfl
    · exact hnone
  · rename_i hthere
    push Not at hthere
    have hne : g.nodes ≠ [] := fun hnil => hthere.1 (h.noEntry hnil)
    obtain ⟨node, hnode, hlevel⟩ := h.entry hne
    have hstart : InLayer g.nodes g.maxLevel g.nodes.length g.entryPoint :=
      ⟨(List.getElem?_eq_some_iff.mp hnode).1.ne, node, hnode, hlevel.ge⟩
    obtain ⟨cur, hcur, -, hlayer⟩ := descend_spec fl.ranking
      (g.computeDistance fl query (queryNormOf fl query)) h.linked h.not_listed 0 hstart
    rw [Nat.zero_min] at hlayer
    rw [hcur]
    obtain ⟨results, hresults, hfinds⟩ := widen_spec query h hsorts hlayer hk
      (hk.trans_le (le_max_right g.config.efSearch topK))
      (Nat.lt_succ_of_le (Nat.sub_le g.nodes.length _))
    exact .inr ⟨cur, results, rfl, hlayer, hresults, hfinds⟩

/-- **A search that is as wide as there are nodes** leaves out no live node that is better than
    one it has found. -/
theorem Inv.search_best (query : List F) {live : Nat → Option (List F)} (h : g.Inv live)
    (hsorts : fl.ranking.Sorts) (hk : 0 < topK)
    (hwide : g.nodes.length ≤ max g.config.efSearch topK) {results : List (Nat × F)}
    (hcur : g.landing fl query = some cur) (hlayer : HasLayer g.nodes 0 cur)
    (hsearch : g.search fl query topK = some results) {id : Nat} (hlive : g.isLive id = true)
    (hreach : Reaches g.layer0 cur id) :
    g.compactOf id ∈ results.map Prod.fst ∨ ∀ r ∈ results,
      fl.ranking.better (g.computeDistance fl query (queryNormOf fl query) id) r.2 = false := by
  have hef : 0 < max g.config.efSearch topK := hk.trans_le (le_max_right _ _)
  obtain ⟨candidates, hround, hreached⟩ :=
    h.searchLayer_reached query hlayer hef
  have hresults : results = (g.liveOf candidates).take topK := by
    unfold landing at hcur
    unfold search at hsearch
    split at hcur
    · cases hcur
    · rename_i hthere
      rw [if_neg hthere, hcur] at hsearch
      dsimp only at hsearch
      unfold widen at hsearch
      rw [hround] at hsearch
      dsimp only at hsearch
      rw [if_pos (.inr hwide), liveResults_eq candidates (by exact hk)] at hsearch
      exact (Option.some.inj hsearch).symm
  obtain ⟨x, hx, rfl⟩ := List.mem_map.mp (mem_of_wide h hreached hlayer hwide id hreach)
  obtain ⟨found, hfound⟩ := hreached.ranked
  have hsorted : candidates.Pairwise fun x y => fl.ranking.better y.1 x.1 = false :=
    hfound ▸ hsorts found
  have hlives : (g.liveOf candidates).Pairwise fun r r' => fl.ranking.better r'.2 r.2 = false :=
    List.pairwise_map.mpr (hsorted.sublist List.filter_sublist)
  have hmem : (g.compactOf x.2, x.1) ∈ g.liveOf candidates :=
    List.mem_map_of_mem (List.mem_filter.mpr ⟨hx, hlive⟩)
  rw [← List.take_append_drop topK (g.liveOf candidates)] at hmem hlives
  rw [hresults]
  rcases List.mem_append.mp hmem with htaken | hleft
  · exact .inl (List.mem_map_of_mem htaken)
  · refine .inr fun r hr => ?_
    rw [← hreached.scored x hx]
    exact (List.pairwise_append.mp hlives).2.2 r hr _ hleft

/-- Of none that is asked for the first is found all the same. -/
theorem liveResults_zero (g : HnswIndex F) (candidates : List (F × Nat)) :
    g.liveResults 0 candidates [] = g.liveResults 1 candidates [] := by
  induction candidates with
  | nil => rfl
  | cons x rest ih =>
    obtain ⟨score, id⟩ := x
    unfold liveResults
    split
    · split
      · exact ih
      · rfl
    · exact ih

/-- **Whatever is asked for**, a search ends, and finds different live nodes with their scores. -/
theorem Inv.search_sound {live : Nat → Option (List F)} (h : g.Inv live)
    (hsorts : fl.ranking.Sorts) (query : List F) (topK : Nat) :
    ∃ results, g.search fl query topK = some results ∧ (results.map Prod.fst).Nodup ∧
      ∀ r ∈ results, ∃ id, g.LiveNode r.1 id ∧
        r.2 = g.computeDistance fl query (queryNormOf fl query) id := by
  rcases Nat.eq_zero_or_pos topK with rfl | hk
  · -- one round, of which the first live node is taken
    rcases h.search_spec query hsorts Nat.one_pos with
      ⟨-, hzero, -⟩ | ⟨cur, -, hcur, hlayer, -, -⟩
    · exact ⟨[], if_pos (.inr hzero), List.nodup_nil, nofun⟩
    · have hin : ∀ c, c < g.nodes.length → ∀ n ∈ g.layer0 c, n < g.nodes.length := fun c _ n hn =>
        List.mem_range.mp (h.linked.ends 0 c n hn).mem_range
      obtain ⟨candidates, hsearch, -, hnodup, hall⟩ := bestFirst_spec fl.ranking
        (g.computeDistance fl query (queryNormOf fl query)) (max g.config.efSearch 0)
        (fun n hn => List.mem_range.mpr hn) hin (List.mem_range.mp hlayer.mem_range)
      rw [List.length_range] at hsearch
      have hround : searchLayer fl.ranking (g.computeDistance fl query (queryNormOf fl query))
          g.nodes cur 0 (max g.config.efSearch 0) = some candidates := hsearch
      have hresults : g.liveResults 0 candidates [] = (g.liveOf candidates).take 1 := by
        rw [liveResults_zero, liveResults_eq candidates Nat.one_pos]
        rfl
      refine ⟨(g.liveOf candidates).take 1, ?_, ?_, fun r hr => ?_⟩
      · unfold landing at hcur
        unfold search
        split
        · rename_i hempty
          rw [if_pos hempty] at hcur
          cases hcur
        · rename_i hthere
          rw [if_neg hthere] at hcur
          rw [hcur]
          dsimp only
          unfold widen
          rw [hround]
          dsimp only
          rw [hresults]
          exact if_pos (.inl (Nat.zero_le _))
      · rw [List.map_take]
        exact (nodup_liveOf h.directory hnodup).sublist (List.take_sublist _ _)
      · obtain ⟨x, hx, rfl⟩ := List.mem_map.mp (List.mem_of_mem_take hr)
        obtain ⟨hmem, hlive⟩ := List.mem_filter.mp hx
        obtain ⟨node, hnode, hdel⟩ := isLive_iff.1 hlive
        refine ⟨x.2, ⟨node, hnode, hdel, ?_⟩, (hall x hmem).2⟩
        rw [compactOf, hnode]
        rfl
  · rcases h.search_spec query hsorts hk with
      ⟨-, -, hsearch⟩ | ⟨cur, results, -, -, hsearch, hfinds⟩
    · exact ⟨[], hsearch, List.nodup_nil, nofun⟩
    · refine ⟨results, hsearch, hfinds.distinct, fun r hr => ?_⟩
      obtain ⟨id, hid, -, hscore⟩ := hfinds.live r hr
      exact ⟨id, hid, hscore⟩

end HnswIndex

/-! ## 4. When there are as many results as there can be -/

/-- **The number of results.** However vectors are compared and levels are drawn: after every run
whose numbers stay below `UINT32_MAX`, a search ends, with different live compact indices, the best
first. They are as many as are asked for or are active if and only if as many can be reached at
layer 0 from where the descent ends, or all live nodes can. -/
theorem search_count_iff (fl : HnswMetric F) (hsorts : fl.ranking.Sorts) (config : HnswConfig)
    (dimension : Nat) (levelDraws : Nat → Nat) (ops : List (HnswOp F))
    (hops : Meets (HnswIndex.step fl) HnswIndex.BelowMax
      (HnswIndex.new config dimension levelDraws) ops) :
    ∃ g, run (HnswIndex.step fl) (HnswIndex.new config dimension levelDraws) ops = some g ∧
      ∀ (query : List F) (topK : Nat), 0 < topK →
        ∃ results, g.search fl query topK = some results ∧
          (results.map Prod.fst).Nodup ∧
          (∀ r ∈ results, ∃ id, g.LiveNode r.1 id) ∧
          results.Pairwise (fun r r' => fl.ranking.better r'.2 r.2 = false) ∧
          (results.length = min topK g.activeCount ↔
            ∀ cur, g.landing fl query = some cur →
              topK ≤ (g.liveReached cur).length ∨
                ∀ id, g.isLive id = true → Reaches g.layer0 cur id) := by
  obtain ⟨g, hrun, hinv, _⟩ := run_simulates
    (fun g s op (h : g.Holds s) hop => h.step fl op hop)
    (HnswIndex.holds_new config dimension levelDraws) hops
  refine ⟨g, hrun, fun query topK hk => ?_⟩
  rcases hinv.search_spec query hsorts hk with
    ⟨hnone, hzero, hsearch⟩ | ⟨cur, results, hcur, -, hsearch, hfinds⟩
  · refine ⟨[], hsearch, List.nodup_nil, nofun, List.Pairwise.nil, ?_⟩
    rw [hnone, hzero]
    simp
  · refine ⟨results, hsearch, hfinds.distinct, fun r hr => ?_, hfinds.sorted, ?_⟩
    · obtain ⟨id, hid, -, -⟩ := hfinds.live r hr
      exact ⟨id, hid⟩
    · have hactive : g.activeCount = g.liveNodes.length :=
        hinv.directory.active.trans (HnswIndex.length_liveNodes g).symm
      have hle := (HnswIndex.liveReached_sublist g cur).length_le
      have hall := HnswIndex.length_liveReached_eq g cur
      rw [hfinds.length, hactive]
      constructor
      · intro h cur' hcur'
        cases hcur.symm.trans hcur'
        rw [← hall]
        omega
      · intro h
        have hcount := h cur hcur
        rw [← hall] at hcount
        omega

/-- Six vectors of which the second is far from the others. -/
def outlierRun : List (HnswOp Int) :=
  [.add 0 fun _ => 0, .add 1 fun _ => 100, .add 2 fun _ => 1, .add 3 fun _ => 2, .add 4 fun _ => 3,
    .add 5 fun _ => 4]

def outlierIndex : HnswIndex Int := .new { m := 2 } 1 fun _ => 0

theorem exampleMetric_sorts : exampleMetric.ranking.Sorts :=
  Ranking.sorted_sorts fun a b c hab hbc => by
    simp only [decide_eq_false_iff_not, not_lt] at *
    omega

theorem search_count_outlier : ∃ g, run (HnswIndex.step exampleMetric) outlierIndex outlierRun =
    some g ∧ ∀ (query : List Int) (topK : Nat), 0 < topK →
      ∃ results, g.search exampleMetric query topK = some results ∧
        (results.map Prod.fst).Nodup ∧
        (∀ r ∈ results, ∃ id, g.LiveNode r.1 id) ∧
        results.Pairwise (fun r r' => exampleMetric.ranking.better r'.2 r.2 = false) ∧
        (results.length = min topK g.activeCount ↔
          ∀ cur, g.landing exampleMetric query = some cur →
            topK ≤ (g.liveReached cur).length ∨
              ∀ id, g.isLive id = true → Reaches g.layer0 cur id) :=
  search_count_iff exampleMetric exampleMetric_sorts _ 1 _ outlierRun (by decide +kernel)

/-- The six results that are asked for are five: no list names the second vector any more. -/
theorem outlier_not_found :
    Meets (HnswIndex.step exampleMetric) HnswIndex.BelowMax outlierIndex outlierRun ∧
      ∃ g, run (HnswIndex.step exampleMetric) outlierIndex outlierRun = some g ∧
        g.activeCount = 6 ∧ (g.search exampleMetric [0] 6).map List.length = some 5 := by
  refine ⟨by decide +kernel, ?_⟩
  have hrun : ((run (HnswIndex.step exampleMetric) outlierIndex outlierRun).map fun g =>
      (g.activeCount, (g.search exampleMetric [0] 6).map List.length)) = some (6, some 5) := by
    decide +kernel
  obtain ⟨g, hg, heq⟩ := Option.map_eq_some_iff.mp hrun
  obtain ⟨hactive, hfive⟩ := Prod.mk.inj heq
  exact ⟨g, hg, hactive, hfive⟩

end Nvecd.Vectors
