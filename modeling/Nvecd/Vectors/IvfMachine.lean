/-
  File:      Nvecd/Vectors/IvfMachine.lean
  Subject:   The runs of an IVF index and of the store whose slots it names.

  The index and the rows of the store, and the threads in `SealBuffer`. A step is a critical
  section: the two halves of `RemoveVector` are two, the phases of `SealBuffer` three. `Train` and
  `ResetTrained` may come at any time, with any rows (it works on an older copy of the store).

  * `IvfMachine`, `IvfAction`, `IvfMachine.step`;
  * `Fresh` -- a pending entry is the row of its slot, unless a newer one is pending;
  * `Shaped` -- as many centroids and lists as clusters, and assignments to clusters there are;
  * `Regular` -- the condition on a step; `fresh_run` -- what it keeps.
-/
import Nvecd.Vectors.IvfTraining

namespace Nvecd.Vectors

open Nvecd.Lib

/-! ## 1. The machine -/

/-- The rows have the dimension of the index. -/
structure IvfMachine where
  ix : IvfIndex
  rows : List Row := []
  jobs : List SealJob := []
  deriving DecidableEq, Repr

inductive IvfAction where
  /-- A vector goes to a slot of the store, the last one or a new one, and to the buffer. -/
  | store (idx : Nat) (vec : Row)
  /-- The store gets other rows, as by a compaction or a load. -/
  | replaceRows (rows : List Row)
  | removePending (idx : Nat)
  | removeListed (idx : Nat)
  | train (rng : IvfRandom) (matrix : List Row) (validIndices : List Nat) (assignVectors : Bool)
  | addVector (idx : Nat) (vec : Row)
  | bulkAddVectors (entries : List (Nat × Row))
  | sealBegin
  | sealAssign (i : Nat)
  | sealCommit (i : Nat)
  | resetTrained
  | setNlist (nlist : Nat)
  | setNprobe (nprobe : Nat)

namespace IvfMachine

/-- A new index over an empty store. -/
def start (config : IvfConfig) (dimension : Nat) : IvfMachine :=
  { ix := { config := config, dimension := dimension } }

def setIndex (m : IvfMachine) (ix : IvfIndex) : IvfMachine := { m with ix := ix }

variable (fl : IvfFloats)

/-- One step; `none` where there is no such thread, and where the code reads out of range. -/
def step (m : IvfMachine) : IvfAction → Option IvfMachine
  | .store idx vec =>
    if m.rows.length < idx then none
    else some { m with
      rows := if idx < m.rows.length then m.rows.set idx vec else m.rows ++ [vec]
      ix := m.ix.appendToBuffer idx vec }
  | .replaceRows rows => some { m with rows := rows }
  | .removePending idx => some (m.setIndex (m.ix.removePending idx))
  | .removeListed idx => some (m.setIndex (m.ix.removeListed idx))
  | .train rng matrix validIndices assignVectors =>
    if validIndices.all fun idx => idx < matrix.length then
      (m.ix.train fl rng matrix validIndices m.ix.dimension assignVectors).map m.setIndex
    else none
  | .addVector idx vec => (m.ix.addVector fl idx vec).map m.setIndex
  | .bulkAddVectors entries => (m.ix.bulkAddVectors fl entries).map m.setIndex
  | .sealBegin =>
    let (ix, job) := m.ix.sealBegin
    some { m with ix := ix, jobs := m.jobs ++ job.toList }
  | .sealAssign i => do
    let job ← m.jobs[i]?
    if job.assigned.isSome then none
    else
      let (ix, next) ← m.ix.sealAssign fl job
      return { m with ix := ix, jobs := m.jobs.eraseIdx i ++ next.toList }
  | .sealCommit i => do
    let job ← m.jobs[i]?
    let (clusters, generation) ← job.assigned
    let ix ← m.ix.sealCommit job.entries clusters generation
    return { m with ix := ix, jobs := m.jobs.eraseIdx i }
  | .resetTrained => some (m.setIndex m.ix.resetTrained)
  | .setNlist nlist => some (m.setIndex (m.ix.setNlist nlist))
  | .setNprobe nprobe => some (m.setIndex (m.ix.setNprobe nprobe))

end IvfMachine

/-! ## 2. The invariants -/

/-- **Pending entries are the newest**: an entry of the buffer is the row of its slot, and so is
    one that is being sealed, unless the buffer has another. -/
structure Fresh (ix : IvfIndex) (rows : List Row) : Prop where
  bufferNodup : (ix.buffer.map Prod.fst).Nodup
  sealingNodup : (ix.sealing.map Prod.fst).Nodup
  buffer : ∀ e ∈ ix.buffer, rows[e.1]? = some e.2
  sealing : ∀ e ∈ ix.sealing, e.1 ∉ ix.buffer.map Prod.fst → rows[e.1]? = some e.2

/-- A trained index has as many centroids and lists as clusters. -/
structure Shaped (ix : IvfIndex) : Prop where
  pos : 0 < ix.config.nlist
  centroids : ix.centroids.length = ix.config.nlist
  centroidNorms : ix.centroidNorms.length = ix.config.nlist
  lists : ix.invertedLists.length = ix.config.nlist

/-- The clusters a thread has chosen exist as long as the layout is the one it looked at. -/
def SealJob.Fits (ix : IvfIndex) (job : SealJob) : Prop :=
  ∀ clusters generation, job.assigned = some (clusters, generation) →
    generation ≤ ix.layoutGeneration ∧
      (ix.trained = true → generation = ix.layoutGeneration → ∀ c ∈ clusters, c < ix.config.nlist)

/-- **The invariant.** -/
structure IvfMachine.Inv (m : IvfMachine) : Prop where
  fresh : Fresh m.ix m.rows
  shaped : m.ix.trained = true → Shaped m.ix
  jobs : ∀ job ∈ m.jobs, job.Fits m.ix

/-- **The condition on a step**: clusters are set before a training, and rows do not change while
    they are pending. -/
def IvfMachine.Regular (m : IvfMachine) : IvfAction → Prop
  | .setNlist _ => m.ix.trained = false
  | .replaceRows rows => Fresh m.ix rows
  | _ => True

/-! ## 3. The pending entries -/

section Pending

variable {ix : IvfIndex} {rows : List Row} {idx : Nat} {vec : Row}

theorem removeFromTier_perm (idx : Nat) (l : List (Nat × Row)) :
    (removeFromTier idx l).Perm (l.filter fun e => e.1 ≠ idx) := by
  fun_induction removeFromTier idx l with
  | case1 => exact List.Perm.refl _
  | case2 e rest hne ih =>
    rw [List.filter_cons_of_pos (by simpa using hne)]
    exact ih.cons e
  | case3 e rest heq hlast =>
    rw [List.getLast?_eq_none_iff.mp hlast, List.filter_cons_of_neg (by simpa using heq)]
    exact List.Perm.refl _
  | case4 e rest heq last hlast ih =>
    rw [List.filter_cons_of_neg (by simpa using heq)]
    refine ih.trans (List.Perm.filter _ ?_)
    have hsplit := List.dropLast_append_getLast? last hlast
    exact (List.perm_append_singleton last rest.dropLast).symm.trans (List.Perm.of_eq hsplit)

theorem mem_removeFromTier {l : List (Nat × Row)} {e : Nat × Row} :
    e ∈ removeFromTier idx l ↔ e ∈ l ∧ e.1 ≠ idx := by
  rw [(removeFromTier_perm idx l).mem_iff, List.mem_filter, decide_eq_true_eq]

theorem nodup_removeFromTier {l : List (Nat × Row)} (h : (l.map Prod.fst).Nodup) :
    ((removeFromTier idx l).map Prod.fst).Nodup :=
  ((removeFromTier_perm idx l).map Prod.fst).nodup_iff.mpr
    (h.sublist (List.filter_sublist.map Prod.fst))

theorem Fresh.removePending (h : Fresh ix rows) (idx : Nat) :
    Fresh (ix.removePending idx) rows where
  bufferNodup := nodup_removeFromTier h.bufferNodup
  sealingNodup := nodup_removeFromTier h.sealingNodup
  buffer e he := h.buffer e (mem_removeFromTier.1 he).1
  sealing e he hout := by
    obtain ⟨hin, hne⟩ := mem_removeFromTier.1 he
    refine h.sealing e hin fun hbuf => hout ?_
    obtain ⟨e', he', heq⟩ := List.mem_map.mp hbuf
    exact List.mem_map.mpr ⟨e', mem_removeFromTier.2 ⟨he', heq ▸ hne⟩, heq⟩

/-- **A vector stored**: what was pending under its index is no longer the newest. -/
theorem Fresh.store (h : Fresh ix rows) {rows' : List Row} (hnew : rows'[idx]? = some vec)
    (hother : ∀ i, i ≠ idx → ∀ row, rows[i]? = some row → rows'[i]? = some row) :
    Fresh (ix.appendToBuffer idx vec) rows' where
  bufferNodup := nodup_keys_assign h.bufferNodup
  sealingNodup := h.sealingNodup
  buffer e he := by
    rcases (mem_assign h.bufferNodup).mp he with rfl | ⟨hin, hne⟩
    · exact hnew
    · exact hother e.1 hne e.2 (h.buffer e hin)
  sealing e he hout := by
    have hout' : e.1 ≠ idx ∧ e.1 ∉ ix.buffer.map Prod.fst := by
      simpa [IvfIndex.appendToBuffer, mem_keys_assign] using hout
    exact hother e.1 hout'.1 e.2 (h.sealing e he hout'.2)

/-- What the buffer is after the entries that are being sealed go back. -/
theorem restoreSealing_buffer {l : List (Nat × Row)} (hl : (l.map Prod.fst).Nodup)
    (buffer : List (Nat × Row)) :
    l.foldl (fun buffer e => if e.1 ∈ buffer.map Prod.fst then buffer else buffer ++ [e]) buffer =
      buffer ++ l.filter fun e => e.1 ∉ buffer.map Prod.fst := by
  induction l generalizing buffer with
  | nil => rw [List.foldl_nil, List.filter_nil, List.append_nil]
  | cons e l ih =>
    rw [List.map_cons, List.nodup_cons] at hl
    rw [List.foldl_cons, ih hl.2]
    split
    · rename_i hin
      rw [List.filter_cons_of_neg (by simpa using hin)]
    · rename_i hout
      rw [List.filter_cons_of_pos (by simpa using hout), List.append_assoc]
      refine congrArg (buffer ++ e :: ·) (List.filter_congr fun x hx => ?_)
      have hne : x.1 ≠ e.1 := fun heq => hl.1 (heq ▸ List.mem_map_of_mem hx)
      simp [hne]

theorem Fresh.restoreSealing (h : Fresh ix rows) : Fresh ix.restoreSealing rows where
  bufferNodup := by
    unfold IvfIndex.restoreSealing
    dsimp only
    rw [restoreSealing_buffer h.sealingNodup, List.map_append]
    refine List.nodup_append.mpr ⟨h.bufferNodup,
      h.sealingNodup.sublist (List.filter_sublist.map Prod.fst), fun i hi j hj heq => ?_⟩
    obtain ⟨e, he, rfl⟩ := List.mem_map.mp hj
    exact of_decide_eq_true (List.mem_filter.mp he).2 (heq ▸ hi)
  sealingNodup := List.nodup_nil
  buffer e he := by
    unfold IvfIndex.restoreSealing at he
    dsimp only at he
    rw [restoreSealing_buffer h.sealingNodup] at he
    cases List.mem_append.mp he with
    | inl hin => exact h.buffer e hin
    | inr hin =>
      obtain ⟨hin, hout⟩ := List.mem_filter.mp hin
      exact h.sealing e hin (of_decide_eq_true hout)
  sealing := nofun

/-- The buffer becomes the sealing tier. -/
theorem Fresh.sealBegin (h : Fresh ix rows) :
    Fresh { ix with sealing := ix.buffer, buffer := [] } rows :=
  ⟨List.nodup_nil, h.bufferNodup, nofun, fun e he _ => h.buffer e he⟩

/-- The entries that were being sealed are in the lists now. -/
theorem Fresh.sealed (h : Fresh ix rows) (lists : List (List Nat)) :
    Fresh { ix with invertedLists := lists, sealing := [] } rows :=
  ⟨h.bufferNodup, List.nodup_nil, h.buffer, nofun⟩

/-- Only the two tiers count. -/
theorem Fresh.congr (h : Fresh ix rows) {ix' : IvfIndex} (hbuffer : ix'.buffer = ix.buffer)
    (hsealing : ix'.sealing = ix.sealing) : Fresh ix' rows :=
  ⟨hbuffer ▸ h.bufferNodup, hsealing ▸ h.sealingNodup, hbuffer ▸ h.buffer,
    hbuffer ▸ hsealing ▸ h.sealing⟩

end Pending

/-! ## 4. The layout -/

section Layout

variable {fl : IvfFloats} {ix ix' : IvfIndex} {job : SealJob}

/-- **A training**: nothing happens, or the index is trained and the tiers are as before. -/
theorem train_cases {rng : IvfRandom} {matrix : List Row} {validIndices : List Nat}
    {dimension : Nat} {assignVectors : Bool} (hvalid : ∀ idx ∈ validIndices, idx < matrix.length)
    (h : ix.train fl rng matrix validIndices dimension assignVectors = some ix') :
    ix' = ix ∨ Shaped ix' ∧ ix.layoutGeneration < ix'.layoutGeneration ∧ ix'.buffer = ix.buffer ∧
      ix'.sealing = ix.sealing := by
  by_cases hidle : ix.trainingInProgress = true
  · rw [IvfIndex.train, if_pos hidle] at h
    exact .inl (Option.some.inj h).symm
  · by_cases hne : validIndices = []
    · rw [IvfIndex.train, if_neg hidle, if_pos hne] at h
      exact .inl (Option.some.inj h).symm
    · have hidle' := Bool.eq_false_of_not_eq_true hidle
      have hle : effectiveNlist ix.config.nlist validIndices.length ≤
          min validIndices.length kMaxTrainingSamples := by
        by_contra hlt
        rw [train_eq_none fl rng hidle' hne (not_le.mp hlt)] at h
        cases h
      obtain ⟨ix'', h'', hwell⟩ : ∃ ix'', ix.train fl rng matrix validIndices dimension
          assignVectors = some ix'' ∧ WellTrained validIndices assignVectors ix'' :=
        train_of_le fl rng hvalid hidle' hne hle
      obtain rfl := Option.some.inj (h.symm.trans h'')
      refine .inr ⟨⟨hwell.one_le, hwell.centroids, hwell.centroidNorms, hwell.lists⟩, ?_⟩
      rw [IvfIndex.train, if_neg hidle, if_neg hne] at h
      obtain ⟨cs, -, h⟩ := Option.bind_eq_some_iff.mp h
      obtain ⟨lists, -, h⟩ := Option.bind_eq_some_iff.mp h
      obtain rfl := Option.some.inj h
      exact ⟨Nat.lt_succ_self _, rfl, rfl⟩

/-- Clusters chosen for an older layout are not used. -/
theorem SealJob.Fits.of_newer (h : job.Fits ix) (hlt : ix.layoutGeneration < ix'.layoutGeneration) :
    job.Fits ix' := by
  intro clusters generation hassigned
  have hle := (h clusters generation hassigned).1
  exact ⟨by omega, fun _ heq => by omega⟩

theorem SealJob.Fits.congr (h : job.Fits ix) (htrained : ix'.trained = true → ix.trained = true)
    (hnlist : ix'.config.nlist = ix.config.nlist)
    (hgeneration : ix'.layoutGeneration = ix.layoutGeneration) : job.Fits ix' := by
  intro clusters generation hassigned
  rw [hgeneration, hnlist]
  obtain ⟨hle, hin⟩ := h clusters generation hassigned
  exact ⟨hle, fun ht => hin (htrained ht)⟩

/-- Only the layout counts. -/
theorem Shaped.congr (h : Shaped ix)
    (heq : (ix'.config.nlist, ix'.centroids, ix'.centroidNorms, ix'.invertedLists) =
      (ix.config.nlist, ix.centroids, ix.centroidNorms, ix.invertedLists)) : Shaped ix' := by
  obtain ⟨hnlist, hcentroids, hnorms, hlists⟩ :
      ix'.config.nlist = ix.config.nlist ∧ ix'.centroids = ix.centroids ∧
        ix'.centroidNorms = ix.centroidNorms ∧ ix'.invertedLists = ix.invertedLists := by
    simpa only [Prod.mk.injEq] using heq
  constructor
  · rw [hnlist]
    exact h.pos
  · rw [hcentroids, hnlist]
    exact h.centroids
  · rw [hnorms, hnlist]
    exact h.centroidNorms
  · rw [hlists, hnlist]
    exact h.lists

theorem Shaped.setLists (h : Shaped ix) {lists : List (List Nat)}
    (hlen : lists.length = ix.config.nlist) : Shaped { ix with invertedLists := lists } :=
  ⟨h.pos, h.centroids, h.centroidNorms, hlen⟩

/-- **The first phase of a seal.** -/
theorem sealBegin_cases (ix : IvfIndex) : ix.sealBegin = (ix, none) ∨
    ix.sealBegin = ({ ix with sealing := ix.buffer, buffer := [] },
      some { entries := ix.buffer }) := by
  unfold IvfIndex.sealBegin
  split
  · exact .inl rfl
  · exact .inr rfl

/-- **The second phase of a seal.** -/
theorem sealAssign_cases (hshaped : ix.trained = true → Shaped ix) {next : Option SealJob}
    (h : ix.sealAssign fl job = some (ix', next)) :
    ix' = ix.restoreSealing ∧ next = none ∨ ix' = ix ∧ ∀ job' ∈ next, job'.Fits ix := by
  unfold IvfIndex.sealAssign at h
  split at h
  · cases h
    exact .inl ⟨rfl, rfl⟩
  · rename_i htrained
    have hs := hshaped (not_not.mp htrained)
    obtain ⟨clusters, hclusters, h⟩ := Option.bind_eq_some_iff.mp h
    cases h
    refine .inr ⟨rfl, fun job' hjob clusters' generation hassigned => ?_⟩
    obtain rfl := Option.some.inj hjob
    cases hassigned
    have htotal : ∀ e ∈ job.entries, ∃ c, (do
        let best ← findBest fl ix.config.metric ix.centroids ix.centroidNorms ix.config.nlist e.2
        clusterOf ix.config.nlist e.1 best) = some c ∧ c < ix.config.nlist := by
      intro e _
      obtain ⟨best, hbest, hlt⟩ :=
        findBest_total fl ix.config.metric hs.centroids hs.centroidNorms hs.pos e.2
      obtain ⟨c, hc, hin⟩ := clusterOf_total hlt e.1
      exact ⟨c, by rw [hbest]; exact hc, hin⟩
    obtain ⟨clusters', hclusters', -, hin⟩ := mapM_total htotal
    obtain rfl := Option.some.inj (hclusters.symm.trans hclusters')
    exact ⟨Nat.le_refl _, fun _ _ => hin⟩

/-- **The third phase of a seal.** -/
theorem sealCommit_cases {entries : List (Nat × Row)} {clusters : List Nat} {generation : Nat}
    (h : ix.sealCommit entries clusters generation = some ix') :
    ix' = ix.restoreSealing ∨ ∃ lists : List (List Nat),
      lists.length = ix.invertedLists.length ∧
        ix' = { ix with invertedLists := lists, sealing := [] } := by
  unfold IvfIndex.sealCommit at h
  split at h
  · cases h
    exact .inl rfl
  · obtain ⟨lists, hrun, h⟩ := Option.bind_eq_some_iff.mp h
    cases h
    refine .inr ⟨lists, ?_, rfl⟩
    have hstep : ∀ (ls : List (List Nat)) (e : (Nat × Row) × Nat) (ls' : List (List Nat)),
        ls.length = ix.invertedLists.length → commitEntry ix.sealing ls e = some ls' →
          ls'.length = ix.invertedLists.length := by
      intro ls e ls' hlen hcommit
      unfold commitEntry at hcommit
      split at hcommit
      · obtain ⟨list, -, hcommit⟩ := Option.bind_eq_some_iff.mp hcommit
        cases hcommit
        rw [List.length_set, hlen]
      · cases hcommit
        exact hlen
    exact run_inv hstep rfl hrun

end Layout

/-! ## 5. The runs -/

namespace IvfMachine

variable {fl : IvfFloats} {m m' : IvfMachine}

/-- A step that keeps the tiers, the layout and the threads. -/
theorem Inv.setIndex (h : m.Inv) {ix : IvfIndex} (hbuffer : ix.buffer = m.ix.buffer)
    (hsealing : ix.sealing = m.ix.sealing) (hshaped : ix.trained = true → Shaped ix)
    (hjobs : ∀ job ∈ m.jobs, job.Fits ix) : (m.setIndex ix).Inv :=
  ⟨h.fresh.congr hbuffer hsealing, hshaped, hjobs⟩

theorem inv_start (config : IvfConfig) (dimension : Nat) : (start config dimension).Inv where
  fresh := ⟨List.nodup_nil, List.nodup_nil, nofun, nofun⟩
  shaped := nofun
  jobs := nofun

/-- **A vector stored.** -/
theorem Inv.store (h : m.Inv) {idx : Nat} {vec : Row} (hle : idx ≤ m.rows.length) :
    Inv { m with
      rows := if idx < m.rows.length then m.rows.set idx vec else m.rows ++ [vec]
      ix := m.ix.appendToBuffer idx vec } where
  fresh := by
    refine h.fresh.store ?_ fun i hi row hrow => ?_
    · split
      · exact List.getElem?_set_self ‹_›
      · have hlast : idx = m.rows.length := by omega
        rw [hlast, List.getElem?_concat_length]
    · have hlt : i < m.rows.length := (List.getElem?_eq_some_iff.mp hrow).1
      split
      · rw [List.getElem?_set_ne (Ne.symm hi), hrow]
      · rw [List.getElem?_append_left hlt, hrow]
  shaped ht := (h.shaped ht).congr rfl
  jobs job hjob := (h.jobs job hjob).congr id rfl rfl

/-- **A step that meets the condition keeps the invariant.** -/
theorem inv_step (m : IvfMachine) (a : IvfAction) (m' : IvfMachine) (h : m.Inv) (hr : m.Regular a)
    (hstep : m.step fl a = some m') : m'.Inv := by
  cases a with
  | store idx vec =>
    simp only [step] at hstep
    split at hstep
    · cases hstep
    · cases hstep
      exact h.store (by omega)
  | replaceRows rows =>
    cases hstep
    exact ⟨hr, h.shaped, h.jobs⟩
  | removePending idx =>
    cases hstep
    exact ⟨h.fresh.removePending idx, fun ht => (h.shaped ht).congr rfl, fun job hjob =>
        (h.jobs job hjob).congr id rfl rfl⟩
  | removeListed idx =>
    cases hstep
    unfold IvfIndex.removeListed
    split
    · exact h
    · rename_i ht
      refine h.setIndex rfl rfl (fun _ => ?_) fun job hjob => (h.jobs job hjob).congr id rfl rfl
      have hs := h.shaped (not_not.mp ht)
      exact hs.setLists (by rw [List.length_map, hs.lists])
  | train rng matrix validIndices assignVectors =>
    simp only [step] at hstep
    split at hstep
    · rename_i hvalid
      obtain ⟨ix, htrain, rfl⟩ := Option.map_eq_some_iff.mp hstep
      have hvalid' : ∀ idx ∈ validIndices, idx < matrix.length := by simpa using hvalid
      rcases train_cases hvalid' htrain with rfl | ⟨hshaped, hlt, hbuffer, hsealing⟩
      · exact h
      · exact h.setIndex hbuffer hsealing (fun _ => hshaped) fun job hjob =>
          (h.jobs job hjob).of_newer hlt
    · cases hstep
  | addVector idx vec =>
    obtain ⟨ix, hadd, rfl⟩ := Option.map_eq_some_iff.mp hstep
    unfold IvfIndex.addVector at hadd
    split at hadd
    · cases hadd
      exact h
    · rename_i ht
      obtain ⟨best, -, hadd⟩ := Option.bind_eq_some_iff.mp hadd
      obtain ⟨list, -, hadd⟩ := Option.bind_eq_some_iff.mp hadd
      cases hadd
      refine h.setIndex rfl rfl (fun _ => ?_) fun job hjob => (h.jobs job hjob).congr id rfl rfl
      have hs := h.shaped (not_not.mp ht)
      exact hs.setLists (by rw [List.length_set, hs.lists])
  | bulkAddVectors entries =>
    obtain ⟨ix, hadd, rfl⟩ := Option.map_eq_some_iff.mp hstep
    unfold IvfIndex.bulkAddVectors at hadd
    split at hadd
    · cases hadd
      exact h
    · rename_i ht
      have hs := h.shaped (not_not.mp ht)
      obtain ⟨lists, hrun, hlen, -⟩ := assignVectors_total fl m.ix.config.metric hs.centroids
        hs.centroidNorms hs.pos hs.lists entries
      rw [hrun] at hadd
      cases hadd
      exact h.setIndex rfl rfl (fun _ => hs.setLists hlen) fun job hjob =>
        (h.jobs job hjob).congr id rfl rfl
  | sealBegin =>
    simp only [step] at hstep
    rcases sealBegin_cases m.ix with heq | heq
    · rw [heq] at hstep
      cases hstep
      exact ⟨h.fresh, h.shaped, fun job hjob => h.jobs job (by simpa using hjob)⟩
    · rw [heq] at hstep
      cases hstep
      refine ⟨h.fresh.sealBegin, fun ht => (h.shaped ht).congr rfl, fun job hjob => ?_⟩
      rcases List.mem_append.mp hjob with hold | hnew
      · exact (h.jobs job hold).congr id rfl rfl
      · -- it has not chosen any clusters yet
        obtain rfl : job = { entries := m.ix.buffer } := by simpa using hnew
        exact nofun
  | sealAssign i =>
    simp only [step] at hstep
    obtain ⟨job, hjob, hstep⟩ := Option.bind_eq_some_iff.mp hstep
    split at hstep
    · cases hstep
    · obtain ⟨⟨ix, next⟩, hassign, hstep⟩ := Option.bind_eq_some_iff.mp hstep
      cases hstep
      have hrest : ∀ job ∈ m.jobs.eraseIdx i, job.Fits m.ix :=
        fun job hjob => h.jobs job (List.mem_of_mem_eraseIdx hjob)
      rcases sealAssign_cases h.shaped hassign with ⟨rfl, rfl⟩ | ⟨rfl, hnext⟩
      · refine ⟨h.fresh.restoreSealing, fun ht => (h.shaped ht).congr rfl, fun job hjob => ?_⟩
        exact (hrest job (by simpa using hjob)).congr id rfl rfl
      · refine ⟨h.fresh, h.shaped, fun job hjob => ?_⟩
        exact (List.mem_append.mp hjob).elim (hrest job) fun hnew =>
          hnext job (Option.mem_toList.mp hnew)
  | sealCommit i =>
    simp only [step] at hstep
    obtain ⟨job, hjob, hstep⟩ := Option.bind_eq_some_iff.mp hstep
    obtain ⟨⟨clusters, generation⟩, -, hstep⟩ := Option.bind_eq_some_iff.mp hstep
    obtain ⟨ix, hcommit, hstep⟩ := Option.bind_eq_some_iff.mp hstep
    cases hstep
    have hrest : ∀ job ∈ m.jobs.eraseIdx i, job.Fits m.ix :=
      fun job hjob => h.jobs job (List.mem_of_mem_eraseIdx hjob)
    rcases sealCommit_cases hcommit with rfl | ⟨lists, hlen, rfl⟩
    · exact ⟨h.fresh.restoreSealing, fun ht => (h.shaped ht).congr rfl, fun job hjob =>
          (hrest job hjob).congr id rfl rfl⟩
    · exact ⟨h.fresh.sealed lists, fun ht => ⟨(h.shaped ht).pos, (h.shaped ht).centroids,
        (h.shaped ht).centroidNorms, hlen.trans (h.shaped ht).lists⟩, fun job hjob =>
          (hrest job hjob).congr id rfl rfl⟩
  | resetTrained =>
    cases hstep
    exact h.setIndex rfl rfl nofun fun job hjob =>
      (h.jobs job hjob).of_newer (Nat.lt_succ_self _)
  | setNlist nlist =>
    cases hstep
    have hr : m.ix.trained = false := hr
    refine h.setIndex rfl rfl (fun ht => ?_) fun job hjob =>
      (h.jobs job hjob).of_newer (Nat.lt_succ_self _)
    rw [show (m.ix.setNlist nlist).trained = m.ix.trained from rfl, hr] at ht
    cases ht
  | setNprobe nprobe =>
    cases hstep
    exact h.setIndex rfl rfl (fun ht => (h.shaped ht).congr rfl) fun job hjob =>
        (h.jobs job hjob).congr id rfl rfl

theorem inv_run {config : IvfConfig} {dimension : Nat} {actions : List IvfAction}
    (hm : Meets (step fl) Regular (start config dimension) actions)
    (h : run (step fl) (start config dimension) actions = some m) : m.Inv :=
  run_inv_of_meets inv_step (inv_start config dimension) hm h

end IvfMachine

end Nvecd.Vectors
