/-
  File:      Nvecd/Events/Streaming.lean
  Subject:   Scores that are kept event by event are the scores of the whole list.

  In exact arithmetic (`ExactFloats`) an entry of the matrix is the sum of what was added to it,
  and it is there if something other than zero was. So a matrix is known by the contributions to
  each pair, as a multiset: those of a stream are the pairs no further apart than the buffer is
  long, those of a batch are all pairs of the list.

  * `contribution` -- what two events add to a pair; `entry_addPairs` -- the entries after;
  * `windowContributions`, `windowScore` -- the pairs of a stream;
  * `batchContributions_eq` -- a list no longer than the buffer has them all;
  * `InTime`, `Remembers` -- no event comes in a context after its eviction, and what the contexts
    then hold;
  * `ingestAll` -- calls of `AddEventAndGetPrior`, each followed by `ApplyIngestedEvent`;
  * `streaming_equals_batch`.
-/
import Mathlib.Algebra.BigOperators.Intervals
import Mathlib.Algebra.BigOperators.Group.Multiset.Basic
import Mathlib.Data.List.GetD
import Nvecd.Events.CoMatrix
import Nvecd.Events.History

namespace Nvecd.Events

open Nvecd.Lib Nvecd.Storage SparseMatrix

/-! ## 1. Exact arithmetic -/

/-- The operations are those of an exact arithmetic. -/
class ExactFloats (F : Type) [FloatOps F] [AddCommMonoid F] : Prop where
  zero_eq : (FloatOps.zero : F) = 0
  add_eq : ∀ x y : F, FloatOps.add x y = x + y
  mul_comm : ∀ x y : F, FloatOps.mul x y = FloatOps.mul y x
  beq_iff : ∀ x y : F, FloatOps.beq x y = true ↔ x = y

section Plus

variable {F : Type} [AddCommMonoid F] [DecidableEq F]

/-- What contributions leave of an entry. -/
def plus (o : Option F) (s : Multiset F) : Option F :=
  if s = 0 then o else some (o.getD 0 + s.sum)

@[simp] theorem plus_zero (o : Option F) : plus o 0 = o := if_pos rfl

theorem plus_plus (o : Option F) (s t : Multiset F) : plus (plus o s) t = plus o (s + t) := by
  unfold plus
  by_cases hs : s = 0
  · simp [hs]
  · by_cases ht : t = 0
    · simp [hs, ht]
    · have hst : s + t ≠ 0 := fun h =>
        hs (Multiset.le_zero.mp (h ▸ Multiset.le_add_right s t))
      simp [hs, ht, hst, add_assoc]

theorem getD_plus_none (s : Multiset F) : (plus none s).getD 0 = s.sum := by
  unfold plus
  split
  · rename_i h
    simp [h]
  · simp

end Plus

section Exact

variable {F : Type} [FloatOps F] [AddCommMonoid F] (temporalEnabled : Bool) (halfLifeSec : UInt64)

theorem pairScore_comm [ExactFloats F] (event1 event2 : Event) :
    (pairScore temporalEnabled halfLifeSec event1 event2 : F) =
      pairScore temporalEnabled halfLifeSec event2 event1 := by
  simp only [pairScore, Int.mul_comm event1.score, max_comm event1.timestamp.toNat,
    ExactFloats.mul_comm (FloatOps.decayFor halfLifeSec
      (max event2.timestamp.toNat event1.timestamp.toNat - event1.timestamp.toNat) : F)]

variable [DecidableEq F]

/-- What two events add to the pair `(a, b)`. -/
def contribution (a b : Bytes) (event1 event2 : Event) : Multiset F :=
  let score : F := pairScore temporalEnabled halfLifeSec event1 event2
  if (event1.itemId = a ∧ event2.itemId = b ∨ event1.itemId = b ∧ event2.itemId = a) ∧ score ≠ 0
  then {score} else 0

variable [ExactFloats F] {temporalEnabled halfLifeSec} {m : CoScores F} {a b : Bytes}

theorem contribution_comm (a b : Bytes) (event1 event2 : Event) :
    (contribution temporalEnabled halfLifeSec a b event1 event2 : Multiset F) =
      contribution temporalEnabled halfLifeSec a b event2 event1 := by
  have hiff : (event1.itemId = a ∧ event2.itemId = b ∨ event1.itemId = b ∧ event2.itemId = a) ↔
      (event2.itemId = a ∧ event1.itemId = b ∨ event2.itemId = b ∧ event1.itemId = a) := by
    tauto
  simp only [contribution, pairScore_comm _ _ event1 event2, hiff]

/-- **One pair of events.** -/
theorem entry_addPair (h : SymmetricMatrix m) (hab : a ≠ b) (event1 event2 : Event) :
    entry (addPair temporalEnabled halfLifeSec event1 event2 m) a b =
      plus (entry m a b) (contribution temporalEnabled halfLifeSec a b event1 event2) := by
  unfold addPair contribution
  by_cases hid : event1.itemId = event2.itemId
  · have hno : ¬ (event1.itemId = a ∧ event2.itemId = b ∨
        event1.itemId = b ∧ event2.itemId = a) := by
      rintro (⟨h1, h2⟩ | ⟨h1, h2⟩)
      · exact hab (h1.symm.trans (hid.trans h2))
      · exact hab (h2.symm.trans (hid.symm.trans h1))
    simp only [if_pos hid, if_neg (fun hc => hno (And.left hc)), plus_zero]
  · simp only [if_neg hid]
    by_cases hzero : (pairScore temporalEnabled halfLifeSec event1 event2 : F) = 0
    · have hbeq : FloatOps.beq (pairScore temporalEnabled halfLifeSec event1 event2 : F)
          FloatOps.zero = true := (ExactFloats.beq_iff _ _).mpr (hzero.trans
            (ExactFloats.zero_eq).symm)
      simp only [if_pos hbeq, if_neg (fun hc => absurd hzero (And.right hc)), plus_zero]
    · have hbeq : ¬ FloatOps.beq (pairScore temporalEnabled halfLifeSec event1 event2 : F)
          FloatOps.zero = true := fun hb => hzero (((ExactFloats.beq_iff _ _).mp hb).trans
            ExactFloats.zero_eq)
      rw [if_neg hbeq, entry_updatePair _ hid (h.symm _ _)]
      have hiff : (a = event1.itemId ∧ b = event2.itemId ∨
          a = event2.itemId ∧ b = event1.itemId) ↔
          (event1.itemId = a ∧ event2.itemId = b ∨
            event1.itemId = b ∧ event2.itemId = a) := by
        constructor <;> rintro (⟨h1, h2⟩ | ⟨h1, h2⟩) <;> simp [h1, h2]
      by_cases hpair : event1.itemId = a ∧ event2.itemId = b ∨
          event1.itemId = b ∧ event2.itemId = a
      · have hsame : entry m event1.itemId event2.itemId = entry m a b := by
          rcases hpair with ⟨h1, h2⟩ | ⟨h1, h2⟩
          · rw [h1, h2]
          · rw [h1, h2, h.symm]
        rw [if_pos (hiff.mpr hpair), if_pos ⟨hpair, hzero⟩, hsame]
        simp [plus, ExactFloats.add_eq, ExactFloats.zero_eq]
      · rw [if_neg (fun hc => hpair (hiff.mp hc)), if_neg (fun hc => hpair hc.1), plus_zero]

/-- One event with a list of others. -/
theorem entry_addPairs (h : SymmetricMatrix m) (hab : a ≠ b) (event1 : Event)
    (events : List Event) :
    entry (events.foldl
      (fun m event2 => addPair temporalEnabled halfLifeSec event1 event2 m) m) a b =
      plus (entry m a b)
        (events.map (contribution temporalEnabled halfLifeSec a b event1)).sum := by
  induction events generalizing m with
  | nil => simp
  | cons event2 events ih =>
    have hkeep : Keeps False [] (addPair temporalEnabled halfLifeSec event1 event2 m) := by
      have hm : Keeps False (pairContribution F temporalEnabled halfLifeSec event1 event2) m :=
        ⟨h, False.elim⟩
      exact ⟨(hm.addPair fun _ hp => hp).symmetric, False.elim⟩
    rw [List.foldl_cons, ih hkeep.symmetric, entry_addPair h hab, plus_plus, List.map_cons,
      List.sum_cons]

/-! ## 2. Streams and batches -/

variable (temporalEnabled halfLifeSec)

/-- What the pairs `i < j` of a list with `j - i ≤ cap` add to `(a, b)`. -/
def windowContributions (cap : Nat) (a b : Bytes) (events : List Event) : Multiset F :=
  ∑ j ∈ Finset.range events.length, ∑ i ∈ (Finset.range j).filter (fun i => j - i ≤ cap),
    contribution temporalEnabled halfLifeSec a b (events.getD i default) (events.getD j default)

/-- **The score of a stream**: the weights of these pairs, summed up. -/
def windowScore (cap : Nat) (a b : Bytes) (events : List Event) : F :=
  ∑ j ∈ Finset.range events.length, ∑ i ∈ (Finset.range j).filter (fun i => j - i ≤ cap),
    let event1 := events.getD i default
    let event2 := events.getD j default
    if event1.itemId = a ∧ event2.itemId = b ∨ event1.itemId = b ∧ event2.itemId = a then
      pairScore temporalEnabled halfLifeSec event1 event2
    else 0

/-- What the double loop of a batch adds to `(a, b)`. -/
def batchContributions (a b : Bytes) : List Event → Multiset F
  | [] => 0
  | event1 :: rest =>
    (rest.map (contribution temporalEnabled halfLifeSec a b event1)).sum +
      batchContributions a b rest

variable {temporalEnabled halfLifeSec}

omit [FloatOps F] [DecidableEq F] [ExactFloats F] in
theorem sum_finsetSum {ι : Type} (s : Finset ι) (f : ι → Multiset F) :
    (∑ i ∈ s, f i).sum = ∑ i ∈ s, (f i).sum :=
  map_sum Multiset.sumAddMonoidHom f s

omit [ExactFloats F] in
/-- The sum of the contributions is the score: zeros do not matter. -/
theorem sum_windowContributions (cap : Nat) (a b : Bytes) (events : List Event) :
    (windowContributions temporalEnabled halfLifeSec cap a b events : Multiset F).sum =
      windowScore temporalEnabled halfLifeSec cap a b events := by
  unfold windowContributions windowScore
  rw [sum_finsetSum]
  refine Finset.sum_congr rfl fun j _ => ?_
  rw [sum_finsetSum]
  refine Finset.sum_congr rfl fun i _ => ?_
  unfold contribution
  simp only
  split
  · rename_i h
    rw [if_pos h.1, Multiset.sum_singleton]
  · rename_i h
    split
    · rename_i hpair
      rw [Multiset.sum_zero]
      by_contra hne
      exact h ⟨hpair, Ne.symm hne⟩
    · exact Multiset.sum_zero

/-- A sum over a list, by the places. -/
theorem sum_map_eq_sum_range {M : Type} [AddCommMonoid M] (l : List Event) (g : Event → M) :
    (l.map g).sum = ∑ k ∈ Finset.range l.length, g (l.getD k default) := by
  induction l with
  | nil => simp
  | cons e l ih =>
    rw [List.map_cons, List.sum_cons, List.length_cons, Finset.sum_range_succ', ih, add_comm]
    simp

/-- **One more event** is paired with the last `cap` before it. -/
theorem windowContributions_append (cap : Nat) (a b : Bytes) (events : List Event)
    (event : Event) :
    (windowContributions temporalEnabled halfLifeSec cap a b (events ++ [event]) : Multiset F) =
      windowContributions temporalEnabled halfLifeSec cap a b events +
        ((events.rtake cap).map (contribution temporalEnabled halfLifeSec a b event)).sum := by
  have hold : ∀ k, k < events.length → (events ++ [event]).getD k default =
      events.getD k default := by
    intro k hk
    rw [List.getD_append _ _ _ _ hk]
  have hnew : (events ++ [event]).getD events.length default = event := by
    rw [List.getD_append_right _ _ _ _ (Nat.le_refl _)]
    simp
  unfold windowContributions
  rw [List.length_append, List.length_singleton, Finset.sum_range_succ]
  congr 1
  · refine Finset.sum_congr rfl fun j hj => ?_
    refine Finset.sum_congr rfl fun i hi => ?_
    have hj' := Finset.mem_range.mp hj
    have hi' := Finset.mem_range.mp (Finset.mem_filter.mp hi).1
    rw [hold j hj', hold i (by omega)]
  · have hwindow : (Finset.range events.length).filter (fun i => events.length - i ≤ cap) =
        Finset.Ico (events.length - cap) events.length := by
      ext i
      simp only [Finset.mem_filter, Finset.mem_range, Finset.mem_Ico]
      omega
    rw [hwindow, Finset.sum_Ico_eq_sum_range, sum_map_eq_sum_range, List.rtake, List.length_drop]
    refine Finset.sum_congr rfl fun k hk => ?_
    have hk' := Finset.mem_range.mp hk
    have hget : (events.drop (events.length - cap)).getD k default =
        events.getD (events.length - cap + k) default := by
      simp only [List.getD_eq_getElem?_getD, List.getElem?_drop]
    rw [hnew, hold _ (by omega), hget, contribution_comm]

/-- The same for a batch: the new event is paired with all before it. -/
theorem batchContributions_append (a b : Bytes) (events : List Event) (event : Event) :
    (batchContributions temporalEnabled halfLifeSec a b (events ++ [event]) : Multiset F) =
      batchContributions temporalEnabled halfLifeSec a b events +
        (events.map (contribution temporalEnabled halfLifeSec a b event)).sum := by
  induction events with
  | nil => simp [batchContributions]
  | cons e events ih =>
    simp only [List.cons_append, batchContributions, ih, List.map_append, List.map_cons,
      List.map_nil, List.sum_append, List.sum_cons, List.sum_nil, add_zero,
      contribution_comm a b e event]
    ac_rfl

/-- **A list no longer than the buffer** has all its pairs in the window. -/
theorem batchContributions_eq {cap : Nat} (a b : Bytes) {events : List Event}
    (hlen : events.length ≤ cap) :
    (batchContributions temporalEnabled halfLifeSec a b events : Multiset F) =
      windowContributions temporalEnabled halfLifeSec cap a b events := by
  induction events using List.reverseRecOn with
  | nil => rfl
  | append_singleton events event ih =>
    rw [List.length_append, List.length_singleton] at hlen
    rw [batchContributions_append, windowContributions_append, ih (by omega), List.rtake,
      Nat.sub_eq_zero_of_le (by omega : events.length ≤ cap), List.drop_zero]

theorem entry_addAllPairs (h : SymmetricMatrix m) (hab : a ≠ b) (events : List Event) :
    entry (CoOccurrenceIndex.addAllPairs temporalEnabled halfLifeSec events m) a b =
      plus (entry m a b) (batchContributions temporalEnabled halfLifeSec a b events) := by
  induction events generalizing m with
  | nil => simp [CoOccurrenceIndex.addAllPairs, batchContributions]
  | cons event1 rest ih =>
    have hm : Keeps False (rest.flatMap (pairContribution F temporalEnabled halfLifeSec event1)) m :=
      ⟨h, False.elim⟩
    rw [addAllPairs_cons, ih (hm.addPairs fun _ hp => hp).symmetric, entry_addPairs h hab,
      plus_plus, batchContributions]

/-! ## 3. Contexts that come back -/

/-- The contexts that have had events since the last event of `ctx`. -/
def othersSince (ctx : Bytes) (stored : List (Bytes × Event)) : Finset Bytes :=
  ((stored.drop (lastWritten ctx stored)).map Prod.fst).toFinset

/-- **No event comes in a context after its eviction**: since the last event of the context before
    it, fewer than `max_contexts` other contexts have had events. -/
def InTime (cfg : EventsConfig) (stored : List (Bytes × Event)) : Prop :=
  ∀ i < stored.length, ∀ e ∈ stored[i]?, e.1 ∈ (stored.take i).map Prod.fst →
    cfg.maxContexts = 0 ∨ (othersSince e.1 (stored.take i)).card < cfg.maxContexts

instance (cfg : EventsConfig) (stored : List (Bytes × Event)) : Decidable (InTime cfg stored) :=
  inferInstanceAs (Decidable (∀ i < stored.length, _))

section Return

variable {cfg : EventsConfig} {stored : List (Bytes × Event)} {c : Contexts} {ctx ctx' : Bytes}
  {event : Event}

theorem InTime.of_append {more : List (Bytes × Event)} (h : InTime cfg (stored ++ more)) :
    InTime cfg stored := by
  intro i hi e he
  have hlast := h i (Nat.lt_of_lt_of_le hi (by simp)) e (by rwa [List.getElem?_append_left hi])
  rwa [List.take_append_of_le_length (Nat.le_of_lt hi)] at hlast

/-- The last event, behind the others. -/
theorem InTime.last (h : InTime cfg (stored ++ [(ctx, event)])) (hmem : ctx ∈ stored.map Prod.fst) :
    cfg.maxContexts = 0 ∨ (othersSince ctx stored).card < cfg.maxContexts := by
  have hlast := h stored.length (by simp) (ctx, event) (by simp)
  rw [List.take_left' rfl] at hlast
  exact hlast hmem

theorem othersSince_snoc_of_ne (h : ctx' ≠ ctx) :
    othersSince ctx' (stored ++ [(ctx, event)]) = insert ctx (othersSince ctx' stored) := by
  unfold othersSince
  rw [lastWritten_snoc_of_ne h, List.drop_append_of_le_length (lastWritten_le ctx' stored),
    List.map_append, List.toFinset_append]
  ext other
  simp

/-- Those are the contexts with a later last event. -/
theorem mem_othersSince {other : Bytes} :
    other ∈ othersSince ctx stored ↔ lastWritten ctx stored < lastWritten other stored := by
  induction stored using List.reverseRecOn with
  | nil => simp [othersSince, lastWritten]
  | append_singleton stored e ih =>
    obtain ⟨owner, event⟩ := e
    have hle := lastWritten_le ctx stored
    by_cases hc : ctx = owner
    · subst hc
      have hempty : othersSince ctx (stored ++ [(ctx, event)]) = ∅ := by
        unfold othersSince
        rw [lastWritten_snoc_self, List.drop_eq_nil_of_le (by simp)]
        rfl
      have hother := lastWritten_le other (stored ++ [(ctx, event)])
      rw [List.length_append, List.length_singleton] at hother
      rw [hempty, lastWritten_snoc_self]
      simp only [Finset.notMem_empty, false_iff]
      omega
    · rw [othersSince_snoc_of_ne hc, Finset.mem_insert, ih, lastWritten_snoc_of_ne hc]
      by_cases ho : other = owner
      · subst ho
        rw [lastWritten_snoc_self]
        exact iff_of_true (.inl rfl) (by omega)
      · rw [lastWritten_snoc_of_ne ho]
        exact or_iff_right ho

/-- **What the contexts hold** of the events given to them: a context that is held all its own, if
    none has come back after its eviction; and one that is gone has been followed by as many others
    as there is room for. -/
structure Remembers (cfg : EventsConfig) (stored : List (Bytes × Event)) (c : Contexts) : Prop where
  record : ∃ r : Record, r.written = stored ∧ Tracks cfg c r ∧
    (InTime cfg stored → ∀ ctx ∈ c.ctxEvents.keys, r.since ctx = eventsIn ctx stored)
  gone : ∀ ctx ∈ stored.map Prod.fst, ctx ∉ c.ctxEvents.keys →
    0 < cfg.maxContexts ∧ cfg.maxContexts ≤ (othersSince ctx stored).card

theorem Remembers.empty (cfg : EventsConfig) : Remembers cfg [] {} where
  record := ⟨{}, rfl, .empty cfg, fun _ _ _ => rfl⟩
  gone := nofun

theorem eventsIn_eq_nil (h : ctx ∉ stored.map Prod.fst) : eventsIn ctx stored = [] := by
  rw [eventsIn, List.map_eq_nil_iff, List.filter_eq_nil_iff]
  intro e he hctx
  exact h (List.mem_map.mpr ⟨e, he, by simpa using hctx⟩)

/-- A context that comes in time and is not held has had no events. -/
theorem Remembers.eventsIn_of_not_held (h : Remembers cfg stored c)
    (htime : InTime cfg (stored ++ [(ctx, event)])) (hnew : ctx ∉ c.ctxEvents.keys) :
    eventsIn ctx stored = [] := by
  refine eventsIn_eq_nil fun hmem => ?_
  obtain ⟨hpos, hgone⟩ := h.gone ctx hmem hnew
  have hless := htime.last hmem
  omega

/-- **The event goes to its context**, which returns what it held. -/
theorem Remembers.pushEvent (h : Remembers cfg stored c) (ctx : Bytes) (event : Event) :
    Remembers cfg (stored ++ [(ctx, event)]) (c.pushEvent cfg ctx event).1 ∧
      (InTime cfg (stored ++ [(ctx, event)]) →
        (c.pushEvent cfg ctx event).2 = (eventsIn ctx stored).rtake cfg.ctxBufferSize) := by
  obtain ⟨r, rfl, htracks, hsince⟩ := h.record
  -- what the buffer of the event held
  have hheld : InTime cfg (r.written ++ [(ctx, event)]) →
      (if c.ctxEvents.contains ctx then r.since ctx else []) = eventsIn ctx r.written := by
    intro htime
    split
    · rename_i hin
      exact hsince htime.of_append ctx (AssocMap.contains_iff.1 hin)
    · rename_i hout
      exact (h.eventsIn_of_not_held htime fun hin => hout (AssocMap.contains_iff.2 hin)).symm
  refine ⟨⟨⟨_, rfl, htracks.pushEvent ctx event, fun htime ctx' hctx' => ?_⟩,
    fun ctx' hmem hout => ?_⟩, fun htime => ?_⟩
  · show _ = eventsIn ctx' (r.written ++ [(ctx, event)])
    rw [eventsIn_append, eventsIn_singleton]
    by_cases hctx : ctx' = ctx
    · subst hctx
      rw [Record.since_stored_self htracks.created, if_pos rfl, hheld htime]
    · rw [Record.since_stored_of_ne htracks.created hctx, if_neg (Ne.symm hctx), List.append_nil]
      rw [Contexts.mem_keys_pushEvent] at hctx'
      obtain ⟨b, hb⟩ := AssocMap.mem_keys.1 (hctx'.resolve_left hctx)
      exact hsince htime.of_append ctx' (AssocMap.mem_keys.2 ⟨b, find?_ctxEvents_admitted hb⟩)
  · have hne : ctx' ≠ ctx := by
      rintro rfl
      exact hout ((Contexts.mem_keys_pushEvent ctx').2 (.inl rfl))
    rw [othersSince_snoc_of_ne hne]
    by_cases hin : ctx' ∈ c.ctxEvents.keys
    · -- it is evicted now: all the others have been written since, and this one is new
      obtain ⟨hnew, hpos, hsize, hlater⟩ := htracks.victim hin hout
      refine ⟨hpos, ?_⟩
      have hsub : insert ctx (c.ctxEvents.keys.toFinset.erase ctx') ⊆
          insert ctx (othersSince ctx' r.written) := by
        refine Finset.insert_subset_insert _ fun other hother => ?_
        rw [Finset.mem_erase, List.mem_toFinset] at hother
        exact mem_othersSince.2 (hlater other hother.2 hother.1)
      have hcard : (c.ctxEvents.keys.toFinset).card = cfg.maxContexts := by
        have hnodup : c.ctxEvents.keys.Nodup := c.ctxEvents.nodupKeys
        rw [List.toFinset_card_of_nodup hnodup, AssocMap.length_keys, hsize]
      refine Nat.le_trans (Nat.le_of_eq ?_) (Finset.card_le_card hsub)
      rw [Finset.card_insert_of_notMem fun hmem => hnew (by simpa using (Finset.mem_erase.mp hmem).2),
        Finset.card_erase_of_mem (List.mem_toFinset.mpr hin), hcard]
      omega
    · have hold : ctx' ∈ r.written.map Prod.fst := by
        rw [List.map_append, List.mem_append] at hmem
        exact hmem.resolve_right fun hlast => hne (List.mem_singleton.mp hlast)
      obtain ⟨hpos, hle⟩ := h.gone ctx' hold hin
      exact ⟨hpos, hle.trans (Finset.card_le_card (Finset.subset_insert _ _))⟩
  · rw [Contexts.pushEvent_snd, (htracks.bufferOf ctx).getAll_eq, hheld htime]

end Return

/-! ## 4. Ingestion -/

variable (temporalEnabled halfLifeSec)

/-- The contributions of all contexts. -/
def streamContributions (cap : Nat) (a b : Bytes) (stored : List (Bytes × Event)) : Multiset F :=
  ∑ ctx ∈ (stored.map Prod.fst).toFinset,
    windowContributions temporalEnabled halfLifeSec cap a b (eventsIn ctx stored)

variable {temporalEnabled halfLifeSec}

theorem streamContributions_append (cap : Nat) (a b : Bytes) (stored : List (Bytes × Event))
    (ctx : Bytes) (event : Event) :
    (streamContributions temporalEnabled halfLifeSec cap a b (stored ++ [(ctx, event)]) :
        Multiset F) =
      streamContributions temporalEnabled halfLifeSec cap a b stored +
        (((eventsIn ctx stored).rtake cap).map
          (contribution temporalEnabled halfLifeSec a b event)).sum := by
  have hcontexts : ((stored ++ [(ctx, event)]).map Prod.fst).toFinset =
      insert ctx (stored.map Prod.fst).toFinset := by
    ext ctx'
    simp
  -- a context without events adds nothing
  have hold : ∑ c ∈ insert ctx (stored.map Prod.fst).toFinset,
      windowContributions (F := F) temporalEnabled halfLifeSec cap a b (eventsIn c stored) =
      streamContributions temporalEnabled halfLifeSec cap a b stored := by
    refine (Finset.sum_subset (Finset.subset_insert _ _) fun c _ hno => ?_).symm
    have hempty : eventsIn c stored = [] := by
      rw [eventsIn, List.map_eq_nil_iff, List.filter_eq_nil_iff]
      intro e he hc
      exact hno (List.mem_toFinset.mpr (List.mem_map.mpr ⟨e, he, by simpa using hc⟩))
    rw [hempty]
    rfl
  have hone : ∀ c, windowContributions (F := F) temporalEnabled halfLifeSec cap a b
      (eventsIn c (stored ++ [(ctx, event)])) =
      windowContributions temporalEnabled halfLifeSec cap a b (eventsIn c stored) +
        if c = ctx then (((eventsIn ctx stored).rtake cap).map
          (contribution temporalEnabled halfLifeSec a b event)).sum else 0 := by
    intro c
    rw [eventsIn_append, eventsIn_singleton]
    by_cases hc : c = ctx
    · subst hc
      rw [if_pos rfl, if_pos rfl, windowContributions_append]
    · rw [if_neg (Ne.symm hc), if_neg hc, List.append_nil, add_zero]
  rw [streamContributions, hcontexts, Finset.sum_congr rfl fun c _ => hone c,
    Finset.sum_add_distrib, hold, Finset.sum_ite_eq' _ ctx, if_pos (Finset.mem_insert_self _ _)]

end Exact

/-- The arguments of one `AddEventAndGetPrior`. -/
structure EventCall where
  clock : Clock
  ctx : Bytes
  id : Bytes
  score : Int
  type : EventType := .ADD
  timestamp : UInt64 := 0

/-- Store and index, with the events that were stored, in their order. -/
structure Ingestion (F : Type) where
  store : EventStore
  index : CoOccurrenceIndex F
  stored : List (Bytes × Event) := []

section Ingestion

variable {F : Type} [FloatOps F]

/-- One call; what it stored is fed to the index with the prior events it returned. -/
def ingestCall (options : IngestOptions) (s : Ingestion F) (call : EventCall) : Ingestion F :=
  match s.store.addEventAndGetPrior call.clock call.ctx call.id call.score call.type
      call.timestamp with
  | (store, .error _) => { s with store := store }
  | (store, .ok result) =>
    if result.deduped then { s with store := store }
    else
      { store := store
        index := s.index.applyIngestedEvent result.priorEvents result.storedEvent options
        stored := s.stored ++ [(call.ctx, result.storedEvent)] }

/-- All calls, beginning with an empty store and an empty index. -/
def ingestAll (cfg : EventsConfig) (coCfg : CoOccurrenceConfig F) (options : IngestOptions)
    (calls : List EventCall) : Ingestion F :=
  calls.foldl (ingestCall options) { store := .new cfg, index := { config := coCfg } }

/-- Nothing is pruned. -/
def CoOccurrenceConfig.Unpruned (coCfg : CoOccurrenceConfig F) : Prop :=
  coCfg.maxNeighborsPerItem = 0 ∧ FloatOps.lt FloatOps.zero coCfg.minSupport = false

variable [AddCommMonoid F] [ExactFloats F] [DecidableEq F] {cfg : EventsConfig}
  {coCfg : CoOccurrenceConfig F} {options : IngestOptions} {s : Ingestion F}

/-- **The invariant**: the buffers hold the last events, the entries the sums. -/
structure Streamed (cfg : EventsConfig) (coCfg : CoOccurrenceConfig F) (options : IngestOptions)
    (s : Ingestion F) : Prop where
  store_config : s.store.config = cfg
  index_config : s.index.config = coCfg
  symmetric : SymmetricMatrix s.index.coScores
  contexts : Remembers cfg s.stored s.store.contexts
  entries : InTime cfg s.stored → ∀ a b, a ≠ b → entry s.index.coScores a b =
    plus none (streamContributions options.temporalEnabled options.halfLifeSec cfg.ctxBufferSize
      a b s.stored)

omit [ExactFloats F] in
theorem streamed_initial :
    Streamed cfg coCfg options { store := .new cfg, index := { config := coCfg } } :=
  ⟨rfl, rfl, symmetricMatrix_empty, .empty cfg, fun _ _ _ _ => rfl⟩

omit [AddCommMonoid F] [ExactFloats F] [DecidableEq F] in
/-- With nothing to prune and no negative signals, the pairs are all there is. -/
theorem coScores_applyIngestedEvent {x : CoOccurrenceIndex F} (hx : x.config.Unpruned)
    (hneg : options.negativeSignals = false) (priorEvents : List Event) (newEvent : Event) :
    (x.applyIngestedEvent priorEvents newEvent options).config = x.config ∧
      (x.applyIngestedEvent priorEvents newEvent options).coScores =
        priorEvents.foldl (fun m prior => addPair options.temporalEnabled options.halfLifeSec
          newEvent prior m) x.coScores := by
  have hno : ¬ (0 < x.config.maxNeighborsPerItem ∨
      FloatOps.lt FloatOps.zero x.config.minSupport = true) := by
    rw [hx.1, hx.2]
    simp
  simp only [CoOccurrenceIndex.applyIngestedEvent, hneg, Bool.false_eq_true, false_and, if_false]
  unfold CoOccurrenceIndex.addEventIncremental
  by_cases hprior : priorEvents = []
  · rw [if_pos hprior, hprior]
    exact ⟨rfl, rfl⟩
  · rw [if_neg hprior]
    simp only [if_neg hno]
    exact ⟨trivial, foldl_addPair newEvent priorEvents x.coScores⟩

/-- **One call keeps it.** -/
theorem Streamed.step (h : Streamed cfg coCfg options s) (hcfg : coCfg.Unpruned)
    (hneg : options.negativeSignals = false) (call : EventCall) :
    Streamed cfg coCfg options (ingestCall options s call) := by
  unfold ingestCall
  cases hadd : s.store.addEventAndGetPrior call.clock call.ctx call.id call.score call.type
      call.timestamp with
  | mk store outcome =>
    cases outcome with
    | error e =>
      cases hv : validateEvent call.ctx call.id call.score call.type with
      | error e' =>
        rw [EventStore.addEventAndGetPrior_invalid hv] at hadd
        cases hadd
        exact h
      | ok u =>
        unfold EventStore.addEventAndGetPrior at hadd
        simp only [hv] at hadd
        split at hadd <;> cases hadd
    | ok result =>
      obtain ⟨-, hconfig, hdup | ⟨hnew, -, hcontexts, hprior⟩⟩ :=
        EventStore.addEventAndGetPrior_ok hadd
      · simp only [hdup.1, if_true]
        exact { h with
          store_config := hconfig.trans h.store_config
          contexts := hdup.2 ▸ h.contexts }
      · simp only [hnew, Bool.false_eq_true, if_false]
        rw [h.store_config] at hcontexts hprior
        obtain ⟨hsame, hscores⟩ := coScores_applyIngestedEvent (x := s.index)
          (by rw [h.index_config]; exact hcfg) hneg result.priorEvents result.storedEvent
        obtain ⟨hremembers, hreturned⟩ := h.contexts.pushEvent call.ctx result.storedEvent
        refine ⟨hconfig.trans h.store_config, hsame.trans h.index_config, ?_, ?_,
          fun htime a b hab => ?_⟩
        · rw [hscores]
          have hm : Keeps False (result.priorEvents.flatMap (pairContribution F
              options.temporalEnabled options.halfLifeSec result.storedEvent)) s.index.coScores :=
            ⟨h.symmetric, False.elim⟩
          exact (hm.addPairs fun _ hp => hp).symmetric
        · rw [hcontexts]
          exact hremembers
        · rw [hreturned htime] at hprior
          rw [hscores, entry_addPairs h.symmetric hab, h.entries htime.of_append a b hab, plus_plus,
            streamContributions_append, hprior]

theorem streamed_ingestAll (hcfg : coCfg.Unpruned) (hneg : options.negativeSignals = false)
    (calls : List EventCall) : Streamed cfg coCfg options (ingestAll cfg coCfg options calls) :=
  List.foldlRecOn calls _ streamed_initial fun _ h call _ => h.step hcfg hneg call

omit [AddCommMonoid F] [ExactFloats F] [DecidableEq F] in
/-- One context always comes in time. -/
theorem inTime_one {stored : List (Bytes × Event)} {ctx : Bytes}
    (hone : ∀ e ∈ stored, e.1 = ctx) : InTime cfg stored := by
  intro i _ e he _
  refine (Nat.eq_zero_or_pos cfg.maxContexts).imp_right fun hpos => ?_
  have hempty : othersSince e.1 (stored.take i) = ∅ := by
    refine Finset.eq_empty_of_forall_notMem fun other hother => ?_
    have hlater := mem_othersSince.1 hother
    obtain ⟨e', he', rfl⟩ := List.mem_map.mp (List.mem_toFinset.mp hother)
    rw [hone e' (List.mem_of_mem_take (List.mem_of_mem_drop he')),
      hone e (List.mem_of_getElem? he)] at hlater
    exact Nat.lt_irrefl _ hlater
  rw [hempty, Finset.card_empty]
  exact hpos

theorem eventsIn_one {stored : List (Bytes × Event)} {ctx : Bytes}
    (hone : ∀ e ∈ stored, e.1 = ctx) : eventsIn ctx stored = stored.map Prod.snd := by
  rw [eventsIn, List.filter_eq_self.mpr fun e he => by simpa using hone e he]

omit [ExactFloats F] in
theorem streamContributions_one (temporalEnabled : Bool) (halfLifeSec : UInt64) (cap : Nat)
    (a b : Bytes) {stored : List (Bytes × Event)} {ctx : Bytes} (hone : ∀ e ∈ stored, e.1 = ctx) :
    (streamContributions temporalEnabled halfLifeSec cap a b stored : Multiset F) =
      windowContributions temporalEnabled halfLifeSec cap a b (stored.map Prod.snd) := by
  cases stored with
  | nil => rfl
  | cons e stored =>
    have hctx : (((e :: stored).map Prod.fst).toFinset : Finset Bytes) = {ctx} := by
      ext ctx'
      rw [List.mem_toFinset, Finset.mem_singleton]
      constructor
      · intro hmem
        obtain ⟨e', he', rfl⟩ := List.mem_map.mp hmem
        exact hone e' he'
      · rintro rfl
        exact List.mem_map.mpr ⟨e, List.mem_cons_self, hone e List.mem_cons_self⟩
    rw [streamContributions, hctx, Finset.sum_singleton, eventsIn_one hone]

/-- The contexts of a list are those that have events in it. -/
theorem mem_contexts {stored : List (Bytes × Event)} {ctx : Bytes} :
    ctx ∈ stored.map Prod.fst ↔ eventsIn ctx stored ≠ [] := by
  rw [eventsIn, ne_eq, List.map_eq_nil_iff, List.filter_eq_nil_iff]
  simp

theorem toFinset_contexts {stored stored' : List (Bytes × Event)}
    (h : ∀ ctx, eventsIn ctx stored' = eventsIn ctx stored) :
    (stored'.map Prod.fst).toFinset = (stored.map Prod.fst).toFinset := by
  ext ctx
  rw [List.mem_toFinset, List.mem_toFinset, mem_contexts, mem_contexts, h]

theorem entry_updateFromEvents (hcfg : coCfg.Unpruned) {a b : Bytes} (hab : a ≠ b)
    (events : List Event) :
    entry (({ config := coCfg } : CoOccurrenceIndex F).updateFromEvents events
        options.temporalEnabled options.halfLifeSec).coScores a b =
      plus none (batchContributions options.temporalEnabled options.halfLifeSec a b events) := by
  have hno : ¬ (0 < coCfg.maxNeighborsPerItem ∨
      FloatOps.lt FloatOps.zero coCfg.minSupport = true) := by
    rw [hcfg.1, hcfg.2]
    simp
  unfold CoOccurrenceIndex.updateFromEvents
  by_cases hempty : events = []
  · rw [if_pos hempty, hempty]
    rfl
  · rw [if_neg hempty]
    simp only [if_neg hno]
    exact entry_addAllPairs symmetricMatrix_empty hab events

omit [DecidableEq F] in
theorem getScore_eq (x : CoOccurrenceIndex F) (a b : Bytes) :
    x.getScore a b = (entry x.coScores a b).getD 0 := by
  rw [← ExactFloats.zero_eq (F := F)]
  rfl

/-- **Streaming equals batch.** The events of one context leave, for each pair of items, the sum
    over the pairs of events no further apart than the buffer is long; if there are no more of
    them than that, this is what `UpdateFromEvents` leaves of the whole list. Several contexts
    leave the sum of what each leaves, however they are interleaved, if no event comes in a
    context after its eviction. -/
theorem streaming_equals_batch (hcfg : coCfg.Unpruned) (hneg : options.negativeSignals = false)
    (calls : List EventCall) :
    let s := ingestAll cfg coCfg options calls
    (∀ ctx, (∀ e ∈ s.stored, e.1 = ctx) →
      (∀ a b, s.index.getScore a b = if a = b then 0 else
        windowScore options.temporalEnabled options.halfLifeSec cfg.ctxBufferSize a b
          (s.stored.map Prod.snd)) ∧
      (s.stored.length ≤ cfg.ctxBufferSize → ∀ a b, entry s.index.coScores a b =
        entry (({ config := coCfg } : CoOccurrenceIndex F).updateFromEvents
          (s.stored.map Prod.snd) options.temporalEnabled options.halfLifeSec).coScores a b)) ∧
    (InTime cfg s.stored →
      (∀ a b, s.index.getScore a b = if a = b then 0 else
        ∑ ctx ∈ (s.stored.map Prod.fst).toFinset, windowScore options.temporalEnabled
          options.halfLifeSec cfg.ctxBufferSize a b (eventsIn ctx s.stored)) ∧
      ∀ calls', let s' := ingestAll cfg coCfg options calls'
        InTime cfg s'.stored → (∀ ctx, eventsIn ctx s'.stored = eventsIn ctx s.stored) →
          ∀ a b, entry s'.index.coScores a b = entry s.index.coScores a b) := by
  intro s
  have h : Streamed cfg coCfg options s := streamed_ingestAll hcfg hneg calls
  have hscore : InTime cfg s.stored → ∀ a b, s.index.getScore a b = if a = b then 0 else
      (streamContributions options.temporalEnabled options.halfLifeSec cfg.ctxBufferSize
        a b s.stored : Multiset F).sum := by
    intro htime a b
    rw [getScore_eq]
    split
    · rename_i hab
      rw [hab, h.symmetric.diagonal]
      rfl
    · rename_i hab
      rw [h.entries htime a b hab, getD_plus_none]
  refine ⟨fun ctx hone => ⟨fun a b => ?_, fun hlen a b => ?_⟩,
    fun htime => ⟨fun a b => ?_, ?_⟩⟩
  · rw [hscore (inTime_one hone), streamContributions_one _ _ _ _ _ hone, sum_windowContributions]
  · by_cases hab : a = b
    · subst hab
      have hbatch : Keeps False (allPairContributions F options.temporalEnabled options.halfLifeSec
          (s.stored.map Prod.snd)) ({ config := coCfg } : CoOccurrenceIndex F).coScores :=
        ⟨symmetricMatrix_empty, False.elim⟩
      rw [h.symmetric.diagonal, (hbatch.updateFromEvents fun _ hp => hp).symmetric.diagonal]
    · rw [h.entries (inTime_one hone) a b hab, entry_updateFromEvents hcfg hab,
        streamContributions_one _ _ _ _ _ hone,
        batchContributions_eq a b ((List.length_map _).trans_le hlen)]
  · rw [hscore htime, streamContributions, sum_finsetSum]
    congr 1
    exact Finset.sum_congr rfl fun ctx _ => sum_windowContributions _ _ _ _
  · intro calls' s' htime' hsame a b
    have h' : Streamed cfg coCfg options s' := streamed_ingestAll hcfg hneg calls'
    have hcontexts := toFinset_contexts hsame
    by_cases hab : a = b
    · rw [hab, h'.symmetric.diagonal, h.symmetric.diagonal]
    · rw [h'.entries htime' a b hab, h.entries htime a b hab, streamContributions, hcontexts,
        streamContributions]
      simp only [hsame]

end Ingestion

instance exactFloats_int : ExactFloats Int where
  zero_eq := rfl
  add_eq _ _ := rfl
  mul_comm := Int.mul_comm
  beq_iff _ _ := decide_eq_true_iff

/-- Two contexts, two events each, in turn; buffers of three. -/
def interleavedCalls : List EventCall :=
  let call := fun ctx id => { clock := ⟨1, 1⟩, ctx := [ctx], id := [id], score := 2 }
  [call 99 97, call 100 120, call 99 98, call 100 121]

def bufferedConfig (maxContexts : Nat) : EventsConfig where
  ctxBufferSize := 3
  maxContexts := maxContexts
  decayAlpha := 0
  dedupWindowSec := 0
  dedupCacheSize := 0
  ctxBufferSize_pos := by decide
  decayAlpha_finite := isFiniteDouble_zero
  decayAlpha_nonneg := ltZeroDouble_zero
  decayAlpha_le_one := gtOneDouble_zero

def unprunedConfig : CoOccurrenceConfig Int := { minSupport := 0 }

/-- With room for one context only, the first one is evicted between its two events, and their
    pair is missing. -/
theorem eviction_loses_pair :
    let s := ingestAll (bufferedConfig 1) unprunedConfig {} interleavedCalls
    s.stored.length = 4 ∧ s.index.getScore [97] [98] = 0 ∧
      (∑ ctx ∈ (s.stored.map Prod.fst).toFinset,
        windowScore false 0 3 [97] [98] (eventsIn ctx s.stored) : Int) = 4 := by
  decide +kernel

/-- The same, and then an event in a third context. -/
def evictingCalls : List EventCall :=
  interleavedCalls ++ [{ clock := ⟨1, 1⟩, ctx := [101], id := [97], score := 2 }]

/-- With room for two, the third context takes the place of the first, in which no more comes, and
    nothing is missing. -/
theorem streaming_equals_batch_interleaved :
    unprunedConfig.Unpruned ∧
      (let s := ingestAll (bufferedConfig 2) unprunedConfig {} evictingCalls
       InTime (bufferedConfig 2) s.stored ∧ s.store.contexts.ctxEvents.size = 2 ∧
        s.index.getScore [97] [98] = 4 ∧
        ∀ a b, s.index.getScore a b = if a = b then 0 else
          ∑ ctx ∈ (s.stored.map Prod.fst).toFinset,
            windowScore false 0 3 a b (eventsIn ctx s.stored)) := by
  have htime : InTime (bufferedConfig 2)
      (ingestAll (bufferedConfig 2) unprunedConfig {} evictingCalls).stored := by decide +kernel
  exact ⟨⟨rfl, rfl⟩, htime, by decide +kernel, by decide +kernel,
    ((streaming_equals_batch ⟨rfl, rfl⟩ rfl evictingCalls).2 htime).1⟩

end Nvecd.Events
