/-
  File:      Nvecd/Events/CoMatrix.lean
  Subject:   The matrix of the co-occurrence index over every sequence of its operations.

  The two directions of a pair are written one after the other, and pruning an item edits the
  rows of others; what each operation does to a single entry is stated first, and the invariant
  follows from that. Contributions of zero are left out where events are paired, but the negative
  signal of a deletion writes its pair even if the reduction is zero.

  * `entry_updatePair`, `entry_removeNeighbors`, `entry_pruneItem`, `entry_applyDecay` -- the
    entries after an operation;
  * `SymmetricMatrix.pruneItem` and the like -- the invariant;
  * `CoAction`, `coStep` -- the machine over two indexes, with the pairs that had a contribution;
  * `co_matrix_invariant`.
-/
import Nvecd.Events.CoOccurrence
import Nvecd.Lib.Machine
import Nvecd.Lib.SparseMatrix

namespace Nvecd.Events

open Nvecd.Lib Nvecd.Storage SparseMatrix

/-! ## 1. One pair -/

section Pairs

variable {F : Type} [FloatOps F] {f : F → F} {m : CoScores F} {a b : Bytes}

theorem entry_updateScore (f : F → F) (m : CoScores F) (a b a' b' : Bytes) :
    entry (updateScore f m a b) a' b' =
      if a' = a ∧ b' = b then some (f ((entry m a b).getD FloatOps.zero)) else entry m a' b' := by
  unfold updateScore
  rw [entry_insert, find?_row]
  by_cases ha : a' = a
  · subst ha
    rw [if_pos rfl, AssocMap.find?_insert, find?_row]
    by_cases hb : b' = b
    · simp [hb]
    · simp [hb]
  · simp [ha]

theorem rowsFull_updateScore (h : RowsFull m) : RowsFull (updateScore f m a b) := by
  intro a' row hrow
  unfold updateScore at hrow
  rw [AssocMap.find?_insert] at hrow
  split at hrow
  · cases hrow
    intro h0
    have hnone := AssocMap.size_eq_zero.mp h0 b
    rw [AssocMap.find?_insert_self] at hnone
    cases hnone
  · exact h a' row hrow

/-- Both directions get the same value, if they had the same before. -/
theorem entry_updatePair (f : F → F) (hne : a ≠ b) (hs : entry m a b = entry m b a)
    (a' b' : Bytes) :
    entry (updatePair f m a b) a' b' =
      if a' = a ∧ b' = b ∨ a' = b ∧ b' = a then some (f ((entry m a b).getD FloatOps.zero))
      else entry m a' b' := by
  unfold updatePair
  rw [entry_updateScore, entry_updateScore, entry_updateScore]
  have hback : ¬ (b = a ∧ a = b) := fun h => hne h.2
  rw [if_neg hback, ← hs]
  by_cases h1 : a' = b ∧ b' = a
  · rw [if_pos h1, if_pos (.inr h1)]
  · rw [if_neg h1]
    by_cases h2 : a' = a ∧ b' = b
    · rw [if_pos h2, if_pos (.inl h2)]
    · rw [if_neg h2, if_neg (by tauto)]

theorem symmetricMatrix_updatePair (h : SymmetricMatrix m) (f : F → F) (hne : a ≠ b) :
    SymmetricMatrix (updatePair f m a b) := by
  refine ⟨fun a' b' => ?_, fun a' => ?_, rowsFull_updateScore (rowsFull_updateScore h.rows)⟩
  · rw [entry_updatePair f hne (h.symm a b), entry_updatePair f hne (h.symm a b), h.symm a' b']
    have hiff : (a' = a ∧ b' = b ∨ a' = b ∧ b' = a) ↔ (b' = a ∧ a' = b ∨ b' = b ∧ a' = a) := by
      tauto
    simp only [hiff]
  · rw [entry_updatePair f hne (h.symm a b), if_neg, h.diagonal]
    rintro (⟨rfl, rfl⟩ | ⟨rfl, rfl⟩)
    · exact hne rfl
    · exact hne rfl

end Pairs

/-! ## 2. Removals -/

/-- The invariant while the row of `a` is being emptied. -/
structure SymmetricBut {F : Type} (a : Bytes) (m : CoScores F) : Prop where
  symm : ∀ a' b', entry m a' b' = entry m b' a'
  diagonal : ∀ a', entry m a' a' = none
  rows : RowsFullBut a m

section Removals

variable {F : Type} {m : CoScores F} {itemId removedId : Bytes} {removed : List Bytes}

theorem symmetricBut_of_symmetric (h : SymmetricMatrix m) (a : Bytes) : SymmetricBut a m :=
  ⟨h.symm, h.diagonal, fun a' row _ hrow => h.rows a' row hrow⟩

theorem entry_removeReverse (m : CoScores F) (itemId removedId a b : Bytes) :
    entry (removeReverse m itemId removedId) a b =
      if a = removedId ∧ b = itemId then none else entry m a b := by
  unfold removeReverse
  cases hrow : m.find? removedId with
  | none =>
    show entry m a b = _
    split
    · rename_i h
      rw [h.1, entry_of_no_row hrow]
    · rfl
  | some row =>
    have hat : ∀ b, entry m removedId b = row.find? b := entry_of_row hrow
    simp only
    split
    · rename_i h0
      have hnone := AssocMap.size_eq_zero.mp h0
      rw [entry_erase]
      by_cases ha : a = removedId
      · subst ha
        rw [if_pos rfl, hat]
        by_cases hb : b = itemId
        · simp [hb]
        · have hb' := hnone b
          rw [AssocMap.find?_erase, if_neg hb] at hb'
          simp [hb, hb']
      · simp [ha]
    · rw [entry_insert]
      by_cases ha : a = removedId
      · subst ha
        rw [if_pos rfl, AssocMap.find?_erase, hat]
        by_cases hb : b = itemId <;> simp [hb]
      · simp [ha]

theorem rowsFullBut_removeReverse {c : Bytes} (h : RowsFullBut c m) :
    RowsFullBut c (removeReverse m itemId removedId) := by
  intro a row ha hrow
  unfold removeReverse at hrow
  split at hrow
  · exact h a row ha hrow
  · simp only at hrow
    split at hrow
    · rw [AssocMap.find?_erase] at hrow
      split at hrow
      · cases hrow
      · exact h a row ha hrow
    · rename_i hsize
      rw [AssocMap.find?_insert] at hrow
      split at hrow
      · cases hrow
        exact hsize
      · exact h a row ha hrow

/-- The body of both removal loops. -/
def removeNeighbor (m : CoScores F) (itemId removedId : Bytes) : CoScores F :=
  match (removeReverse m itemId removedId).find? itemId with
  | none => removeReverse m itemId removedId
  | some row => (removeReverse m itemId removedId).insert itemId (row.erase removedId)

theorem removeNeighbors_cons (m : CoScores F) (itemId removedId : Bytes) (removed : List Bytes) :
    removeNeighbors m itemId (removedId :: removed) =
      removeNeighbors (removeNeighbor m itemId removedId) itemId removed := rfl

theorem entry_removeNeighbor (m : CoScores F) (itemId removedId a b : Bytes) :
    entry (removeNeighbor m itemId removedId) a b =
      if a = itemId ∧ b = removedId ∨ a = removedId ∧ b = itemId then none else entry m a b := by
  have hrev := entry_removeReverse m itemId removedId
  unfold removeNeighbor
  cases hrow : (removeReverse m itemId removedId).find? itemId with
  | none =>
    show entry (removeReverse m itemId removedId) a b = _
    rw [hrev]
    by_cases h1 : a = removedId ∧ b = itemId
    · simp [h1]
    · by_cases h2 : a = itemId ∧ b = removedId
      · have hnone := entry_of_no_row hrow removedId
        rw [hrev] at hnone
        rw [if_neg h1, if_pos (.inl h2), h2.1, h2.2]
        by_cases hsame : itemId = removedId ∧ removedId = itemId
        · exact absurd ⟨h2.1.trans hsame.1, h2.2.trans hsame.2⟩ h1
        · rwa [if_neg hsame] at hnone
      · rw [if_neg h1, if_neg (by tauto)]
  | some row =>
    simp only
    have hat := entry_of_row hrow
    rw [entry_insert]
    by_cases ha : a = itemId
    · subst ha
      rw [if_pos rfl, AssocMap.find?_erase, ← hat, hrev]
      by_cases hb : b = removedId
      · simp [hb]
      · by_cases h1 : a = removedId ∧ b = a
        · simp [h1]
        · rw [if_neg hb, if_neg h1, if_neg (by tauto)]
    · rw [if_neg ha, hrev]
      by_cases h1 : a = removedId ∧ b = itemId
      · simp [h1]
      · rw [if_neg h1, if_neg (by tauto)]

/-- **What the removal loops remove.** -/
theorem entry_removeNeighbors (m : CoScores F) (itemId : Bytes) (removed : List Bytes)
    (a b : Bytes) :
    entry (removeNeighbors m itemId removed) a b =
      if a = itemId ∧ b ∈ removed ∨ b = itemId ∧ a ∈ removed then none else entry m a b := by
  induction removed generalizing m with
  | nil => simp [removeNeighbors]
  | cons removedId removed ih =>
    rw [removeNeighbors_cons, ih, entry_removeNeighbor]
    by_cases h1 : a = itemId ∧ b ∈ removed ∨ b = itemId ∧ a ∈ removed
    · have h1' : a = itemId ∧ b ∈ removedId :: removed ∨ b = itemId ∧ a ∈ removedId :: removed := by
        simp only [List.mem_cons]
        tauto
      rw [if_pos h1, if_pos h1']
    · rw [if_neg h1]
      by_cases h2 : a = itemId ∧ b = removedId ∨ a = removedId ∧ b = itemId
      · have h2' : a = itemId ∧ b ∈ removedId :: removed ∨
            b = itemId ∧ a ∈ removedId :: removed := by
          simp only [List.mem_cons]
          tauto
        rw [if_pos h2, if_pos h2']
      · have h3 : ¬ (a = itemId ∧ b ∈ removedId :: removed ∨
            b = itemId ∧ a ∈ removedId :: removed) := by
          simp only [List.mem_cons]
          tauto
        rw [if_neg h2, if_neg h3]

theorem rowsFullBut_removeNeighbors (h : RowsFullBut itemId m) :
    RowsFullBut itemId (removeNeighbors m itemId removed) := by
  induction removed generalizing m with
  | nil => exact h
  | cons removedId removed ih =>
    rw [removeNeighbors_cons]
    apply ih
    have hrev : RowsFullBut itemId (removeReverse m itemId removedId) :=
      rowsFullBut_removeReverse h
    intro a row ha hrow
    unfold removeNeighbor at hrow
    split at hrow
    · exact hrev a row ha hrow
    · rw [AssocMap.find?_insert, if_neg ha] at hrow
      exact hrev a row ha hrow

theorem SymmetricBut.removeNeighbors (h : SymmetricBut itemId m) (removed : List Bytes) :
    SymmetricBut itemId (removeNeighbors m itemId removed) := by
  refine ⟨fun a b => ?_, fun a => ?_, rowsFullBut_removeNeighbors h.rows⟩
  · rw [entry_removeNeighbors, entry_removeNeighbors, h.symm a b]
    simp only [or_comm]
  · rw [entry_removeNeighbors, h.diagonal]
    split <;> rfl

/-- The last step of a removal: the row of the item goes if it is empty. -/
theorem SymmetricBut.close (h : SymmetricBut itemId m) :
    SymmetricMatrix
      (if ((m.find? itemId).getD .empty).size = 0 then m.erase itemId else m) := by
  split
  · rename_i h0
    have hnone : ∀ b, entry m itemId b = none := fun b => by
      rw [← find?_row]
      exact AssocMap.size_eq_zero.mp h0 b
    have hentry : ∀ a b, entry (m.erase itemId) a b = entry m a b := by
      intro a b
      rw [entry_erase]
      split
      · rename_i ha
        rw [ha, hnone]
      · rfl
    refine ⟨fun a b => ?_, fun a => ?_, fun a row hrow => ?_⟩
    · rw [hentry, hentry, h.symm]
    · rw [hentry, h.diagonal]
    · rw [AssocMap.find?_erase] at hrow
      split at hrow
      · cases hrow
      · rename_i ha
        exact h.rows a row ha hrow
  · rename_i hsize
    refine ⟨h.symm, h.diagonal, fun a row hrow => ?_⟩
    by_cases ha : a = itemId
    · subst ha
      simpa [hrow] using hsize
    · exact h.rows a row ha hrow

/-- Nothing is stored that was not. -/
def Within (m' m : CoScores F) : Prop := ∀ a b, entry m a b = none → entry m' a b = none

theorem Within.trans {m₁ m₂ m₃ : CoScores F} (h : Within m₁ m₂) (h' : Within m₂ m₃) :
    Within m₁ m₃ := fun a b hnone => h a b (h' a b hnone)

theorem within_removeNeighbors : Within (removeNeighbors m itemId removed) m := by
  intro a b hnone
  rw [entry_removeNeighbors, hnone]
  split <;> rfl

theorem within_close :
    Within (if ((m.find? itemId).getD .empty).size = 0 then m.erase itemId else m) m := by
  intro a b hnone
  split
  · rw [entry_erase, hnone]
    split <;> rfl
  · exact hnone

/-- A removal that is made under a condition. -/
theorem symmetricBut_ite {c : Prop} [Decidable c] (h : SymmetricBut itemId m) :
    SymmetricBut itemId (if c then removeNeighbors m itemId removed else m) := by
  split
  · exact h.removeNeighbors removed
  · exact h

theorem within_ite {c : Prop} [Decidable c] :
    Within (if c then removeNeighbors m itemId removed else m) m := by
  split
  · exact within_removeNeighbors
  · exact fun _ _ hnone => hnone

/-- Every entry is scaled, and goes if what is left is below the threshold. -/
theorem entry_decayed (scale : F → F) (keep : F → Bool) (m : CoScores F) (a b : Bytes) :
    entry (((m.mapValues fun row => (row.mapValues scale).filter fun e => keep e.2).filter
      fun e => e.2.size ≠ 0 : CoScores F)) a b = ((entry m a b).map scale).filter keep := by
  unfold entry
  rw [AssocMap.find?_filter, AssocMap.find?_mapValues]
  cases m.find? a with
  | none => rfl
  | some row =>
    have hrow : ((row.mapValues scale).filter fun e => keep e.2).find? b =
        ((row.find? b).map scale).filter keep := by
      rw [AssocMap.find?_filter, AssocMap.find?_mapValues]
    simp only [Option.map_some, Option.filter_some, Option.bind_some]
    by_cases h0 : ((row.mapValues scale).filter fun e => keep e.2).size = 0
    · simp only [h0, ne_eq, not_true_eq_false, decide_false, Bool.false_eq_true, if_false,
        Option.bind_none]
      rw [← hrow]
      exact (AssocMap.size_eq_zero.mp h0 b).symm
    · simp only [ne_eq, h0, not_false_eq_true, decide_true, if_true, Option.bind_some]
      exact hrow

variable [FloatOps F] {cfg : CoOccurrenceConfig F}

/-- **Pruning an item** keeps the invariant, and stores nothing. -/
theorem symmetricMatrix_pruneItem (h : SymmetricMatrix m) :
    SymmetricMatrix (pruneItem cfg m itemId) ∧ Within (pruneItem cfg m itemId) m := by
  unfold pruneItem
  cases m.find? itemId with
  | none => exact ⟨h, fun _ _ hnone => hnone⟩
  | some neighbors =>
    simp only
    have hbut := symmetricBut_of_symmetric h itemId
    exact ⟨SymmetricBut.close (symmetricBut_ite (symmetricBut_ite hbut)),
      Within.trans within_close (Within.trans within_ite within_ite)⟩

theorem symmetricMatrix_foldl_pruneItem (h : SymmetricMatrix m) (items : List Bytes) :
    SymmetricMatrix (items.foldl (pruneItem cfg) m) ∧ Within (items.foldl (pruneItem cfg) m) m := by
  induction items generalizing m with
  | nil => exact ⟨h, fun _ _ hnone => hnone⟩
  | cons itemId items ih =>
    obtain ⟨hs, hw⟩ := symmetricMatrix_pruneItem h
    obtain ⟨hs', hw'⟩ := ih hs
    exact ⟨hs', hw'.trans hw⟩

/-- **Decay.** -/
theorem symmetricMatrix_applyDecay {x : CoOccurrenceIndex F} (h : SymmetricMatrix x.coScores)
    (alpha : UInt64) :
    SymmetricMatrix (x.applyDecay alpha).coScores ∧
      Within (x.applyDecay alpha).coScores x.coScores := by
  unfold CoOccurrenceIndex.applyDecay
  split
  · exact ⟨h, fun _ _ hnone => hnone⟩
  split
  · split
    · exact ⟨h, fun _ _ hnone => hnone⟩
    · exact ⟨symmetricMatrix_empty, fun _ _ _ => rfl⟩
  · simp only
    generalize (if FloatOps.lt FloatOps.zero x.config.minSupport = true then x.config.minSupport
      else FloatOps.decayThreshold) = threshold
    have hentry := entry_decayed (fun s => FloatOps.mul s (FloatOps.ofDouble alpha))
      (fun s => !FloatOps.lt (FloatOps.magnitude s) threshold) x.coScores
    refine ⟨⟨fun a b => ?_, fun a => ?_, fun a row hrow => ?_⟩, fun a b hnone => ?_⟩
    · rw [hentry, hentry, h.symm]
    · rw [hentry, h.diagonal]
      rfl
    · rw [AssocMap.find?_filter, Option.filter_eq_some_iff] at hrow
      simpa using hrow.2
    · rw [hentry, hnone]
      rfl

end Removals

/-! ## 3. The operations -/

/-- Every stored pair is one of these, in either direction. -/
def Sourced {F : Type} (pairs : List (Bytes × Bytes)) (m : CoScores F) : Prop :=
  ∀ a b, entry m a b ≠ none → (a, b) ∈ pairs ∨ (b, a) ∈ pairs

section Keeps

variable {F : Type} {C : Prop} {pairs pairs' : List (Bytes × Bytes)} {m m' : CoScores F}

/-- **The invariant**: symmetric, and, under `C`, with no pair that had no contribution. -/
structure Keeps (C : Prop) (pairs : List (Bytes × Bytes)) (m : CoScores F) : Prop where
  symmetric : SymmetricMatrix m
  sourced : C → Sourced pairs m

theorem Keeps.mono (h : Keeps C pairs m) (hsub : pairs ⊆ pairs') : Keeps C pairs' m :=
  ⟨h.symmetric, fun hc a b hab => (h.sourced hc a b hab).imp (hsub ·) (hsub ·)⟩

theorem Keeps.within (h : Keeps C pairs m) (hm : SymmetricMatrix m' ∧ Within m' m) :
    Keeps C pairs m' :=
  ⟨hm.1, fun hc a b hab => h.sourced hc a b fun hnone => hab (hm.2 a b hnone)⟩

end Keeps

/-- An operation on one index. -/
inductive CoOp (F : Type) where
  | updateFromEvents (events : List Event) (temporalEnabled : Bool) (halfLifeSec : UInt64)
  | applyIngestedEvent (priorEvents : List Event) (newEvent : Event) (options : IngestOptions)
  | applyDecay (alpha : UInt64)
  | prune
  | clear
  | setScore (item1 item2 : Bytes) (score : F)

section Operations

variable {F : Type} [FloatOps F]

open FloatOps

/-- The pair of two events, if it gets a contribution other than zero. -/
def pairContribution (F : Type) [FloatOps F] (temporalEnabled : Bool) (halfLifeSec : UInt64)
    (event1 event2 : Event) : List (Bytes × Bytes) :=
  if event1.itemId = event2.itemId then []
  else if beq (pairScore temporalEnabled halfLifeSec event1 event2 : F) zero then []
  else [(event1.itemId, event2.itemId)]

def allPairContributions (F : Type) [FloatOps F] (temporalEnabled : Bool) (halfLifeSec : UInt64) :
    List Event → List (Bytes × Bytes)
  | [] => []
  | event1 :: rest =>
    rest.flatMap (pairContribution F temporalEnabled halfLifeSec event1) ++
      allPairContributions F temporalEnabled halfLifeSec rest

/-- Whether the event sends a negative signal. -/
def sendsNegative (x : CoOccurrenceIndex F) (newEvent : Event) (options : IngestOptions) : Bool :=
  options.negativeSignals && decide (newEvent.type = .DEL) &&
    decide (x.config.negativeMaxPropagation ≠ 0)

/-- The pair of a removed item and an event of its context, if its reduction is not zero. -/
def negativeContribution (F : Type) [FloatOps F] (removedId : Bytes) (negativeWeight : UInt64)
    (event : Event) : List (Bytes × Bytes) :=
  if event.itemId = removedId then []
  else if beq (scaled event.score negativeWeight : F) zero then []
  else [(removedId, event.itemId)]

namespace CoOp

def apply (x : CoOccurrenceIndex F) : CoOp F → CoOccurrenceIndex F
  | updateFromEvents events temporalEnabled halfLifeSec =>
    x.updateFromEvents events temporalEnabled halfLifeSec
  | applyIngestedEvent priorEvents newEvent options =>
    x.applyIngestedEvent priorEvents newEvent options
  | applyDecay alpha => x.applyDecay alpha
  | prune => x.prune
  | clear => x.clear
  | setScore item1 item2 score => x.setScore item1 item2 score

/-- The pairs the operation contributes to, with something other than zero; a score that is set
    counts as it is. -/
def contributions (x : CoOccurrenceIndex F) : CoOp F → List (Bytes × Bytes)
  | updateFromEvents events temporalEnabled halfLifeSec =>
    allPairContributions F temporalEnabled halfLifeSec events
  | applyIngestedEvent priorEvents newEvent options =>
    priorEvents.flatMap (pairContribution F options.temporalEnabled options.halfLifeSec newEvent) ++
      if sendsNegative x newEvent options then
        priorEvents.flatMap (negativeContribution F newEvent.itemId options.negativeWeight)
      else []
  | setScore item1 item2 _ => [(item1, item2)]
  | _ => []

/-- `SetScore` is called for two items. -/
def valid : CoOp F → Bool
  | setScore item1 item2 _ => decide (item1 ≠ item2)
  | _ => true

/-- **The condition**: a negative signal goes to pairs only that have had a contribution other
    than zero, before or in the same operation. -/
def signalsOk (x : CoOccurrenceIndex F) (pairs : List (Bytes × Bytes)) (op : CoOp F) : Bool :=
  match op with
  | applyIngestedEvent priorEvents newEvent options =>
    !sendsNegative x newEvent options || priorEvents.all fun event =>
      decide (event.itemId = newEvent.itemId) ||
        decide ((newEvent.itemId, event.itemId) ∈ pairs ++ op.contributions x ∨
          (event.itemId, newEvent.itemId) ∈ pairs ++ op.contributions x)
  | _ => true

end CoOp

/-- The pair of two events is added, unless it is one item or adds nothing. -/
def addPair (temporalEnabled : Bool) (halfLifeSec : UInt64) (event1 event2 : Event)
    (m : CoScores F) : CoScores F :=
  if event1.itemId = event2.itemId then m
  else
    let score : F := pairScore temporalEnabled halfLifeSec event1 event2
    if beq score zero then m
    else updatePair (fun s => add s score) m event1.itemId event2.itemId

variable {C : Prop} {pairs : List (Bytes × Bytes)} {m : CoScores F}
  {x : CoOccurrenceIndex F} {temporalEnabled : Bool} {halfLifeSec : UInt64}

theorem Keeps.updatePair (h : Keeps C pairs m) (f : F → F) {a b : Bytes} (hne : a ≠ b)
    (hpair : C → (a, b) ∈ pairs ∨ (b, a) ∈ pairs) : Keeps C pairs (updatePair f m a b) := by
  refine ⟨symmetricMatrix_updatePair h.symmetric f hne, fun hc a' b' hab => ?_⟩
  rw [entry_updatePair f hne (h.symmetric.symm a b)] at hab
  by_cases hsame : a' = a ∧ b' = b ∨ a' = b ∧ b' = a
  · rcases hsame with ⟨rfl, rfl⟩ | ⟨rfl, rfl⟩
    · exact hpair hc
    · exact (hpair hc).symm
  · rw [if_neg hsame] at hab
    exact h.sourced hc a' b' hab

theorem Keeps.addPair (h : Keeps C pairs m) {event1 event2 : Event}
    (hsub : pairContribution F temporalEnabled halfLifeSec event1 event2 ⊆ pairs) :
    Keeps C pairs (addPair temporalEnabled halfLifeSec event1 event2 m) := by
  unfold Events.addPair
  unfold pairContribution at hsub
  split
  · exact h
  · rename_i hne
    rw [if_neg hne] at hsub
    simp only
    split
    · exact h
    · rename_i hscore
      rw [if_neg hscore] at hsub
      exact h.updatePair _ hne fun _ => .inl (hsub List.mem_cons_self)

/-- One event with a list of others. -/
theorem Keeps.addPairs (h : Keeps C pairs m) {event1 : Event} {events : List Event}
    (hsub : events.flatMap (pairContribution F temporalEnabled halfLifeSec event1) ⊆ pairs) :
    Keeps C pairs
      (events.foldl (fun m event2 => Events.addPair temporalEnabled halfLifeSec event1 event2 m)
        m) := by
  refine List.foldlRecOn events _ h fun m hm event2 hmem => hm.addPair fun p hp => ?_
  exact hsub (List.mem_flatMap.mpr ⟨event2, hmem, hp⟩)

theorem addAllPairs_cons (event1 : Event) (rest : List Event) (m : CoScores F) :
    CoOccurrenceIndex.addAllPairs temporalEnabled halfLifeSec (event1 :: rest) m =
      CoOccurrenceIndex.addAllPairs temporalEnabled halfLifeSec rest
        (rest.foldl (fun m event2 => addPair temporalEnabled halfLifeSec event1 event2 m) m) := rfl

theorem Keeps.addAllPairs (h : Keeps C pairs m) {events : List Event}
    (hsub : allPairContributions F temporalEnabled halfLifeSec events ⊆ pairs) :
    Keeps C pairs (CoOccurrenceIndex.addAllPairs temporalEnabled halfLifeSec events m) := by
  induction events generalizing m with
  | nil => exact h
  | cons event1 rest ih =>
    rw [allPairContributions, List.append_subset] at hsub
    rw [addAllPairs_cons]
    exact ih (h.addPairs hsub.1) hsub.2

theorem Keeps.updateFromEvents (h : Keeps C pairs x.coScores) {events : List Event}
    (hsub : allPairContributions F temporalEnabled halfLifeSec events ⊆ pairs) :
    Keeps C pairs (x.updateFromEvents events temporalEnabled halfLifeSec).coScores := by
  unfold CoOccurrenceIndex.updateFromEvents
  split
  · exact h
  · have hadd := h.addAllPairs hsub
    simp only
    split
    · refine List.foldlRecOn events _ hadd fun m hm event _ => ?_
      split
      · exact hm
      · split
        · exact hm.within (symmetricMatrix_pruneItem hm.symmetric)
        · exact hm
    · exact hadd

/-- The pairs of `AddEventIncrementalInternal`, with its test the other way round. -/
theorem foldl_addPair (newEvent : Event) (priorEvents : List Event) (m : CoScores F) :
    priorEvents.foldl (fun m prior =>
      if prior.itemId = newEvent.itemId then m
      else
        let score : F := pairScore temporalEnabled halfLifeSec newEvent prior
        if beq score zero then m
        else Events.updatePair (fun s => add s score) m newEvent.itemId prior.itemId) m =
      priorEvents.foldl (fun m prior => addPair temporalEnabled halfLifeSec newEvent prior m) m := by
  congr 1
  funext m prior
  simp only [addPair, eq_comm]

theorem Keeps.addEventIncremental (h : Keeps C pairs x.coScores) {priorEvents : List Event}
    {newEvent : Event}
    (hsub : priorEvents.flatMap (pairContribution F temporalEnabled halfLifeSec newEvent) ⊆
      pairs) :
    Keeps C pairs
      (x.addEventIncremental priorEvents newEvent temporalEnabled halfLifeSec).coScores := by
  unfold CoOccurrenceIndex.addEventIncremental
  split
  · exact h
  · have hadd := h.addPairs hsub
    rw [← foldl_addPair] at hadd
    simp only
    split
    · exact hadd.within (symmetricMatrix_foldl_pruneItem hadd.symmetric _)
    · exact hadd

theorem Keeps.applyNegativeSignal (h : Keeps C pairs x.coScores) {removedId : Bytes}
    {contextEvents : List Event} {negativeWeight : UInt64}
    (hok : C → x.config.negativeMaxPropagation ≠ 0 → ∀ event ∈ contextEvents,
      event.itemId ≠ removedId → (removedId, event.itemId) ∈ pairs ∨
        (event.itemId, removedId) ∈ pairs) :
    Keeps C pairs (x.applyNegativeSignal removedId contextEvents negativeWeight).coScores := by
  unfold CoOccurrenceIndex.applyNegativeSignal
  split
  · exact h
  · rename_i hprop
    refine List.foldlRecOn contextEvents _ h fun m hm event hmem => ?_
    split
    · exact hm
    · rename_i hne
      exact hm.updatePair _ (Ne.symm hne) fun hc => hok hc hprop event hmem hne

theorem config_addEventIncremental (x : CoOccurrenceIndex F) (priorEvents : List Event)
    (newEvent : Event) (temporalEnabled : Bool) (halfLifeSec : UInt64) :
    (x.addEventIncremental priorEvents newEvent temporalEnabled halfLifeSec).config = x.config := by
  unfold CoOccurrenceIndex.addEventIncremental
  split <;> rfl

/-- **Every operation** keeps the invariant, with the pairs it contributes to. -/
theorem Keeps.op (h : Keeps C pairs x.coScores) {op : CoOp F} (hvalid : op.valid = true)
    (hok : C → op.signalsOk x pairs = true) :
    Keeps C (pairs ++ op.contributions x) (op.apply x).coScores := by
  have h' : Keeps C (pairs ++ op.contributions x) x.coScores :=
    h.mono (List.subset_append_left _ _)
  have hown : op.contributions x ⊆ pairs ++ op.contributions x := List.subset_append_right _ _
  cases op with
  | updateFromEvents events temporalEnabled halfLifeSec => exact h'.updateFromEvents hown
  | applyIngestedEvent priorEvents newEvent options =>
    have hpairs := (List.append_subset.mp hown).1
    have hinc := h'.addEventIncremental hpairs
    show Keeps C _ (x.applyIngestedEvent priorEvents newEvent options).coScores
    unfold CoOccurrenceIndex.applyIngestedEvent
    simp only
    split
    · rename_i hneg
      refine hinc.applyNegativeSignal fun hc hprop event hmem hne => ?_
      rw [config_addEventIncremental] at hprop
      have hsends : sendsNegative x newEvent options = true := by
        simp [sendsNegative, hneg.1, hneg.2, hprop]
      have hsig := hok hc
      rw [CoOp.signalsOk, hsends, Bool.not_true, Bool.false_or, List.all_eq_true] at hsig
      have hevent := hsig event hmem
      rw [decide_eq_false hne, Bool.false_or, decide_eq_true_eq] at hevent
      exact hevent
    · exact hinc
  | applyDecay alpha => exact h'.within (symmetricMatrix_applyDecay h.symmetric alpha)
  | prune => exact h'.within (symmetricMatrix_foldl_pruneItem h.symmetric _)
  | clear => exact ⟨symmetricMatrix_empty, fun _ _ _ hab => absurd rfl hab⟩
  | setScore item1 item2 score =>
    refine h'.updatePair _ (of_decide_eq_true hvalid) fun _ => .inl ?_
    exact hown List.mem_cons_self

end Operations

/-! ## 4. Runs -/

/-- Two indexes, and for each the pairs that had a contribution other than zero. -/
structure CoRun (F : Type) where
  this : CoOccurrenceIndex F
  other : CoOccurrenceIndex F
  thisPairs : List (Bytes × Bytes) := []
  otherPairs : List (Bytes × Bytes) := []

inductive CoAction (F : Type) where
  | this (op : CoOp F)
  | other (op : CoOp F)
  | swapState

section Runs

variable {F : Type} {C : Prop} {cfg cfg' : CoOccurrenceConfig F}

def CoRun.initial (cfg cfg' : CoOccurrenceConfig F) : CoRun F :=
  { this := { config := cfg }, other := { config := cfg' } }

/-- The invariant of both indexes. -/
def CoInv (C : Prop) (s : CoRun F) : Prop :=
  Keeps C s.thisPairs s.this.coScores ∧ Keeps C s.otherPairs s.other.coScores

theorem coInv_initial : CoInv C (CoRun.initial cfg cfg') := by
  have hempty : Keeps C [] (AssocMap.empty : CoScores F) :=
    ⟨symmetricMatrix_empty, fun _ _ _ hab => absurd rfl hab⟩
  exact ⟨hempty, hempty⟩

variable [FloatOps F]

/-- One operation on either index, or the exchange of the two. -/
def coStep (s : CoRun F) : CoAction F → Option (CoRun F)
  | .this op =>
    if op.valid then
      some { s with
        this := op.apply s.this
        thisPairs := s.thisPairs ++ op.contributions s.this }
    else none
  | .other op =>
    if op.valid then
      some { s with
        other := op.apply s.other
        otherPairs := s.otherPairs ++ op.contributions s.other }
    else none
  | .swapState =>
    let (this, other) := s.this.swapState s.other
    some ⟨this, other, s.otherPairs, s.thisPairs⟩

def coOk (s : CoRun F) : CoAction F → Bool
  | .this op => op.signalsOk s.this s.thisPairs
  | .other op => op.signalsOk s.other s.otherPairs
  | .swapState => true

variable {s s' : CoRun F} {a : CoAction F} {actions : List (CoAction F)}

theorem CoInv.step (h : CoInv C s) (hok : C → coOk s a = true) (hs : coStep s a = some s') :
    CoInv C s' := by
  cases a with
  | this op =>
    simp only [coStep, Option.ite_none_right_eq_some, Option.some.injEq] at hs
    obtain ⟨hvalid, rfl⟩ := hs
    exact ⟨h.1.op hvalid hok, h.2⟩
  | other op =>
    simp only [coStep, Option.ite_none_right_eq_some, Option.some.injEq] at hs
    obtain ⟨hvalid, rfl⟩ := hs
    exact ⟨h.1, h.2.op hvalid hok⟩
  | swapState =>
    simp only [coStep, CoOccurrenceIndex.swapState, Option.some.injEq] at hs
    subst hs
    exact ⟨h.2, h.1⟩

/-- Symmetric, without diagonal and without an empty row: in every run. -/
theorem co_matrix_symmetric (hrun : run coStep (CoRun.initial cfg cfg') actions = some s) :
    SymmetricMatrix s.this.coScores ∧ SymmetricMatrix s.other.coScores := by
  have hinv : CoInv False s := run_inv (fun _ _ _ h hs => h.step False.elim hs) coInv_initial hrun
  exact ⟨hinv.1.symmetric, hinv.2.symmetric⟩

/-- **The co-occurrence matrix invariant.** -/
theorem co_matrix_invariant (hrun : run coStep (CoRun.initial cfg cfg') actions = some s)
    (hok : Meets coStep (fun s a => coOk s a = true) (CoRun.initial cfg cfg') actions) :
    (SymmetricMatrix s.this.coScores ∧ Sourced s.thisPairs s.this.coScores) ∧
      SymmetricMatrix s.other.coScores ∧ Sourced s.otherPairs s.other.coScores := by
  have hinv : CoInv True s := run_inv_of_meets (fun _ _ _ h hok hs => h.step (fun _ => hok) hs)
    coInv_initial hok hrun
  exact ⟨⟨hinv.1.symmetric, hinv.1.sourced trivial⟩, hinv.2.symmetric, hinv.2.sourced trivial⟩

end Runs

/-- The default configuration, with a cap on the neighbours. -/
def cappedConfig : CoOccurrenceConfig Int := { maxNeighborsPerItem := 2, minSupport := 0 }

/-- Negative signals of weight 1. -/
def negativeOptions : IngestOptions :=
  { negativeSignals := true, negativeWeight := 0x3FF0000000000000 }

/-- Two deletions in one context: the reduction of the second one's signal is zero. -/
def twoDeletions : List (CoAction Int) :=
  [.this (.applyIngestedEvent [⟨[97], 0, 1, .DEL⟩] ⟨[98], 0, 2, .DEL⟩ negativeOptions)]

/-- **A pair without a contribution is stored.** -/
theorem zero_signal_stores_pair :
    ∃ s, run coStep (CoRun.initial cappedConfig cappedConfig) twoDeletions = some s ∧
      s.thisPairs = [] ∧ entry s.this.coScores [98] [97] = some 0 := by
  have hrun : (run coStep (CoRun.initial cappedConfig cappedConfig) twoDeletions).map
      (fun s => (s.thisPairs, entry s.this.coScores [98] [97])) = some ([], some 0) := by
    decide +kernel
  obtain ⟨s, hs, he⟩ := Option.map_eq_some_iff.mp hrun
  rw [Prod.mk.injEq] at he
  exact ⟨s, hs, he.1, he.2⟩

/-- Two items, the deletion of one, pruning, and the exchange with a second index. -/
def deletedItem : List (CoAction Int) :=
  [.this (.updateFromEvents [⟨[97], 5, 1, .ADD⟩, ⟨[98], 3, 2, .ADD⟩] false 0),
    .this (.applyIngestedEvent [⟨[97], 5, 1, .ADD⟩, ⟨[98], 3, 2, .ADD⟩] ⟨[98], 0, 3, .DEL⟩
      negativeOptions),
    .this .prune, .other (.setScore [99] [100] 7), .swapState]

/-- `deletedItem` meets the condition; the pair is left with `5 * 3 - 5`. -/
theorem co_matrix_invariant_deletedItem :
    ∃ s, run coStep (CoRun.initial cappedConfig cappedConfig) deletedItem = some s ∧
      entry s.other.coScores [97] [98] = some 10 ∧
      (SymmetricMatrix s.this.coScores ∧ Sourced s.thisPairs s.this.coScores) ∧
      SymmetricMatrix s.other.coScores ∧ Sourced s.otherPairs s.other.coScores := by
  have hrun : (run coStep (CoRun.initial cappedConfig cappedConfig) deletedItem).map
      (fun s => entry s.other.coScores [97] [98]) = some (some 10) := by
    decide +kernel
  have hok : Meets coStep (fun s a => coOk s a = true)
      (CoRun.initial cappedConfig cappedConfig) deletedItem := by
    decide +kernel
  obtain ⟨s, hs, he⟩ := Option.map_eq_some_iff.mp hrun
  exact ⟨s, hs, he, co_matrix_invariant hs hok⟩

end Nvecd.Events
