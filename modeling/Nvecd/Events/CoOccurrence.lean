/-
  File:      Nvecd/Events/CoOccurrence.lean
  Subject:   `events/co_occurrence_index.cpp`: the scores of pairs of items seen in one context,
             as events, decay and pruning change them.

  Scores are `float`s. What the index does with them is written out; the arithmetic itself is a
  parameter (`FloatOps`), so that what is proved holds for the hardware's rounding as for exact
  numbers. A map is walked in the order of its entries; ties in a sort stay in that order.
-/
import Mathlib.Data.List.Destutter
import Mathlib.Data.List.Sort
import Nvecd.Events.EventStore

namespace Nvecd.Events

open Nvecd.Lib Nvecd.Storage

/-- The `float` operations of the index. Doubles are bit patterns. -/
class FloatOps (F : Type) where
  zero : F
  add : F → F → F
  sub : F → F → F
  mul : F → F → F
  /-- `std::abs`. -/
  magnitude : F → F
  lt : F → F → Bool
  beq : F → F → Bool
  /-- `static_cast<float>` of an `int64_t`. -/
  ofInt : Int → F
  /-- `static_cast<float>` of a `double`. -/
  ofDouble : UInt64 → F
  /-- `static_cast<float>(score * weight)`, the product a `double`. -/
  scaled : Int → UInt64 → F
  /-- `max(static_cast<float>(exp2(-age / half_life)), 1e-6F)`. -/
  decayFor : UInt64 → Nat → F
  /-- `1e-6F`. -/
  decayThreshold : F

/-- `CoOccurrenceIndex::Config`. -/
structure CoOccurrenceConfig (F : Type) where
  maxNeighborsPerItem : Nat := 0
  minSupport : F
  negativeMaxPropagation : Nat := 1

structure IngestOptions where
  temporalEnabled : Bool := false
  halfLifeSec : UInt64 := 0
  negativeSignals : Bool := false
  negativeWeight : UInt64 := 0

/-- `co_scores_`: for each item its neighbours. -/
abbrev CoScores (F : Type) := AssocMap Bytes (AssocMap Bytes F)

structure CoOccurrenceIndex (F : Type) where
  config : CoOccurrenceConfig F
  coScores : CoScores F := .empty
  generation : Nat := 0

/-- `operator<` of `std::string`, not strict. -/
def bytesLe : Bytes → Bytes → Bool
  | [], _ => true
  | _ :: _, [] => false
  | a :: l, b :: l' => if a = b then bytesLe l l' else decide (a < b)

section Index

variable {F : Type} [FloatOps F]

open FloatOps

/-- The index as `InitializeComponents` builds it. -/
def CoOccurrenceIndex.new (cfg : EventsConfig) : CoOccurrenceIndex F :=
  { config := { maxNeighborsPerItem := cfg.maxNeighborsPerItem
                minSupport := ofDouble cfg.minSupport } }

/-- The options `HandleEvent` reads from the configuration. -/
def IngestOptions.ofConfig (cfg : EventsConfig) : IngestOptions where
  temporalEnabled := cfg.temporalCooccurrence
  halfLifeSec := cfg.temporalHalfLifeSec
  negativeSignals := cfg.negativeSignals
  negativeWeight := cfg.negativeWeight

/-- `co_scores_[a][b]` replaced by `f` of it; an entry that is not there begins as zero. -/
def updateScore (f : F → F) (m : CoScores F) (a b : Bytes) : CoScores F :=
  let row := (m.find? a).getD .empty
  m.insert a (row.insert b (f ((row.find? b).getD zero)))

/-- Both directions of a pair. -/
def updatePair (f : F → F) (m : CoScores F) (a b : Bytes) : CoScores F :=
  updateScore f (updateScore f m a b) b a

/-- The score of one pair of events, weighted by their ages if temporal decay is on. -/
def pairScore (temporalEnabled : Bool) (halfLifeSec : UInt64) (new prior : Event) : F :=
  let score : F := ofInt (new.score * prior.score)
  if temporalEnabled && gtZeroDouble halfLifeSec then
    let newest := max new.timestamp.toNat prior.timestamp.toNat
    mul score (mul (decayFor halfLifeSec (newest - new.timestamp.toNat))
      (decayFor halfLifeSec (newest - prior.timestamp.toNat)))
  else score

/-- The reverse entry of a removed neighbour goes too, with its row if that was its last. -/
def removeReverse (m : CoScores F) (itemId removedId : Bytes) : CoScores F :=
  match m.find? removedId with
  | none => m
  | some row =>
    let row := row.erase itemId
    if row.size = 0 then m.erase removedId else m.insert removedId row

/-- Neighbours of `itemId` are removed, in both directions. -/
def removeNeighbors (m : CoScores F) (itemId : Bytes) (removed : List Bytes) : CoScores F :=
  removed.foldl (fun m removedId =>
    let m := removeReverse m itemId removedId
    match m.find? itemId with
    | none => m
    | some row => m.insert itemId (row.erase removedId)) m

/-- `PruneItemLocked`. -/
def pruneItem (cfg : CoOccurrenceConfig F) (m : CoScores F) (itemId : Bytes) : CoScores F :=
  match m.find? itemId with
  | none => m
  | some neighbors =>
    let m :=
      if lt zero cfg.minSupport then
        removeNeighbors m itemId
          ((neighbors.entries.filter fun e => lt (magnitude e.2) cfg.minSupport).map Prod.fst)
      else m
    let neighbors := (m.find? itemId).getD .empty
    let m :=
      if 0 < cfg.maxNeighborsPerItem ∧ cfg.maxNeighborsPerItem < neighbors.size then
        let sorted := neighbors.entries.insertionSort fun a b => !lt (magnitude a.2) (magnitude b.2)
        removeNeighbors m itemId ((sorted.drop cfg.maxNeighborsPerItem).map Prod.fst)
      else m
    if ((m.find? itemId).getD .empty).size = 0 then m.erase itemId else m

namespace CoOccurrenceIndex

/-- `AddEventIncrementalInternal`: the new event is paired with every earlier one. -/
def addEventIncremental (x : CoOccurrenceIndex F) (priorEvents : List Event) (newEvent : Event)
    (temporalEnabled : Bool) (halfLifeSec : UInt64) : CoOccurrenceIndex F :=
  if priorEvents = [] then x
  else
    let coScores := priorEvents.foldl (fun m prior =>
      if prior.itemId = newEvent.itemId then m
      else
        let score : F := pairScore temporalEnabled halfLifeSec newEvent prior
        if beq score zero then m
        else updatePair (fun s => add s score) m newEvent.itemId prior.itemId) x.coScores
    let coScores :=
      if 0 < x.config.maxNeighborsPerItem ∨ lt zero x.config.minSupport then
        let affected := newEvent.itemId ::
          (priorEvents.map Event.itemId).filter fun id => id ≠ newEvent.itemId
        let affected := (affected.insertionSort fun a b => bytesLe a b).destutter (· ≠ ·)
        affected.foldl (pruneItem x.config) coScores
      else coScores
    { x with coScores := coScores, generation := x.generation + 1 }

/-- The double loop of `UpdateFromEventsInternal`: every event with every later one. -/
def addAllPairs (temporalEnabled : Bool) (halfLifeSec : UInt64) :
    List Event → CoScores F → CoScores F
  | [], m => m
  | event1 :: rest, m =>
    addAllPairs temporalEnabled halfLifeSec rest (rest.foldl (fun m event2 =>
      if event1.itemId = event2.itemId then m
      else
        let score : F := pairScore temporalEnabled halfLifeSec event1 event2
        if beq score zero then m
        else updatePair (fun s => add s score) m event1.itemId event2.itemId) m)

/-- `UpdateFromEvents`. -/
def updateFromEvents (x : CoOccurrenceIndex F) (events : List Event) (temporalEnabled : Bool)
    (halfLifeSec : UInt64) : CoOccurrenceIndex F :=
  if events = [] then x
  else
    let coScores := addAllPairs temporalEnabled halfLifeSec events x.coScores
    let coScores :=
      if 0 < x.config.maxNeighborsPerItem ∨ lt zero x.config.minSupport then
        events.foldl (fun m event =>
          match m.find? event.itemId with
          | none => m
          | some row =>
            if x.config.maxNeighborsPerItem < row.size then pruneItem x.config m event.itemId
            else m) coScores
      else coScores
    { x with coScores := coScores, generation := x.generation + 1 }

/-- `ApplyNegativeSignalLocked`. -/
def applyNegativeSignal (x : CoOccurrenceIndex F) (removedId : Bytes)
    (contextEvents : List Event) (negativeWeight : UInt64) : CoOccurrenceIndex F :=
  if x.config.negativeMaxPropagation = 0 then x
  else
    let coScores := contextEvents.foldl (fun m event =>
      if event.itemId = removedId then m
      else updatePair (fun s => sub s (scaled event.score negativeWeight)) m removedId
        event.itemId) x.coScores
    { x with coScores := coScores, generation := x.generation + 1 }

/-- `ApplyIngestedEvent`. -/
def applyIngestedEvent (x : CoOccurrenceIndex F) (priorEvents : List Event) (newEvent : Event)
    (options : IngestOptions) : CoOccurrenceIndex F :=
  let x := x.addEventIncremental priorEvents newEvent options.temporalEnabled options.halfLifeSec
  if options.negativeSignals ∧ newEvent.type = .DEL then
    x.applyNegativeSignal newEvent.itemId priorEvents options.negativeWeight
  else x

/-- `ApplyDecay`. A factor of zero clears the index. -/
def applyDecay (x : CoOccurrenceIndex F) (alpha : UInt64) : CoOccurrenceIndex F :=
  if ltZeroDouble alpha || gtOneDouble alpha then x
  else if isZeroDouble alpha then
    if x.coScores.size = 0 then x
    else { x with coScores := .empty, generation := x.generation + 1 }
  else
    let threshold := if lt zero x.config.minSupport then x.config.minSupport else decayThreshold
    let decayed := x.coScores.mapValues fun row =>
      (row.mapValues fun s => mul s (ofDouble alpha)).filter fun e => !lt (magnitude e.2) threshold
    { x with
      coScores := decayed.filter fun e => e.2.size ≠ 0
      generation := x.generation + 1 }

/-- `Prune`. -/
def prune (x : CoOccurrenceIndex F) : CoOccurrenceIndex F :=
  { x with
    coScores := x.coScores.keys.foldl (pruneItem x.config) x.coScores
    generation := x.generation + 1 }

/-- `SetScore`. -/
def setScore (x : CoOccurrenceIndex F) (item1 item2 : Bytes) (score : F) : CoOccurrenceIndex F :=
  { x with
    coScores := updatePair (fun _ => score) x.coScores item1 item2
    generation := x.generation + 1 }

/-- `Clear`. -/
def clear (x : CoOccurrenceIndex F) : CoOccurrenceIndex F :=
  { x with coScores := .empty, generation := x.generation + 1 }

/-- `SwapState`: the configurations stay. -/
def swapState (x y : CoOccurrenceIndex F) : CoOccurrenceIndex F × CoOccurrenceIndex F :=
  ({ x with coScores := y.coScores, generation := y.generation },
    { y with coScores := x.coScores, generation := x.generation })

/-- `GetScore`. -/
def getScore (x : CoOccurrenceIndex F) (a b : Bytes) : F :=
  ((x.coScores.find? a).bind fun row => row.find? b).getD zero

/-! The generation tells a change. -/

/-- The index has a later generation, or nothing has changed. -/
def Advances (x y : CoOccurrenceIndex F) : Prop :=
  x.generation ≤ y.generation ∧ (y.generation = x.generation → y = x)

variable {x y z : CoOccurrenceIndex F}

omit [FloatOps F] in
theorem Advances.refl (x : CoOccurrenceIndex F) : x.Advances x := ⟨Nat.le_refl _, fun _ => rfl⟩

omit [FloatOps F] in
theorem Advances.trans (h : x.Advances y) (h' : y.Advances z) : x.Advances z := by
  refine ⟨Nat.le_trans h.1 h'.1, fun heq => ?_⟩
  have hle := h.1
  have hle' := h'.1
  rw [h'.2 (by omega), h.2 (by omega)]

omit [FloatOps F] in
theorem Advances.of_succ (h : y.generation = x.generation + 1) : x.Advances y :=
  ⟨by omega, fun heq => by omega⟩

theorem advances_addEventIncremental (x : CoOccurrenceIndex F) (priorEvents : List Event)
    (newEvent : Event) (temporalEnabled : Bool) (halfLifeSec : UInt64) :
    x.Advances (x.addEventIncremental priorEvents newEvent temporalEnabled halfLifeSec) := by
  unfold addEventIncremental
  split
  · exact .refl x
  · exact .of_succ rfl

theorem advances_applyNegativeSignal (x : CoOccurrenceIndex F) (removedId : Bytes)
    (contextEvents : List Event) (negativeWeight : UInt64) :
    x.Advances (x.applyNegativeSignal removedId contextEvents negativeWeight) := by
  unfold applyNegativeSignal
  split
  · exact .refl x
  · exact .of_succ rfl

theorem advances_applyIngestedEvent (x : CoOccurrenceIndex F) (priorEvents : List Event)
    (newEvent : Event) (options : IngestOptions) :
    x.Advances (x.applyIngestedEvent priorEvents newEvent options) := by
  unfold applyIngestedEvent
  dsimp only
  split
  · exact (advances_addEventIncremental x _ _ _ _).trans (advances_applyNegativeSignal _ _ _ _)
  · exact advances_addEventIncremental x _ _ _ _

theorem advances_applyDecay (x : CoOccurrenceIndex F) (alpha : UInt64) :
    x.Advances (x.applyDecay alpha) := by
  unfold applyDecay
  split
  · exact .refl x
  · split
    · split
      · exact .refl x
      · exact .of_succ rfl
    · exact .of_succ rfl

theorem advances_prune (x : CoOccurrenceIndex F) : x.Advances x.prune := .of_succ rfl

end CoOccurrenceIndex

end Index

/-- Whole numbers, which a `float` holds exactly while they are small. -/
instance exactFloats : FloatOps Int where
  zero := 0
  add := (· + ·)
  sub := (· - ·)
  mul := (· * ·)
  magnitude x := x.natAbs
  lt x y := decide (x < y)
  beq x y := decide (x = y)
  ofInt x := x
  ofDouble _ := 0
  scaled x _ := x
  decayFor _ _ := 1
  decayThreshold := 0

end Nvecd.Events
