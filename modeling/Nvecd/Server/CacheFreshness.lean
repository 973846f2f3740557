/-
  File:      Nvecd/Server/CacheFreshness.lean
  Subject:   Queries and writes on many connections, and the results that are answered from the
             cache (`HandleSim`, `HandleSimv` and the write handlers of
             `server/request_dispatcher.cpp`, the publication of `HandleDumpLoad`).

  A write has its steps one by one, with the serialization gate held; `DUMP LOAD` publishes with
  the snapshot gate held exclusively, when no query and no write is inside. A query captures the
  counters one after the other, looks its key up, reads the stores one after the other, and
  stores its result under the serialization gate.

  Beside the server runs a ledger of who has changed which store, and every reading remembers how
  much of it it has seen.

  * `World`, `World.step` -- the threads and their steps;
  * `ledgerStep` -- what a step of a write is in the ledger;
  * `Fresh` -- a hit rests on readings that have seen every write acknowledged before;
  * `World.Inv`, `inv_step` -- the invariant;
  * `cache_fresh` -- so every answer from the cache is fresh, in every interleaving.
-/
import Nvecd.Lib.Generations
import Nvecd.Lib.Machine
import Nvecd.Server.QueryParser
import Nvecd.Server.WriteSteps

namespace Nvecd.Server

open Nvecd.Lib Nvecd.Utils Nvecd.Storage Nvecd.Events Nvecd.Vectors Nvecd.Similarity Nvecd.Cache

/-! ## 1. Queries -/

/-- What has a generation counter of its own; the ANN index goes with the vectors. -/
inductive Part where
  | cooccurrence
  | vectors
  | metadata
  deriving DecidableEq, Repr

/-- What one reading finds. -/
inductive PartState (F A : Type) where
  | cooccurrence (x : CoOccurrenceIndex F)
  | vectors (vs : VectorStore)
  | index (engine : SimilarityEngine A)
  | metadata (ms : MetadataStore)

def PartState.part {F A : Type} : PartState F A → Part
  | .cooccurrence _ => .cooccurrence
  | .vectors _ => .vectors
  | .index _ => .vectors
  | .metadata _ => .metadata

/-- What a reading looks at. -/
inductive Source where
  | cooccurrence
  | vectors
  | index
  | metadata
  deriving DecidableEq, Repr

/-- A reading, with the number of changes of its part it has seen. -/
structure Reading (F A : Type) where
  state : PartState F A
  seen : Nat

inductive Query where
  | sim (cmd : SimCommand)
  | simv (cmd : SimvCommand)

/-- `SearchByVector` asks nothing of the co-occurrence index. -/
def Query.readsPart : Query → Part → Bool
  | .sim _, _ => true
  | .simv _, p => p ≠ .cooccurrence

/-- The parameters from which `HandleSimv` makes the key. -/
def SimvCommand.cacheKeyParams (cmd : SimvCommand) (g : Generations) : SimvCacheKeyParams where
  vector := cmd.vector
  topK := cmd.topK
  vectorGeneration := g.vectors
  filterExpr := cmd.filterExpr
  metadataGeneration := g.metadata
  datasetGeneration := g.dataset

/-- The items a result is registered under. -/
def Query.itemIds (results : List SimilarityResult) : Query → List Bytes
  | .sim cmd => cmd.id :: results.map (·.itemId)
  | .simv _ => results.map (·.itemId)

/-- Where a query is. -/
inductive QueryPc where
  /-- The request has come, the snapshot gate is not held. -/
  | begun
  | entered
  | gotCooccurrence
  | gotVectors
  | gotMetadata
  /-- The key is complete. -/
  | keyed
  | searching
  | finished
  deriving DecidableEq, Repr

/-- A query under way. The last three are not of the program: the writes acknowledged when it
    began, how many changes they amount to, and the data set it runs on. -/
structure QueryRun (F A : Type) where
  query : Query
  pc : QueryPc := .begun
  cacheEnabled : Bool := false
  captured : Part → Option Nat := fun _ => none
  dataset : Option Nat := none
  readings : List (Reading F A) := []
  acked : List Nat
  owed : Part → Nat
  epoch : Nat

/-- What queries take from outside: the digest that makes keys, and the search, as a function of
    what has been read. -/
structure QueryEnv (F A κ : Type) [DecidableEq κ] extends ServerEnv κ where
  cacheKey : SimCacheKeyParams ⊕ SimvCacheKeyParams → κ
  search : Query → List (PartState F A) → Option (List SimilarityResult)

namespace QueryRun

variable {F A κ : Type} [DecidableEq κ]

/-- Whether the snapshot gate is held. -/
def inside (q : QueryRun F A) : Bool := q.pc ≠ .begun && q.pc ≠ .finished

/-- The counters as captured. -/
def generations (q : QueryRun F A) : Generations where
  cooccurrence := (q.captured .cooccurrence).getD 0
  vectors := (q.captured .vectors).getD 0
  metadata := (q.captured .metadata).getD 0
  dataset := q.dataset.getD 0

def keyParams (q : QueryRun F A) : SimCacheKeyParams ⊕ SimvCacheKeyParams :=
  match q.query with
  | .sim cmd => .inl (cmd.cacheKeyParams q.generations)
  | .simv cmd => .inr (cmd.cacheKeyParams q.generations)

/-- `GenerateSimCacheKey`, `GenerateSimvCacheKey`. -/
def key (env : QueryEnv F A κ) (q : QueryRun F A) : κ := env.cacheKey q.keyParams

def results (env : QueryEnv F A κ) (q : QueryRun F A) : Option (List SimilarityResult) :=
  env.search q.query (q.readings.map (·.state))

def view (q : QueryRun F A) : Lib.View Part where
  epoch := q.epoch
  captured := q.captured
  reads := q.readings.map fun r => (r.state.part, r.seen)

end QueryRun

/-! ## 2. The world -/

/-- A write under way, with the steps it still has to do. -/
structure Writer (F A : Type) where
  ticket : Nat
  todo : List (HandlerStep F A)
  ok : Bool

/-- An answer from the cache: the query, the one that stored the result, and the result. -/
structure Hit (F A : Type) where
  run : QueryRun F A
  origin : Option (QueryRun F A)
  results : List SimilarityResult

/-- The server with the threads at work. `writer` holds the serialization gate; behind it stands
    what is not of the program. -/
structure World (F A κ : Type) [DecidableEq κ] where
  sc : ServerContext F A κ
  /-- The lock of the co-occurrence index. -/
  coLocked : Bool := false
  writer : Option (Writer F A) := none
  queries : List (QueryRun F A) := []
  ledger : Ledger Part
  tickets : Nat := 0
  acked : List Nat := []
  /-- Which query has stored the result under a key. -/
  origin : κ → Option (QueryRun F A) := fun _ => none
  hits : List (Hit F A) := []

/-- The counters of a server. -/
def ServerContext.counter {F A κ : Type} [DecidableEq κ] (sc : ServerContext F A κ) : Part → Nat
  | .cooccurrence => sc.stores.coIndex.generation
  | .vectors => sc.vectorGeneration
  | .metadata => sc.metadataGeneration

/-- A server that has just been started. -/
def World.start {F A κ : Type} [DecidableEq κ] (sc : ServerContext F A κ) : World F A κ where
  sc := sc
  ledger := { generation := sc.counter, epoch := sc.datasetGeneration }

inductive WorldAction (F : Type) where
  | write (clocks : EventClocks) (io : WalIo) (cmd : Command)
  | decay (io : WalIo) (prune : Bool)
  | writerStep
  | writerEnd
  /-- `DUMP LOAD` of a file that has been read into `staged`; `ok` says that it is acknowledged. -/
  | load (staged : Stores F) (ok : Bool)
  | begin (query : Query)
  | enter (i : Nat)
  | capture (i : Nat)
  | lookup (i now ttlSeconds : Nat)
  | read (i : Nat) (source : Source)
  | insert (i now later : Nat) (cheap : Bool) (ttlSeconds : Nat)
  | finish (i : Nat)

/-- What a step of the write `t` is in the ledger. -/
def ledgerStep {F A : Type} (t : Nat) (L : Ledger Part) : HandlerStep F A → Ledger Part
  | .enterCo => L.close .cooccurrence
  | .bumpCo => L.bump .cooccurrence
  | .leaveCo _ => L.reopen .cooccurrence t
  | .vectors _ => L.change .vectors t
  | .index _ => L.change .vectors t
  | .metadata _ => L.change .metadata t
  | .bumpVectors => L.bump .vectors
  | .bumpMetadata => L.bump .metadata
  | _ => L

/-- The lock of the index after a step. -/
def lockStep {F A : Type} (locked : Bool) : HandlerStep F A → Bool
  | .enterCo => true
  | .leaveCo _ => false
  | _ => locked

section World

variable {F A κ : Type} [DecidableEq κ] (env : QueryEnv F A κ)

/-- What a source holds now. -/
def ServerContext.look (sc : ServerContext F A κ) : Source → PartState F A
  | .cooccurrence => .cooccurrence sc.stores.coIndex
  | .vectors => .vectors sc.stores.vectorStore
  | .index => .index sc.engine
  | .metadata => .metadata sc.stores.metadataStore

namespace World

def setQuery (w : World F A κ) (i : Nat) (q : QueryRun F A) : World F A κ :=
  { w with queries := w.queries.set i q }

/-- A write begins, with the serialization gate. -/
def startWriter (w : World F A κ) (todo : List (HandlerStep F A)) (ok : Bool) : World F A κ :=
  { w with writer := some ⟨w.tickets, todo, ok⟩, tickets := w.tickets + 1 }

/-- The next counter is loaded. `SIMV` has no use for that of the co-occurrence index. -/
def captureNext (w : World F A κ) (q : QueryRun F A) : Option (QueryRun F A) :=
  match q.pc, q.query with
  | .entered, .sim _ => some { q with
      pc := .gotCooccurrence
      captured := Function.update q.captured .cooccurrence (some w.sc.stores.coIndex.generation) }
  | .entered, .simv _ => some { q with pc := .gotCooccurrence }
  | .gotCooccurrence, _ => some { q with
      pc := .gotVectors
      captured := Function.update q.captured .vectors (some w.sc.vectorGeneration) }
  | .gotVectors, _ => some { q with
      pc := .gotMetadata
      captured := Function.update q.captured .metadata (some w.sc.metadataGeneration) }
  | .gotMetadata, _ => some { q with pc := .keyed, dataset := some w.sc.datasetGeneration }
  | _, _ => none

/-- The counters are as captured. -/
def unchangedFor (w : World F A κ) (q : QueryRun F A) : Bool :=
  (match q.query with
    | .sim _ => q.captured .cooccurrence = some w.sc.stores.coIndex.generation
    | .simv _ => true) &&
    q.captured .vectors = some w.sc.vectorGeneration &&
    q.captured .metadata = some w.sc.metadataGeneration && q.dataset = some w.sc.datasetGeneration

/-- The end of a query that has searched, under the serialization gate. -/
def storeResult (w : World F A κ) (i : Nat) (q : QueryRun F A) (results : List SimilarityResult)
    (now later : Nat) (cheap : Bool) (ttlSeconds : Nat) : World F A κ :=
  let w := w.setQuery i { q with pc := .finished }
  if w.sc.cachePublished ∧ w.sc.cache.enabled ∧ w.unchangedFor q then
    let cache := (w.sc.cache.insertWithTtl env.cache now later (q.key env) results cheap ttlSeconds
      (some (q.query.itemIds results))).1
    { w with
      sc := { w.sc with cache := cache }
      origin := if (w.sc.cache.dataOf (q.key env)).isSome then w.origin
        else Function.update w.origin (q.key env) (some q) }
  else w

variable [FloatOps F] [AnnIndex A]

/-- **One step** of one thread. -/
def step (w : World F A κ) : WorldAction F → Option (World F A κ)
  | .write clocks io cmd =>
    if w.writer.isSome then none
    else
      let (todo, result) := writeSteps env.toServerEnv w.sc clocks io cmd
      some (w.startWriter todo result.isOk)
  | .decay io prune =>
    if w.writer.isSome then none
    else
      let (todo, result) := decaySteps env.toServerEnv w.sc io prune
      some (w.startWriter todo result.isOk)
  | .writerStep =>
    match w.writer with
    | some ⟨ticket, s :: todo, ok⟩ =>
      some { w with
        sc := runStep env.toServerEnv w.sc s
        coLocked := lockStep w.coLocked s
        writer := some ⟨ticket, todo, ok⟩
        ledger := ledgerStep ticket w.ledger s }
    | _ => none
  | .writerEnd =>
    match w.writer with
    | some ⟨ticket, [], ok⟩ =>
      some { w with writer := none, acked := if ok then ticket :: w.acked else w.acked }
    | _ => none
  | .load staged ok =>
    if w.writer.isSome ∨ w.queries.any (·.inside) then none
    else
      let sc := publishLoaded w.sc staged
      some { w with
        sc := sc
        ledger := w.ledger.replace w.tickets sc.counter
        tickets := w.tickets + 1
        acked := if ok then w.tickets :: w.acked else w.acked }
  | .begin query =>
    some { w with queries := w.queries ++ [{
      query := query, acked := w.acked, owed := w.ledger.settled, epoch := w.ledger.epoch }] }
  | .enter i =>
    match w.queries[i]? with
    | none => none
    | some q =>
      if q.pc ≠ .begun then none
      else
        let enabled := w.sc.cachePublished && w.sc.cache.enabled
        some (w.setQuery i { q with
          pc := if enabled then .entered else .searching
          cacheEnabled := enabled
          epoch := w.ledger.epoch })
  | .capture i =>
    match w.queries[i]? with
    | none => none
    | some q => (w.captureNext q).map (w.setQuery i)
  | .lookup i now ttlSeconds =>
    match w.queries[i]? with
    | none => none
    | some q =>
      if q.pc ≠ .keyed then none
      else
        let (cache, found) := w.sc.cache.lookupWithTtl env.cache now (q.key env) ttlSeconds
        let w := { w with sc := { w.sc with cache := cache } }
        match found with
        | none => some (w.setQuery i { q with pc := .searching })
        | some results =>
          let w := w.setQuery i { q with pc := .finished }
          some { w with hits := ⟨q, w.origin (q.key env), results⟩ :: w.hits }
  | .read i source =>
    match w.queries[i]? with
    | none => none
    | some q =>
      let state := w.sc.look source
      if q.pc ≠ .searching ∨ ¬ q.query.readsPart state.part ∨
          state.part = .cooccurrence ∧ w.coLocked then none
      else
        let reading : Reading F A := ⟨state, (w.ledger.changes state.part).length⟩
        some (w.setQuery i { q with readings := reading :: q.readings })
  | .insert i now later cheap ttlSeconds =>
    match w.queries[i]? with
    | none => none
    | some q =>
      if q.pc ≠ .searching ∨ ¬ q.cacheEnabled ∨ w.writer.isSome then none
      else
        match q.results env with
        | none => some (w.setQuery i { q with pc := .finished })
        | some results => some (w.storeResult env i q results now later cheap ttlSeconds)
  | .finish i =>
    match w.queries[i]? with
    | none => none
    | some q => some (w.setQuery i { q with pc := .finished })

end World

end World

/-! ## 3. The ledger along a write -/

section Ledger

variable {F A : Type} {L : Ledger Part} {t : Nat}

/-- A part that is opened again has had its counter raised. -/
def StepOk (L : Ledger Part) : HandlerStep F A → Prop
  | .leaveCo _ => ∃ n, L.closed .cooccurrence = some n ∧ n < L.generation .cooccurrence
  | _ => True

theorem inv_ledgerStep (h : L.Inv) (s : HandlerStep F A) : (ledgerStep t L s).Inv := by
  cases s with
  | enterCo => exact h.close _
  | bumpCo => exact h.bump _
  | leaveCo co => exact h.reopen _ t
  | vectors vs => exact h.change _ t
  | index engine => exact h.change _ t
  | metadata ms => exact h.change _ t
  | bumpVectors => exact h.bump _
  | bumpMetadata => exact h.bump _
  | log wal readOnly => exact h
  | events es => exact h
  | invalidate id => exact h
  | clearCache => exact h

theorem valid_ledgerStep {V : Lib.View Part} (h : V.Valid L) {s : HandlerStep F A}
    (hok : StepOk L s) : V.Valid (ledgerStep t L s) := by
  cases s with
  | enterCo => exact h.close _
  | bumpCo => exact h.bump _
  | leaveCo co =>
    obtain ⟨n, hclosed, hraised⟩ := hok
    exact h.reopen hclosed hraised t
  | vectors vs => exact h.change _ t
  | index engine => exact h.change _ t
  | metadata ms => exact h.change _ t
  | bumpVectors => exact h.bump _
  | bumpMetadata => exact h.bump _
  | log wal readOnly => exact h
  | events es => exact h
  | invalidate id => exact h
  | clearCache => exact h

theorem le_ledgerStep (h : L.Inv) (s : HandlerStep F A) : L.Le (ledgerStep t L s) := by
  cases s with
  | enterCo => exact ⟨fun _ => Nat.le_refl _, fun _ _ => Nat.le_refl _⟩
  | bumpCo => exact Ledger.le_bump h _
  | leaveCo co => exact Ledger.le_reopen h _ t
  | vectors vs => exact ⟨fun _ => Nat.le_refl _, fun _ _ => Nat.le_refl _⟩
  | index engine => exact ⟨fun _ => Nat.le_refl _, fun _ _ => Nat.le_refl _⟩
  | metadata ms => exact ⟨fun _ => Nat.le_refl _, fun _ _ => Nat.le_refl _⟩
  | bumpVectors => exact Ledger.le_bump h _
  | bumpMetadata => exact Ledger.le_bump h _
  | log wal readOnly => exact .refl L
  | events es => exact .refl L
  | invalidate id => exact .refl L
  | clearCache => exact .refl L

theorem epoch_ledgerStep (s : HandlerStep F A) : (ledgerStep t L s).epoch = L.epoch := by
  cases s <;> rfl

/-- A step adds at most one change, by the write itself. -/
theorem changes_ledgerStep (s : HandlerStep F A) (p : Part) :
    (ledgerStep t L s).changes p = L.changes p ∨
      (ledgerStep t L s).changes p = L.changes p ++ [t] := by
  have hchange : ∀ q, (L.change q t).changes p = L.changes p ∨
      (L.change q t).changes p = L.changes p ++ [t] := by
    intro q
    by_cases hq : p = q
    · subst hq
      exact .inr (Function.update_self _ _ _)
    · exact .inl (Function.update_of_ne hq _ _)
  cases s with
  | leaveCo co => exact hchange .cooccurrence
  | vectors vs => exact hchange .vectors
  | index engine => exact hchange .vectors
  | metadata ms => exact hchange .metadata
  | enterCo => exact .inl rfl
  | bumpCo => exact .inl rfl
  | bumpVectors => exact .inl rfl
  | bumpMetadata => exact .inl rfl
  | log wal readOnly => exact .inl rfl
  | events es => exact .inl rfl
  | invalidate id => exact .inl rfl
  | clearCache => exact .inl rfl

theorem onlyPending_ledgerStep (h : OnlyPending L t) (hL : L.Inv) (s : HandlerStep F A) :
    OnlyPending (ledgerStep t L s) t :=
  h.append (le_ledgerStep hL s) (changes_ledgerStep s)

end Ledger

/-! ## 4. The invariant -/

section Invariant

variable {F A κ : Type} [DecidableEq κ]

/-- All counters the key needs are captured, and the data set is the one the query runs on. -/
structure QueryRun.Complete (q : QueryRun F A) : Prop where
  captured : ∀ p, q.query.readsPart p = true → (q.captured p).isSome
  dataset : q.dataset = some q.epoch

/-- The counters that a query has captured where it is. -/
def QueryRun.Progress (q : QueryRun F A) : Prop :=
  match q.pc with
  | .begun => ∀ p, q.captured p = none
  | .entered => True
  | .gotCooccurrence => q.query.readsPart .cooccurrence = true → (q.captured .cooccurrence).isSome
  | .gotVectors =>
    (q.query.readsPart .cooccurrence = true → (q.captured .cooccurrence).isSome) ∧
      (q.captured .vectors).isSome
  | .gotMetadata => ∀ p, q.query.readsPart p = true → (q.captured p).isSome
  | .keyed => q.Complete
  | .searching => q.cacheEnabled = true → q.Complete
  | .finished => True

/-- **The invariant of a query.** -/
structure QueryInv (L : Ledger Part) (acked : List Nat) (q : QueryRun F A) : Prop where
  subset : q.acked ⊆ acked
  within : Within L q.acked q.owed
  owes : Owes L q.view q.owed
  valid : q.view.Valid L
  epoch : q.inside = true → q.epoch = L.epoch
  unread : q.pc ≠ .searching → q.pc ≠ .finished → q.readings = []
  parts : ∀ r ∈ q.readings, q.query.readsPart r.state.part = true
  progress : q.Progress

/-- **The invariant of a write.** -/
structure WriterInv (L : Ledger Part) (acked : List Nat) (tickets : Nat) (wr : Writer F A) :
    Prop where
  discipline : ∃ v m, (v = false → L.settled .vectors = (L.changes .vectors).length) ∧
    (m = false → L.settled .metadata = (L.changes .metadata).length) ∧
    Disciplined v m (L.closed .cooccurrence) (L.generation .cooccurrence) wr.todo
  fresh : wr.ticket ∉ acked
  pending : OnlyPending L wr.ticket
  lt : wr.ticket < tickets

/-- What the query that stored the data under a key has done. -/
structure CachedFor (env : QueryEnv F A κ) (L : Ledger Part) (o : QueryRun F A) (key : κ)
    (data : Bytes) : Prop where
  key : o.key env = key
  complete : o.Complete
  valid : o.view.Valid L
  parts : ∀ r ∈ o.readings, o.query.readsPart r.state.part = true
  data : ∃ results, o.results env = some results ∧ env.cache.compress results = some data

/-- **A fresh answer**: the result was computed, for a query with the same key, from readings
    that have seen every change by a write acknowledged before the query began. -/
structure Fresh (env : QueryEnv F A κ) (L : Ledger Part) (h : Hit F A) (o : QueryRun F A) :
    Prop where
  origin : h.origin = some o
  params : o.keyParams = h.run.keyParams
  data : ∃ computed data, o.results env = some computed ∧
    env.cache.compress computed = some data ∧ env.cache.decompress data = some h.results
  seen : ∀ r ∈ o.readings, ∀ t ∈ h.run.acked, ∀ i,
    (L.changes r.state.part)[i]? = some t → i < r.seen

/-- **The invariant.** -/
structure World.Inv (env : QueryEnv F A κ) (w : World F A κ) : Prop where
  ledger : w.ledger.Inv
  counters : w.ledger.generation = w.sc.counter
  dataset : w.ledger.epoch = w.sc.datasetGeneration
  unlocked : w.coLocked = false → w.ledger.closed .cooccurrence = none
  opened : w.ledger.closed .vectors = none ∧ w.ledger.closed .metadata = none
  cooccurrence : w.ledger.settled .cooccurrence = (w.ledger.changes .cooccurrence).length
  writer : ∀ wr, w.writer = some wr → WriterInv w.ledger w.acked w.tickets wr
  idle : w.writer = none → w.ledger.closed .cooccurrence = none ∧
    ∀ p, w.ledger.settled p = (w.ledger.changes p).length
  acked : ∀ t ∈ w.acked, t < w.tickets
  queries : ∀ q ∈ w.queries, QueryInv w.ledger w.acked q
  cache : ∀ key data, w.sc.cache.dataOf key = some data →
    ∃ o, w.origin key = some o ∧ CachedFor env w.ledger o key data
  hits : ∀ h ∈ w.hits, h.run.acked ⊆ w.acked ∧ ∃ o, Fresh env w.ledger h o

variable {env : QueryEnv F A κ} {w : World F A κ}

/-- **The discipline is kept**, and lets a part be opened only with its counter raised. -/
theorem WriterInv.step {L : Ledger Part} {t : Nat} {acked : List Nat} {tickets : Nat} {s : HandlerStep F A}
    {todo : List (HandlerStep F A)} {ok : Bool} (hL : L.Inv)
    (h : WriterInv L acked tickets ⟨t, s :: todo, ok⟩) :
    StepOk L s ∧ WriterInv (ledgerStep t L s) acked tickets ⟨t, todo, ok⟩ := by
  obtain ⟨v, m, hv, hm, hd⟩ := h.discipline
  have hkeep : ∀ {v' m' : Bool},
      (v' = false → (ledgerStep t L s).settled .vectors =
        ((ledgerStep t L s).changes .vectors).length) →
      (m' = false → (ledgerStep t L s).settled .metadata =
        ((ledgerStep t L s).changes .metadata).length) →
      Disciplined v' m' ((ledgerStep t L s).closed .cooccurrence)
        ((ledgerStep t L s).generation .cooccurrence) todo →
      WriterInv (ledgerStep t L s) acked tickets ⟨t, todo, ok⟩ :=
    fun hv' hm' hd' => ⟨⟨_, _, hv', hm', hd'⟩, h.fresh, onlyPending_ledgerStep h.pending hL s, h.lt⟩
  cases s with
  | log wal readOnly => exact ⟨trivial, hkeep hv hm hd⟩
  | events es => exact ⟨trivial, hkeep hv hm hd⟩
  | invalidate id => exact ⟨trivial, hkeep hv hm hd⟩
  | clearCache => exact ⟨trivial, hkeep hv hm hd⟩
  | enterCo =>
    refine ⟨trivial, hkeep hv hm ?_⟩
    exact hd.2
  | bumpCo =>
    refine ⟨trivial, hkeep hv hm ?_⟩
    exact hd.2
  | leaveCo co =>
    obtain ⟨hclosed, hgen, hd⟩ := hd
    exact ⟨hclosed, hkeep hv hm hd⟩
  | vectors vs => exact ⟨trivial, hkeep (nofun : true = false → _) hm hd⟩
  | index engine => exact ⟨trivial, hkeep (nofun : true = false → _) hm hd⟩
  | metadata ms => exact ⟨trivial, hkeep hv (nofun : true = false → _) hd⟩
  | bumpVectors => exact ⟨trivial, hkeep (fun _ => rfl) hm hd⟩
  | bumpMetadata => exact ⟨trivial, hkeep hv (fun _ => rfl) hd⟩

/-- What stays of a query when only the ledger goes on. -/
theorem QueryInv.frame {L L' : Ledger Part} {acked acked' : List Nat} {q : QueryRun F A}
    (h : QueryInv L acked q) (hsub : acked ⊆ acked') (hle : L.Le L') (hvalid : q.view.Valid L')
    (hepoch : q.inside = true → L'.epoch = L.epoch) (hwithin : Within L' q.acked q.owed) :
    QueryInv L' acked' q where
  subset := fun _ ht => hsub (h.subset ht)
  within := hwithin
  owes := h.owes.mono hle
  valid := hvalid
  epoch hin := (h.epoch hin).trans (hepoch hin).symm
  unread := h.unread
  parts := h.parts
  progress := h.progress

theorem Fresh.append {L L' : Ledger Part} {h : Hit F A} {o : QueryRun F A} {t : Nat}
    (hf : Fresh env L h o) (ht : t ∉ h.run.acked)
    (hchanges : ∀ p, L'.changes p = L.changes p ∨ L'.changes p = L.changes p ++ [t]) :
    Fresh env L' h o := by
  refine ⟨hf.origin, hf.params, hf.data, fun r hr u hu i hi => ?_⟩
  refine hf.seen r hr u hu i (Ledger.getElem?_changes_of_ne (hchanges _) hi ?_)
  rintro rfl
  exact ht hu

theorem CachedFor.frame {L L' : Ledger Part} {o : QueryRun F A} {key : κ} {data : Bytes}
    (h : CachedFor env L o key data) (hvalid : o.view.Valid L') : CachedFor env L' o key data :=
  ⟨h.key, h.complete, hvalid, h.parts, h.data⟩

/-! ## 5. Writes -/

theorem World.Inv.start (sc : ServerContext F A κ) (hempty : sc.cache.tables.cacheMap = .empty) :
    (World.start sc).Inv env := by
  constructor
  case ledger => exact Ledger.inv_new _ _
  case counters => rfl
  case dataset => rfl
  case unlocked => exact fun _ => rfl
  case opened => exact ⟨rfl, rfl⟩
  case cooccurrence => rfl
  case writer =>
    intro wr hwr
    cases hwr
  case idle => exact fun _ => ⟨rfl, fun _ => rfl⟩
  case acked =>
    intro t ht
    cases ht
  case queries =>
    intro q hq
    cases hq
  case cache =>
    intro key data hd
    simp only [World.start, SimilarityCache.dataOf, hempty, AssocMap.find?_empty] at hd
    cases hd
  case hits =>
    intro hit hhit
    cases hhit

/-- A write begins: it is disciplined, and has a ticket that nobody had. -/
theorem World.Inv.startWriter (h : w.Inv env) (hw : w.writer = none)
    {todo : List (HandlerStep F A)} {ok : Bool}
    (hd : Disciplined false false none w.sc.stores.coIndex.generation todo) :
    (w.startWriter todo ok).Inv env := by
  obtain ⟨hclosed, hsettled⟩ := h.idle hw
  have hgen : w.ledger.generation .cooccurrence = w.sc.stores.coIndex.generation := by
    rw [h.counters]
    rfl
  have hpending : OnlyPending w.ledger w.tickets := by
    intro p i t hi ht
    obtain ⟨hlt, -⟩ := List.getElem?_eq_some_iff.mp ht
    rw [hsettled p] at hi
    omega
  have hfresh : w.tickets ∉ w.acked := fun hin => Nat.lt_irrefl _ (h.acked _ hin)
  exact { h with
    writer := by
      intro wr hwr
      cases hwr
      refine ⟨⟨false, false, fun _ => hsettled _, fun _ => hsettled _, ?_⟩, hfresh, hpending,
        Nat.lt_succ_self _⟩
      show Disciplined false false (w.ledger.closed .cooccurrence)
        (w.ledger.generation .cooccurrence) todo
      rw [hclosed, hgen]
      exact hd
    idle := nofun
    acked := fun t ht => Nat.lt_succ_of_lt (h.acked t ht) }

theorem counter_runStep {env : ServerEnv κ} {sc : ServerContext F A κ} {L : Ledger Part} {t : Nat}
    {s : HandlerStep F A} (h : L.generation = sc.counter)
    (hleave : ∀ co, s = .leaveCo co → co.generation = L.generation .cooccurrence) :
    (ledgerStep t L s).generation = (runStep env sc s).counter := by
  have hcache : ∀ f : SimilarityCache κ → SimilarityCache κ,
      (sc.updateCache f).counter = sc.counter := by
    intro f
    unfold ServerContext.updateCache
    split <;> rfl
  funext p
  have hp := congrFun h p
  cases s with
  | leaveCo co =>
    have hco := hleave co rfl
    cases p with
    | cooccurrence => exact hco.symm
    | vectors => exact hp
    | metadata => exact hp
  | bumpCo =>
    cases p with
    | cooccurrence => exact congrArg (· + 1) hp
    | vectors => exact hp
    | metadata => exact hp
  | bumpVectors =>
    cases p with
    | cooccurrence => exact hp
    | vectors => exact congrArg (· + 1) hp
    | metadata => exact hp
  | bumpMetadata =>
    cases p with
    | cooccurrence => exact hp
    | vectors => exact hp
    | metadata => exact congrArg (· + 1) hp
  | invalidate id => exact hp.trans (congrFun (hcache _) p).symm
  | clearCache => exact hp.trans (congrFun (hcache _) p).symm
  | log wal readOnly => cases p <;> exact hp
  | events es => cases p <;> exact hp
  | enterCo => cases p <;> exact hp
  | vectors vs => cases p <;> exact hp
  | index engine => cases p <;> exact hp
  | metadata ms => cases p <;> exact hp

theorem datasetGeneration_runStep (env : ServerEnv κ) (sc : ServerContext F A κ)
    (s : HandlerStep F A) : (runStep env sc s).datasetGeneration = sc.datasetGeneration := by
  cases s <;> first | rfl | (simp only [runStep, ServerContext.updateCache]; split <;> rfl)

/-- No step of a write puts anything into the cache. -/
theorem fewer_runStep (env : ServerEnv κ) (sc : ServerContext F A κ) (s : HandlerStep F A) :
    sc.cache.Fewer (runStep env sc s).cache := by
  have hcache : ∀ f : SimilarityCache κ → SimilarityCache κ, (∀ c, SimilarityCache.Fewer c (f c)) →
      sc.cache.Fewer (sc.updateCache f).cache := by
    intro f hf
    unfold ServerContext.updateCache
    split
    · exact hf _
    · exact .refl _
  cases s with
  | invalidate id => exact hcache _ fun c => SimilarityCache.fewer_invalidateByItemId c id
  | clearCache => exact hcache _ fun c => SimilarityCache.fewer_clear c
  | log wal readOnly => exact .refl _
  | events es => exact .refl _
  | enterCo => exact .refl _
  | bumpCo => exact .refl _
  | leaveCo co => exact .refl _
  | vectors vs => exact .refl _
  | index engine => exact .refl _
  | metadata ms => exact .refl _
  | bumpVectors => exact .refl _
  | bumpMetadata => exact .refl _

/-- **A step of a write.** -/
theorem World.Inv.writerStep (h : w.Inv env) {t : Nat} {s : HandlerStep F A}
    {todo : List (HandlerStep F A)} {ok : Bool} (hw : w.writer = some ⟨t, s :: todo, ok⟩) :
    World.Inv env { w with
      sc := runStep env.toServerEnv w.sc s
      coLocked := lockStep w.coLocked s
      writer := some ⟨t, todo, ok⟩
      ledger := ledgerStep t w.ledger s } := by
  have hwr := h.writer _ hw
  obtain ⟨hok, hnext⟩ := hwr.step h.ledger
  have hchanges := changes_ledgerStep (t := t) (L := w.ledger) s
  have hle := le_ledgerStep (t := t) h.ledger s
  have hleave : ∀ co, s = .leaveCo co → co.generation = w.ledger.generation .cooccurrence := by
    rintro co rfl
    obtain ⟨v, m, -, -, hd⟩ := hwr.discipline
    exact hd.2.1
  constructor
  case ledger => exact inv_ledgerStep h.ledger s
  case counters => exact counter_runStep h.counters hleave
  case dataset => exact (epoch_ledgerStep s).trans (h.dataset.trans (datasetGeneration_runStep _ _ s).symm)
  case unlocked =>
    intro hlock
    cases s with
    | enterCo => cases hlock
    | leaveCo co => rfl
    | _ => exact h.unlocked hlock
  case opened =>
    cases s <;> exact h.opened
  case cooccurrence =>
    cases s with
    | bumpCo => rfl
    | leaveCo co => rfl
    | _ => exact h.cooccurrence
  case writer =>
    intro wr hwr'
    cases hwr'
    exact hnext
  case idle => exact nofun
  case acked => exact h.acked
  case queries =>
    intro q hq
    have hqi := h.queries q hq
    refine hqi.frame (fun _ ht => ht) hle (valid_ledgerStep hqi.valid hok)
      (fun _ => epoch_ledgerStep s) ?_
    exact hqi.within.append (fun hin => hwr.fresh (hqi.subset hin)) hchanges
  case cache =>
    intro key data hd
    obtain ⟨o, ho, hstored⟩ := h.cache key data (fewer_runStep _ _ s key data hd)
    exact ⟨o, ho, hstored.frame (valid_ledgerStep hstored.valid hok)⟩
  case hits =>
    intro hit hhit
    obtain ⟨hsub, o, hfresh⟩ := h.hits hit hhit
    exact ⟨hsub, o, hfresh.append (fun hin => hwr.fresh (hsub hin)) hchanges⟩

/-- The end of a write: all it has changed is settled, so it may be acknowledged. -/
theorem World.Inv.writerEnd (h : w.Inv env) {t : Nat} {ok : Bool}
    (hw : w.writer = some ⟨t, [], ok⟩) :
    World.Inv env { w with
      writer := none
      acked := if ok then t :: w.acked else w.acked } := by
  have hwr := h.writer _ hw
  obtain ⟨v, m, hv, hm, rfl, rfl, hclosed⟩ := hwr.discipline
  have hsub : w.acked ⊆ if ok then t :: w.acked else w.acked := by
    intro u hu
    cases ok with
    | false => exact hu
    | true => exact List.mem_cons_of_mem _ hu
  refine { h with
    writer := nofun, idle := fun _ => ⟨hclosed, fun p => ?_⟩, acked := fun u hu => ?_
    queries := fun q hq => ?_, hits := fun hit hhit => ?_ }
  · cases p with
    | cooccurrence => exact h.cooccurrence
    | vectors => exact hv rfl
    | metadata => exact hm rfl
  · cases ok with
    | false => exact h.acked u hu
    | true =>
      rcases List.mem_cons.mp hu with rfl | hu
      · exact hwr.lt
      · exact h.acked u hu
  · have hqi := h.queries q hq
    exact hqi.frame hsub (.refl _) hqi.valid (fun _ => rfl) hqi.within
  · obtain ⟨hacked, o, hfresh⟩ := h.hits hit hhit
    exact ⟨fun _ hu => hsub (hacked hu), o, hfresh⟩

theorem cache_publishLoaded [AnnIndex A] (sc : ServerContext F A κ) (staged : Stores F) :
    sc.cache.Fewer (publishLoaded sc staged).cache := by
  unfold publishLoaded ServerContext.updateCache
  dsimp only
  split
  · exact SimilarityCache.fewer_clear _
  · exact .refl _

theorem datasetGeneration_publishLoaded [AnnIndex A] (sc : ServerContext F A κ)
    (staged : Stores F) :
    (publishLoaded sc staged).datasetGeneration = sc.datasetGeneration + 1 := by
  unfold publishLoaded ServerContext.updateCache
  dsimp only
  split <;> rfl

/-- **The publication of `DUMP LOAD`**, with nobody inside. -/
theorem World.Inv.load [AnnIndex A] (h : w.Inv env) (hw : w.writer = none)
    (hout : ∀ q ∈ w.queries, q.inside = false) (staged : Stores F) (ok : Bool) :
    World.Inv env { w with
      sc := publishLoaded w.sc staged
      ledger := w.ledger.replace w.tickets (publishLoaded w.sc staged).counter
      tickets := w.tickets + 1
      acked := if ok then w.tickets :: w.acked else w.acked } := by
  obtain ⟨hclosed, -⟩ := h.idle hw
  have hopen : ∀ p, w.ledger.closed p = none := by
    intro p
    cases p with
    | cooccurrence => exact hclosed
    | vectors => exact h.opened.1
    | metadata => exact h.opened.2
  have hfresh : w.tickets ∉ w.acked := fun hin => Nat.lt_irrefl _ (h.acked _ hin)
  have hsub : w.acked ⊆ if ok then w.tickets :: w.acked else w.acked := by
    intro u hu
    cases ok with
    | false => exact hu
    | true => exact List.mem_cons_of_mem _ hu
  have hchanges : ∀ p, (w.ledger.replace w.tickets (publishLoaded w.sc staged).counter).changes p =
        w.ledger.changes p ∨
      (w.ledger.replace w.tickets (publishLoaded w.sc staged).counter).changes p =
        w.ledger.changes p ++ [w.tickets] := fun _ => .inr rfl
  have hlen : ∀ p, (w.ledger.replace w.tickets (publishLoaded w.sc staged).counter).settled p =
      ((w.ledger.replace w.tickets (publishLoaded w.sc staged).counter).changes p).length := by
    intro p
    simp [Ledger.replace]
  constructor
  case ledger => exact h.ledger.replace _ hopen
  case counters => rfl
  case dataset =>
    exact (congrArg (· + 1) h.dataset).trans (datasetGeneration_publishLoaded _ _).symm
  case unlocked => exact h.unlocked
  case opened => exact h.opened
  case cooccurrence => exact hlen _
  case writer =>
    intro wr hwr
    simp only [hw] at hwr
    cases hwr
  case idle => exact fun _ => ⟨hclosed, hlen⟩
  case acked =>
    intro u hu
    cases ok with
    | false => exact Nat.lt_succ_of_lt (h.acked u hu)
    | true =>
      rcases List.mem_cons.mp hu with rfl | hu
      · exact Nat.lt_succ_self _
      · exact Nat.lt_succ_of_lt (h.acked u hu)
  case queries =>
    intro q hq
    have hqi := h.queries q hq
    refine hqi.frame hsub (Ledger.le_replace h.ledger _ _) (hqi.valid.replace _ _) ?_ ?_
    · intro hin
      rw [hout q hq] at hin
      cases hin
    · exact hqi.within.append (fun hin => hfresh (hqi.subset hin)) hchanges
  case cache =>
    intro key data hd
    obtain ⟨o, ho, hstored⟩ := h.cache key data (cache_publishLoaded _ _ key data hd)
    exact ⟨o, ho, hstored.frame (hstored.valid.replace _ _)⟩
  case hits =>
    intro hit hhit
    obtain ⟨hacked, o, hf⟩ := h.hits hit hhit
    exact ⟨fun _ hu => hsub (hacked hu), o,
      hf.append (fun hin => hfresh (hacked hin)) hchanges⟩

/-! ## 6. Queries -/

theorem World.Inv.setQuery (h : w.Inv env) (i : Nat) {q : QueryRun F A}
    (hq : QueryInv w.ledger w.acked q) : (w.setQuery i q).Inv env :=
  { h with
    queries := by
      intro q' hq'
      rcases List.mem_or_eq_of_mem_set hq' with hin | rfl
      · exact h.queries q' hin
      · exact hq }

/-- A query begins: whatever is acknowledged by now is settled. -/
theorem World.Inv.begin (h : w.Inv env) (query : Query) :
    World.Inv env { w with queries := w.queries ++ [{
      query := query, acked := w.acked, owed := w.ledger.settled, epoch := w.ledger.epoch }] } := by
  refine { h with queries := fun q hq => ?_ }
  rcases List.mem_append.mp hq with hq | hq
  · exact h.queries q hq
  · obtain rfl := List.mem_singleton.mp hq
    refine ⟨fun _ ht => ht, ?_, Owes.begin _, View.valid_new _, fun _ => rfl, fun _ _ => rfl,
      nofun, fun _ => rfl⟩
    intro t ht p i hi
    show i < w.ledger.settled p
    by_contra hge
    cases hw : w.writer with
    | none =>
      obtain ⟨hlt, -⟩ := List.getElem?_eq_some_iff.mp hi
      rw [(h.idle hw).2 p] at hge
      exact hge hlt
    | some wr =>
      -- what is not settled is by the write at work, which is not acknowledged
      have hwr := h.writer wr hw
      have heq := hwr.pending p i t (Nat.not_lt.mp hge) hi
      exact hwr.fresh (heq ▸ ht)

/-- The query goes in, on the data set as it is. -/
theorem QueryInv.enter {L : Ledger Part} {acked : List Nat} {q : QueryRun F A}
    (h : QueryInv L acked q) (hpc : q.pc = .begun) (enabled : Bool) :
    QueryInv L acked { q with
      pc := if enabled then .entered else .searching
      cacheEnabled := enabled
      epoch := L.epoch } := by
  have hnone : ∀ p, q.captured p = none := by
    have := h.progress
    rwa [QueryRun.Progress, hpc] at this
  have hread : q.readings = [] := h.unread (by simp [hpc]) (by simp [hpc])
  constructor
  case subset => exact h.subset
  case within => exact h.within
  case owes =>
    refine ⟨h.owes.settled, fun p g hg => ?_⟩
    simp only [QueryRun.view, hnone p] at hg
    cases hg
  case valid =>
    refine ⟨Nat.le_refl _, fun _ p g hg => ?_, fun p n hn => ?_, fun _ p n hn => ?_⟩
    · simp only [QueryRun.view, hnone p] at hg
      cases hg
    · simp [QueryRun.view, hread] at hn
    · simp [QueryRun.view, hread] at hn
  case epoch => exact fun _ => rfl
  case unread => exact fun _ _ => hread
  case parts =>
    intro r hr
    simp only [hread, List.not_mem_nil] at hr
  case progress =>
    cases enabled with
    | true => exact trivial
    | false => exact nofun

/-- A counter is captured before anything is read. -/
theorem QueryInv.capture {L : Ledger Part} {acked : List Nat} {q q' : QueryRun F A} {p : Part}
    (h : QueryInv L acked q) (hL : L.Inv) (hin : q.inside = true) (hread : q.readings = [])
    (hview : q'.view = q.view.capture L p)
    (hacked : q'.acked = q.acked) (howed : q'.owed = q.owed) (hreadings : q'.readings = [])
    (hprogress : q'.Progress) : QueryInv L acked q' := by
  have hepoch : q'.epoch = q.epoch := congrArg View.epoch hview
  constructor
  case subset =>
    rw [hacked]
    exact h.subset
  case within =>
    rw [hacked, howed]
    exact h.within
  case owes =>
    rw [hview, howed]
    exact h.owes.capture hL (h.epoch hin) p
  case valid =>
    rw [hview]
    exact h.valid.capture (by simp [QueryRun.view, hread]) p
  case epoch => exact fun _ => hepoch.trans (h.epoch hin)
  case unread => exact fun _ _ => hreadings
  case parts =>
    intro r hr
    rw [hreadings] at hr
    cases hr
  case progress => exact hprogress

/-- **The next counter.** -/
theorem World.Inv.captureNext (h : w.Inv env) {q q' : QueryRun F A}
    (hq : QueryInv w.ledger w.acked q) (hnext : w.captureNext q = some q') :
    QueryInv w.ledger w.acked q' := by
  have hgen : ∀ p, w.ledger.generation p = w.sc.counter p := congrFun h.counters
  have hprogress := hq.progress
  unfold World.captureNext at hnext
  split at hnext
  · rename_i cmd hpc hquery
    cases hnext
    have hread : q.readings = [] := hq.unread (by simp [hpc]) (by simp [hpc])
    refine hq.capture h.ledger (by simp [QueryRun.inside, hpc]) hread (p := .cooccurrence) ?_ rfl
      rfl hread ?_
    · simp only [QueryRun.view, View.capture, hgen]
      rfl
    · simp [QueryRun.Progress]
  · rename_i cmd hpc hquery
    cases hnext
    have hread : q.readings = [] := hq.unread (by simp [hpc]) (by simp [hpc])
    refine { hq with epoch := ?_, unread := ?_, progress := ?_ }
    · exact fun _ => hq.epoch (by simp [QueryRun.inside, hpc])
    · exact fun _ _ => hread
    · simp [QueryRun.Progress, hquery, Query.readsPart]
  · rename_i hpc
    cases hnext
    have hread : q.readings = [] := hq.unread (by simp [hpc]) (by simp [hpc])
    simp only [QueryRun.Progress, hpc] at hprogress
    refine hq.capture h.ledger (by simp [QueryRun.inside, hpc]) hread (p := .vectors) ?_ rfl rfl
      hread ?_
    · simp only [QueryRun.view, View.capture, hgen]
      rfl
    · simpa [QueryRun.Progress] using hprogress
  · rename_i hpc
    cases hnext
    have hread : q.readings = [] := hq.unread (by simp [hpc]) (by simp [hpc])
    simp only [QueryRun.Progress, hpc] at hprogress
    refine hq.capture h.ledger (by simp [QueryRun.inside, hpc]) hread (p := .metadata) ?_ rfl rfl
      hread ?_
    · simp only [QueryRun.view, View.capture, hgen]
      rfl
    · intro p hp
      cases p with
      | cooccurrence => exact hprogress.1 hp
      | vectors => exact hprogress.2
      | metadata => rfl
  · rename_i hpc
    cases hnext
    have hread : q.readings = [] := hq.unread (by simp [hpc]) (by simp [hpc])
    have hin : q.inside = true := by simp [QueryRun.inside, hpc]
    simp only [QueryRun.Progress, hpc] at hprogress
    refine { hq with epoch := fun _ => hq.epoch hin, unread := fun _ _ => hread, progress := ?_ }
    exact ⟨hprogress, by rw [← h.dataset, hq.epoch hin]⟩
  · cases hnext

/-- A query that only goes on, or ends. -/
theorem QueryInv.setPc {L : Ledger Part} {acked : List Nat} {q : QueryRun F A}
    (h : QueryInv L acked q) (pc : QueryPc)
    (hpc : pc = .finished ∨ pc = .searching ∧ q.pc = .keyed) :
    QueryInv L acked { q with pc := pc } := by
  rcases hpc with rfl | ⟨rfl, hkeyed⟩
  · exact { h with
      epoch := fun hin => nomatch hin
      unread := fun _ hne => absurd rfl hne
      progress := trivial }
  · have hprogress := h.progress
    simp only [QueryRun.Progress, hkeyed] at hprogress
    exact { h with
      epoch := fun _ => h.epoch (by simp [QueryRun.inside, hkeyed])
      unread := fun hne => absurd rfl hne
      progress := fun _ => ⟨hprogress.captured, hprogress.dataset⟩ }

/-- A reading of a part that is open. -/
theorem QueryInv.read {L : Ledger Part} {acked : List Nat} {q : QueryRun F A}
    (h : QueryInv L acked q) (hL : L.Inv) (hpc : q.pc = .searching) {state : PartState F A}
    (hpart : q.query.readsPart state.part = true) (hopen : L.closed state.part = none) :
    QueryInv L acked { q with
      readings := ⟨state, (L.changes state.part).length⟩ :: q.readings } := by
  refine { h with
    owes := ⟨h.owes.settled, h.owes.captured⟩, valid := h.valid.read hL hopen
    unread := fun hne => absurd hpc hne, parts := fun r hr => ?_, progress := ?_ }
  · rcases List.mem_cons.mp hr with rfl | hr
    · exact hpart
    · exact h.parts r hr
  · have hprogress := h.progress
    simp only [QueryRun.Progress, hpc] at hprogress ⊢
    exact fun henabled => ⟨(hprogress henabled).captured, (hprogress henabled).dataset⟩

/-! ## 7. The cache -/

/-- **Equal keys, equal counters.** -/
theorem captured_eq_of_keyParams {o q : QueryRun F A} (h : o.keyParams = q.keyParams)
    (ho : o.Complete) (hq : q.Complete) :
    o.epoch = q.epoch ∧ ∀ p, o.query.readsPart p = true →
      ∃ g, o.captured p = some g ∧ q.captured p = some g := by
  -- a counter that both have captured is told by its number
  have hsome : ∀ p, (o.captured p).isSome → (q.captured p).isSome →
      (o.captured p).getD 0 = (q.captured p).getD 0 →
      ∃ g, o.captured p = some g ∧ q.captured p = some g := by
    intro p hop hqp heq
    obtain ⟨g, hg⟩ := Option.isSome_iff_exists.mp hop
    obtain ⟨g', hg'⟩ := Option.isSome_iff_exists.mp hqp
    rw [hg, hg'] at heq
    exact ⟨g, hg, by rw [hg']; exact congrArg some heq.symm⟩
  have hocap := ho.captured
  have hqcap := hq.captured
  unfold QueryRun.keyParams at h
  cases hoq : o.query with
  | sim cmd =>
    cases hqq : q.query with
    | sim cmd' =>
      rw [hoq] at hocap
      rw [hqq] at hqcap
      rw [hoq, hqq] at h
      have h := Sum.inl.inj h
      simp only [SimCommand.cacheKeyParams, QueryRun.generations, SimCacheKeyParams.mk.injEq,
        ho.dataset, hq.dataset, Option.getD_some] at h
      refine ⟨h.2.2.2.2.2.2.2.2, fun p hp => hsome p (hocap p hp) (hqcap p rfl) ?_⟩
      cases p with
      | cooccurrence => exact h.2.2.2.2.1
      | vectors => exact h.2.2.2.2.2.1
      | metadata => exact h.2.2.2.2.2.2.2.1
    | simv cmd' =>
      rw [hoq, hqq] at h
      cases h
  | simv cmd =>
    cases hqq : q.query with
    | sim cmd' =>
      rw [hoq, hqq] at h
      cases h
    | simv cmd' =>
      rw [hoq] at hocap
      rw [hqq] at hqcap
      rw [hoq, hqq] at h
      have h := Sum.inr.inj h
      simp only [SimvCommand.cacheKeyParams, QueryRun.generations, SimvCacheKeyParams.mk.injEq,
        ho.dataset, hq.dataset, Option.getD_some] at h
      refine ⟨h.2.2.2.2.2, fun p hp => hsome p (hocap p hp) (hqcap p hp) ?_⟩
      cases p with
      | cooccurrence => cases hp
      | vectors => exact h.2.2.1
      | metadata => exact h.2.2.2.2.1

/-- **A hit is fresh**, keys being injective. -/
theorem World.Inv.fresh (h : w.Inv env) (hinj : Function.Injective env.cacheKey)
    {q : QueryRun F A} (hq : QueryInv w.ledger w.acked q) (hpc : q.pc = .keyed)
    {now ttlSeconds : Nat} {results : List SimilarityResult}
    (hfound : (w.sc.cache.lookupWithTtl env.cache now (q.key env) ttlSeconds).2 = some results) :
    ∃ o, Fresh env w.ledger ⟨q, w.origin (q.key env), results⟩ o := by
  obtain ⟨data, hdata, hunpacked⟩ := SimilarityCache.lookup_some hfound
  obtain ⟨o, ho, hstored⟩ := h.cache _ _ hdata
  have hparams : o.keyParams = q.keyParams := hinj hstored.key
  have hcomplete : q.Complete := by
    have := hq.progress
    rwa [QueryRun.Progress, hpc] at this
  obtain ⟨hepoch, hcaptured⟩ := captured_eq_of_keyParams hparams hstored.complete hcomplete
  obtain ⟨computed, hcomputed, hpacked⟩ := hstored.data
  refine ⟨o, ho, hparams, ⟨computed, data, hcomputed, hpacked, hunpacked⟩, fun r hr t ht i hi => ?_⟩
  obtain ⟨g, hog, hqg⟩ := hcaptured _ (hstored.parts r hr)
  have howed : q.owed r.state.part ≤ r.seen :=
    hq.owes.seen hstored.valid hepoch hqg hog (List.mem_map.mpr ⟨r, hr, rfl⟩)
  exact Nat.lt_of_lt_of_le (hq.within t ht _ i hi) howed

/-- The result goes to the cache, with the query as its origin. -/
theorem World.Inv.storeResult (h : w.Inv env) (i : Nat) {q : QueryRun F A}
    (hq : QueryInv w.ledger w.acked q) (hpc : q.pc = .searching) (henabled : q.cacheEnabled = true)
    {results : List SimilarityResult} (hresults : q.results env = some results)
    (now later : Nat) (cheap : Bool) (ttlSeconds : Nat) :
    (w.storeResult env i q results now later cheap ttlSeconds).Inv env := by
  have hset := h.setQuery i (hq.setPc .finished (.inl rfl))
  have hcomplete : q.Complete := by
    have := hq.progress
    rw [QueryRun.Progress, hpc] at this
    exact this henabled
  unfold World.storeResult
  dsimp only
  split
  · refine { hset with cache := fun key data hd => ?_ }
    have horigin : ∀ k, k ≠ q.key env ∨ (w.sc.cache.dataOf (q.key env)).isSome →
        (if (w.sc.cache.dataOf (q.key env)).isSome then w.origin
          else Function.update w.origin (q.key env) (some q)) k = w.origin k := by
      intro k hk
      split
      · rfl
      · rename_i hnone
        exact Function.update_of_ne (hk.resolve_right hnone) _ _
    rcases SimilarityCache.dataOf_insertWithTtl hd with hold | ⟨rfl, hpacked, hnone⟩
    · obtain ⟨o, ho, hstored⟩ := h.cache key data hold
      refine ⟨o, (horigin key ?_).trans ho, hstored⟩
      by_cases hkey : key = q.key env
      · subst hkey
        exact .inr (by rw [show w.sc.cache.dataOf _ = _ from hold]; rfl)
      · exact .inl hkey
    · refine ⟨q, ?_, rfl, hcomplete, hq.valid, hq.parts, results, hresults, hpacked⟩
      have hnone' : w.sc.cache.dataOf (q.key env) = none := hnone
      show (if (w.sc.cache.dataOf (q.key env)).isSome then w.origin
        else Function.update w.origin (q.key env) (some q)) (q.key env) = some q
      rw [hnone']
      exact Function.update_self _ _ _
  · exact hset

/-- The cache after a lookup. -/
theorem World.Inv.setCache (h : w.Inv env) {cache : SimilarityCache κ}
    (hfewer : w.sc.cache.Fewer cache) : World.Inv env { w with sc := { w.sc with cache := cache } } :=
  { h with
    cache := fun key data hd => h.cache key data (hfewer key data hd) }

variable [FloatOps F] [AnnIndex A]

/-- **Every step of every thread** keeps the invariant. -/
theorem World.Inv.step (hinj : Function.Injective env.cacheKey) {w' : World F A κ}
    {action : WorldAction F} (h : w.Inv env) (hs : w.step env action = some w') : w'.Inv env := by
  have hquery : ∀ {i : Nat} {q : QueryRun F A}, w.queries[i]? = some q →
      QueryInv w.ledger w.acked q := fun hi => h.queries _ (List.mem_of_getElem? hi)
  cases action with
  | write clocks io cmd =>
    simp only [World.step] at hs
    split at hs
    · cases hs
    · rename_i hw
      cases hs
      exact h.startWriter (by simpa using hw) (disciplined_writeSteps clocks io cmd)
  | decay io prune =>
    simp only [World.step] at hs
    split at hs
    · cases hs
    · rename_i hw
      cases hs
      exact h.startWriter (by simpa using hw) (disciplined_decaySteps io prune)
  | writerStep =>
    simp only [World.step] at hs
    split at hs
    · rename_i hw
      cases hs
      exact h.writerStep hw
    · cases hs
  | writerEnd =>
    simp only [World.step] at hs
    split at hs
    · rename_i hw
      cases hs
      exact h.writerEnd hw
    · cases hs
  | load staged ok =>
    simp only [World.step] at hs
    split at hs
    · cases hs
    · rename_i hout
      cases hs
      rw [not_or, Bool.not_eq_true, Bool.not_eq_true, List.any_eq_false] at hout
      refine h.load (by simpa using hout.1) (fun q hq => ?_) staged ok
      simpa using hout.2 q hq
  | begin query =>
    cases hs
    exact h.begin query
  | enter i =>
    simp only [World.step] at hs
    split at hs
    · cases hs
    · rename_i q hi
      split at hs
      · cases hs
      · rename_i hpc
        cases hs
        exact h.setQuery i ((hquery hi).enter (by simpa using hpc) _)
  | capture i =>
    simp only [World.step] at hs
    split at hs
    · cases hs
    · rename_i q hi
      obtain ⟨q', hnext, rfl⟩ := Option.map_eq_some_iff.mp hs
      exact h.setQuery i (h.captureNext (hquery hi) hnext)
  | lookup i now ttlSeconds =>
    simp only [World.step] at hs
    split at hs
    · cases hs
    · rename_i q hi
      split at hs
      · cases hs
      · rename_i hpc
        have hpc : q.pc = .keyed := by simpa using hpc
        have hfewer : w.sc.cache.Fewer
            (w.sc.cache.lookupWithTtl env.cache now (q.key env) ttlSeconds).1 :=
          SimilarityCache.fewer_lookupWithTtl _ now _ ttlSeconds
        have hcache := h.setCache hfewer
        split at hs
        · cases hs
          exact hcache.setQuery i ((hquery hi).setPc .searching (.inr ⟨rfl, hpc⟩))
        · rename_i results hfound
          cases hs
          have hset := hcache.setQuery i ((hquery hi).setPc .finished (.inl rfl))
          refine { hset with hits := fun hit hhit => ?_ }
          rcases List.mem_cons.mp hhit with rfl | hhit
          · exact ⟨(hquery hi).subset, h.fresh hinj (hquery hi) hpc hfound⟩
          · exact h.hits hit hhit
  | read i source =>
    simp only [World.step] at hs
    split at hs
    · cases hs
    · rename_i q hi
      split at hs
      · cases hs
      · rename_i hguard
        cases hs
        simp only [not_or, not_not, not_and] at hguard
        obtain ⟨hpc, hpart, hlock⟩ := hguard
        refine h.setQuery i ((hquery hi).read h.ledger hpc hpart ?_)
        cases hp : (w.sc.look source).part with
        | cooccurrence => exact h.unlocked (by simpa using hlock hp)
        | vectors => exact h.opened.1
        | metadata => exact h.opened.2
  | insert i now later cheap ttlSeconds =>
    simp only [World.step] at hs
    split at hs
    · cases hs
    · rename_i q hi
      split at hs
      · cases hs
      · rename_i hguard
        simp only [not_or, not_not] at hguard
        obtain ⟨hpc, henabled, -⟩ := hguard
        split at hs
        · cases hs
          exact h.setQuery i ((hquery hi).setPc .finished (.inl rfl))
        · rename_i results hresults
          cases hs
          exact h.storeResult i (hquery hi) hpc henabled hresults now later cheap ttlSeconds
  | finish i =>
    simp only [World.step] at hs
    split at hs
    · cases hs
    · rename_i q hi
      cases hs
      exact h.setQuery i ((hquery hi).setPc .finished (.inl rfl))

/-- **Cache freshness**: keys taken as injective, from a server whose cache is empty, for every
    interleaving of queries, writes, maintenance and loads, every answer from the cache was
    computed from readings of the stores that have seen every change by a write acknowledged
    before the query began. -/
theorem cache_fresh (env : QueryEnv F A κ) (hinj : Function.Injective env.cacheKey)
    (sc : ServerContext F A κ) (hempty : sc.cache.tables.cacheMap = .empty)
    (actions : List (WorldAction F)) {w : World F A κ}
    (hrun : run (World.step env) (World.start sc) actions = some w) :
    ∀ h ∈ w.hits, ∃ o, Fresh env w.ledger h o := by
  have hinv : w.Inv env :=
    run_inv (fun _ _ _ h hs => World.Inv.step hinj h hs) (World.Inv.start sc hempty) hrun
  exact fun h hh => (hinv.hits h hh).2

end Invariant

/-! ## 8. A hit -/

/-- The identity of a query as its key; a search lists the vectors it has read. -/
def exampleQueryEnv : QueryEnv Int ListedIndex (SimCacheKeyParams ⊕ SimvCacheKeyParams) where
  toPlatform := examplePlatform
  cache := {
    compress := fun results => some (packResults results)
    decompress := fun bytes => unpackResults (bytes.length + 1) bytes
    entryMemory := fun data => data.length
    estimateMemory := fun tables => tables.cacheMap.entries.foldl
      (fun n e => n + e.2.compressedData.length) 0 }
  rng := id
  cacheKey := id
  search _ states := some (states.flatMap fun
    | .vectors vs => vs.ids.map fun id => ⟨id, 0⟩
    | _ => [])

/-- A server without a log. -/
def unloggedServer : ServerContext Int ListedIndex (SimCacheKeyParams ⊕ SimvCacheKeyParams) where
  config := defaultConfig
  stores := .new defaultConfig
  engine := { config := { indexType := .hnsw }, annIndex := some ([] : List (Nat × List UInt32)) }
  cache := { maxMemoryBytes := 1000 }

/-- The counters one after the other. -/
def captures (i : Nat) : List (WorldAction Int) := List.replicate 4 (.capture i)

/-- A query is answered and its result stored, then it is asked again; a vector was set before. -/
def askedTwice : List (WorldAction Int) :=
  [.write (clocksAt 0) {} firstVector] ++ List.replicate 5 .writerStep ++ [.writerEnd] ++
    [.begin (.sim ⟨[105], 5, .vectors, none, [], 0⟩), .enter 0] ++ captures 0 ++
    [.lookup 0 0 0, .read 0 .vectors, .insert 0 0 0 false 0] ++
    [.begin (.sim ⟨[105], 5, .vectors, none, [], 0⟩), .enter 1] ++ captures 1 ++ [.lookup 1 1 0]

/-- The second answer comes from the cache, and has seen the vector. -/
theorem cache_fresh_askedTwice :
    ∃ w, run (World.step exampleQueryEnv) (World.start unloggedServer) askedTwice = some w ∧
      w.hits.map (fun h => (h.run.acked, h.results)) = [([0], [⟨[105], 0⟩])] ∧
      ∀ h ∈ w.hits, ∃ o, Fresh exampleQueryEnv w.ledger h o := by
  have hhits : ((run (World.step exampleQueryEnv) (World.start unloggedServer) askedTwice).map
      fun w => w.hits.map (fun h => (h.run.acked, h.results))) = some [([0], [⟨[105], 0⟩])] := by
    decide +kernel
  obtain ⟨w, hw, hl⟩ := Option.map_eq_some_iff.mp hhits
  exact ⟨w, hw, hl, cache_fresh _ Function.injective_id _ rfl _ hw⟩

end Nvecd.Server
