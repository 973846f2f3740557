/-
  File:      Nvecd/Server/MetasetFilter.lean
  Subject:   `METASET` and the filter that its text is.

  `HandleMetaset` reads its text with the grammar of filters and keeps the field and the value of
  every condition, the last one if a field is named twice. Whether what is stored passes the filter
  depends on the operators that are dropped.

  * `parseCondition_listed` -- what the grammar lets through as a list;
  * `find?_metadataOf`, `lastOn` -- the value that stays;
  * `keepsFilter` -- the texts whose metadata passes them;
  * `metaset_filter_iff`.
-/
import Nvecd.Server.Dispatcher
import Nvecd.Server.QueryParser
import Nvecd.Vectors.MetadataFilter

namespace Nvecd.Server

open Nvecd.Lib Nvecd.Utils Nvecd.Storage Nvecd.Events Nvecd.Vectors Nvecd.Similarity Nvecd.Cache

/-! ## 1. The conditions of a text -/

/-- No value of a list is the empty string. -/
def Listed (c : FilterCondition) : Prop :=
  c.op = .kIn → c.value = .string [] ∧ ∀ v ∈ c.values, compareValues (.string []) v ≠ 0

theorem compareValues_empty_parseValue (strtod : Bytes → Option UInt64) {item : Bytes}
    (h : item ≠ []) : compareValues (.string []) (parseValue strtod item) ≠ 0 := by
  unfold parseValue
  split
  · decide
  · split
    · decide
    · split
      · exact (by decide : (-2 : Int) ≠ 0)
      · split
        · exact (by decide : (-2 : Int) ≠ 0)
        · obtain ⟨b, l, rfl⟩ := List.exists_cons_of_ne_nil h
          simp [compareValues, threeWay]

/-- The operator that is selected is one of the table. -/
theorem selectOperator_mem {pair : Bytes} {pos : Nat} {candidate : Bytes × FilterOp}
    (h : selectOperator pair = some (pos, candidate)) : candidate ∈ kOperators := by
  suffices hall : ∀ x, selectOperator pair = some x → x.2 ∈ kOperators from hall _ h
  unfold selectOperator
  refine List.foldlRecOn
    (motive := fun selected => ∀ x : Nat × Bytes × FilterOp, selected = some x → x.2 ∈ kOperators)
    kOperators _ ?_ ?_
  · exact fun x hx => by cases hx
  · intro selected hselected c hc x hx
    split at hx
    · exact hselected x hx
    · cases hx
      exact hc
    · split at hx
      · cases hx
        exact hc
      · exact hselected x hx

/-- **What the grammar lets through as a list** has no empty item. -/
theorem parseCondition_listed {strtod : Bytes → Option UInt64} {pair : Bytes} {c : FilterCondition}
    (h : parseCondition strtod pair = some c) : Listed c := by
  intro hop
  unfold parseCondition at h
  split at h
  · cases h
  · rename_i pos text op hselect
    have hkind : op ≠ .kIn := by
      rintro rfl
      have hmem : FilterOp.kIn ∈ kOperators.map Prod.snd :=
        List.mem_map_of_mem (selectOperator_mem hselect)
      exact absurd hmem (by decide)
    dsimp only at h
    split at h
    · cases h
    · split at h
      · cases h
      · split at h
        · split at h
          · cases h
          · rename_i hitems
            cases h
            refine ⟨rfl, fun v hv => ?_⟩
            obtain ⟨item, hitem, rfl⟩ := List.mem_map.mp hv
            refine compareValues_empty_parseValue strtod fun hnil => hitems ?_
            exact List.any_eq_true.mpr ⟨item, hitem, decide_eq_true hnil⟩
        · cases h
          exact absurd hop hkind

theorem parseConditions_listed {strtod : Bytes → Option UInt64} {pairs : List Bytes}
    {conditions : List FilterCondition} (h : parseConditions strtod pairs = .ok conditions) :
    ∀ c ∈ conditions, Listed c := by
  induction pairs generalizing conditions with
  | nil =>
    cases h
    exact nofun
  | cons pair pairs ih =>
    rw [parseConditions] at h
    split at h
    · cases h
    · rename_i condition hcondition
      split at h
      · cases h
      · rename_i rest hrest
        cases h
        exact List.forall_mem_cons.mpr ⟨parseCondition_listed hcondition, ih hrest⟩

/-! ## 2. The value that stays -/

/-- The last condition on a field. -/
def lastOn (field : Bytes) (conditions : List FilterCondition) : Option FilterCondition :=
  conditions.reverse.find? fun c => c.field = field

theorem lastOn_cons (field : Bytes) (c : FilterCondition) (conditions : List FilterCondition) :
    lastOn field (c :: conditions) =
      (lastOn field conditions).or (if c.field = field then some c else none) := by
  unfold lastOn
  rw [List.reverse_cons, List.find?_append, List.find?_singleton]
  simp only [decide_eq_true_eq]

theorem lastOn_eq_none {field : Bytes} {conditions : List FilterCondition} :
    lastOn field conditions = none ↔ ∀ c ∈ conditions, c.field ≠ field := by
  simp [lastOn]

/-- **The value of a field** is that of the last condition on it. -/
theorem find?_metadataOf {conditions : List FilterCondition} {start fields : Metadata}
    (h : metadataOf conditions start = .ok fields) (field : Bytes) :
    fields.find? field = ((lastOn field conditions).map FilterCondition.value).or
      (start.find? field) := by
  induction conditions generalizing start with
  | nil =>
    cases h
    rfl
  | cons c conditions ih =>
    rw [metadataOf] at h
    split at h
    · cases h
    · rw [ih h, lastOn_cons, AssocMap.find?_insert]
      cases lastOn field conditions with
      | some last => rfl
      | none =>
        by_cases hfield : c.field = field
        · simp [hfield]
        · simp [hfield, Ne.symm hfield]

/-! ## 3. Whether it passes -/

/-- **The texts whose metadata passes them**: the last condition on a field is `=`, `>=` or `<=`,
    and the others on it accept its value. -/
def keepsFilter : List FilterCondition → Bool
  | [] => true
  | c :: conditions =>
    (match lastOn c.field conditions with
      | none => c.op = .kEq || c.op = .kGe || c.op = .kLe
      | some last => c.match last.value) && keepsFilter conditions

theorem compareValues_self (v : MetadataValue) : compareValues v v = 0 := by
  cases v with
  | string s =>
    have hirrefl : ¬s < s := List.lt_irrefl s
    simp [compareValues, threeWay, hirrefl]
  | int64 n => simp [compareValues, threeWay, Int64.lt_irrefl]
  | double d => simp [compareValues, threeWay, ltDouble]
  | bool b => cases b <;> rfl

/-- A condition accepts its own value if it allows for equality and is not a list. -/
theorem match_own_value {c : FilterCondition} (h : Listed c) :
    c.match c.value = (c.op = .kEq || c.op = .kGe || c.op = .kLe : Bool) := by
  unfold FilterCondition.match
  cases hop : c.op with
  | kIn =>
    obtain ⟨hvalue, hvalues⟩ := h hop
    simpa [hvalue] using hvalues
  | _ => simp [compareValues_self]

/-- **The filter on what is stored**, whatever was there before. -/
theorem match_metadataOf {conditions : List FilterCondition} (hlisted : ∀ c ∈ conditions, Listed c)
    {start fields : Metadata} (h : metadataOf conditions start = .ok fields) :
    MetadataFilter.match conditions fields = keepsFilter conditions := by
  induction conditions generalizing start with
  | nil => rfl
  | cons c conditions ih =>
    have hfind := find?_metadataOf h c.field
    rw [metadataOf] at h
    split at h
    · cases h
    · have hrest := ih (fun d hd => hlisted d (List.mem_cons_of_mem c hd)) h
      unfold MetadataFilter.match at hrest ⊢
      rw [List.all_cons, hrest, keepsFilter, hfind, lastOn_cons, if_pos rfl]
      cases lastOn c.field conditions with
      | some last => rfl
      | none =>
        dsimp only [Option.or, Option.map]
        rw [match_own_value (hlisted c List.mem_cons_self)]

theorem mem_keys_metadataOf {conditions : List FilterCondition} {fields : Metadata}
    (h : metadataOf conditions .empty = .ok fields) (field : Bytes) :
    field ∈ fields.keys ↔ ∃ c ∈ conditions, c.field = field := by
  rw [AssocMap.mem_keys, find?_metadataOf h, AssocMap.find?_empty, Option.or_none]
  constructor
  · rintro ⟨v, hv⟩
    obtain ⟨last, hlast, -⟩ := Option.map_eq_some_iff.mp hv
    exact ⟨last, List.mem_reverse.mp (List.mem_of_find?_eq_some hlast),
      by simpa using List.find?_some hlast⟩
  · rintro ⟨c, hc, rfl⟩
    cases hlast : lastOn c.field conditions with
    | none => exact absurd rfl (lastOn_eq_none.1 hlast c hc)
    | some last => exact ⟨_, rfl⟩

/-! ## 4. `HandleMetaset` -/

section Dispatch

variable {F A κ : Type} [DecidableEq κ] {env : ServerEnv κ}
  {sc sc' : ServerContext F A κ} {io : WalIo} {cmd : Command} {answer : String}

/-- What an accepted `METASET` has read and stored. -/
theorem dispatchMetaset_ok (h : sc.dispatchMetaset env io cmd = (sc', .ok answer)) :
    ∃ fields, parseMetadata env.toPlatform cmd = .ok fields ∧
      sc'.stores.metadataStore.get cmd.id = some fields := by
  unfold ServerContext.dispatchMetaset at h
  split at h
  · cases h
  · rename_i ctx text hhandle
    unfold handleMetaset at hhandle
    split at hhandle
    · cases hhandle
    · split at hhandle
      · cases hhandle
      · rename_i fields hparse
        split at hhandle
        · cases hhandle
        · cases hhandle
          refine ⟨fields, hparse, ?_⟩
          have hstores : ∀ (sc : ServerContext F A κ) (f : SimilarityCache κ → SimilarityCache κ),
              (sc.updateCache f).stores = sc.stores := by
            intro sc f
            unfold ServerContext.updateCache
            split <;> rfl
          rw [← (Prod.mk.inj h).1, hstores]
          exact AssocMap.find?_insert_self ..

/-- **What `METASET` stores has the fields its text names, and passes the text as a filter when the
    operators that are dropped do not matter.** -/
theorem metaset_filter_iff (htext : cmd.metadata = none)
    (h : sc.dispatchMetaset env io cmd = (sc', .ok answer)) :
    ∃ conditions fields, parseSimpleFilter env.strtod cmd.filterExpr = .ok conditions ∧
      sc'.stores.metadataStore.get cmd.id = some fields ∧
      (∀ field, field ∈ fields.keys ↔ ∃ c ∈ conditions, c.field = field) ∧
      (MetadataFilter.match conditions fields = true ↔ keepsFilter conditions = true) ∧
      (sc'.stores.metadataStore.matchesFilter cmd.id conditions = true ↔
        keepsFilter conditions = true) := by
  obtain ⟨fields, hparse, hget⟩ := dispatchMetaset_ok h
  unfold parseMetadata at hparse
  rw [htext] at hparse
  dsimp only at hparse
  split at hparse
  · cases hparse
  · rename_i conditions hconditions
    have hmatch := match_metadataOf (parseConditions_listed hconditions) hparse
    refine ⟨conditions, fields, hconditions, hget, mem_keys_metadataOf hparse, by rw [hmatch], ?_⟩
    unfold MetadataStore.matchesFilter
    rw [show sc'.stores.metadataStore.metadata.find? cmd.id = some fields from hget]
    split
    · rename_i hnil
      rw [hnil]
      exact iff_of_true rfl rfl
    · dsimp only
      rw [hmatch]

end Dispatch

/-! ## 5. An item with a price -/

/-- The server with one vector `i`. -/
def serverWithItem : ServerContext Int ListedIndex Nat :=
  (startedServer.dispatchWrite exampleEnv (clocksAt 0) {} firstVector).1

/-- `METASET i <expr>`. -/
def metasetText (expr : String) : Command :=
  { type := .kMetaset, id := [105], filterExpr := ascii expr }

theorem metaset_filter_iff_price : ∃ conditions fields,
    parseSimpleFilter exampleEnv.strtod (ascii "price>=1,price<=5,kind:a") = .ok conditions ∧
      (serverWithItem.dispatchMetaset exampleEnv {} (metasetText "price>=1,price<=5,kind:a")
        ).1.stores.metadataStore.get [105] = some fields ∧
      MetadataFilter.match conditions fields = true := by
  have hok : (serverWithItem.dispatchMetaset exampleEnv {}
      (metasetText "price>=1,price<=5,kind:a")).2 = .ok (formatOk "METASET") := by decide +kernel
  obtain ⟨conditions, fields, hparse, hget, -, hmatch, -⟩ := metaset_filter_iff rfl
    (show serverWithItem.dispatchMetaset exampleEnv {} (metasetText "price>=1,price<=5,kind:a") =
      (_, .ok (formatOk "METASET")) from Prod.ext rfl hok)
  refine ⟨conditions, fields, hparse, hget, hmatch.mpr ?_⟩
  have hkeeps : (parseSimpleFilter exampleEnv.strtod (metasetText "price>=1,price<=5,kind:a"
      ).filterExpr).map keepsFilter = .ok true := by decide +kernel
  rw [hparse] at hkeeps
  exact Except.ok.inj hkeeps

/-- **`METASET i a!=1`** is accepted and stores `a = 1`, which the filter `a!=1` rejects. -/
theorem metaset_other_operator :
    (serverWithItem.dispatchMetaset exampleEnv {} (metasetText "a!=1")).2 =
        .ok (formatOk "METASET") ∧
      ∃ conditions, parseSimpleFilter exampleEnv.strtod (ascii "a!=1") = .ok conditions ∧
        (serverWithItem.dispatchMetaset exampleEnv {} (metasetText "a!=1")
          ).1.stores.metadataStore.matchesFilter [105] conditions = false :=
  ⟨by decide +kernel, _, rfl, by decide +kernel⟩

end Nvecd.Server
