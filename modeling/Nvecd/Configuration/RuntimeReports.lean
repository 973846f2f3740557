/-
  File:      Nvecd/Configuration/RuntimeReports.lean
  Subject:   What is told of a variable, and what is in effect.

  A setting lives in the configuration of the start, in the text that the manager keeps, and in the
  cache and the logger. `GET` and `SHOW VARIABLES` tell the text, `CONFIG SHOW` the configuration,
  which `SET` does not change.

  * `Setting` -- a variable with its value;
  * `respond_assigned`, `respond_not_assigned` -- what a request does to the settings;
  * `TextsInEffect` -- the texts denote what is in effect: at the start if `std::to_string` does not
    round (`textsInEffect_start`), and behind every request (`TextsInEffect.respond`);
  * `runtime_variables_report_iff` -- so `CONFIG SHOW` is right as long as nothing has changed.
-/
import Nvecd.Configuration.RuntimeVariables

namespace Nvecd.Configuration

open Nvecd.Lib Nvecd.Utils
open Nvecd.Storage (Bytes)
open Nvecd.Server (ascii)

/-! ## 1. Settings -/

/-- A variable that can be changed, with its value. -/
inductive Setting where
  | loggingLevel (level : LogLevel)
  | loggingJson (json : Bool)
  | cacheEnabled (enabled : Bool)
  | minQueryCostMs (cost : ℚ)
  | ttlSeconds (ttl : Int32)
  deriving DecidableEq

def Setting.variable : Setting → MutableVariable
  | loggingLevel _ => .loggingLevel
  | loggingJson _ => .loggingJson
  | cacheEnabled _ => .cacheEnabled
  | minQueryCostMs _ => .minQueryCostMs
  | ttlSeconds _ => .ttlSeconds

/-- What a variable is in effect; the three switches of the cache have to agree. -/
def Components.setting (c : Components) : MutableVariable → Option Setting
  | .loggingLevel => some (.loggingLevel c.level)
  | .loggingJson => some (.loggingJson (c.format = .json))
  | .cacheEnabled => c.controller.bind fun k =>
      if k.cacheEnabled = k.enabled ∧ k.published = k.enabled then some (.cacheEnabled k.enabled)
      else none
  | .minQueryCostMs => c.controller.map fun k => .minQueryCostMs k.minQueryCostMs
  | .ttlSeconds => c.controller.map fun k => .ttlSeconds k.ttlSeconds

/-- The components with this setting. -/
def Setting.apply (c : Components) : Setting → Components
  | loggingLevel level => { c with level := level }
  | loggingJson json => { c with format := if json then .json else .text }
  | cacheEnabled enabled => { c with controller := c.controller.map (·.setEnabled enabled) }
  | minQueryCostMs cost =>
    { c with controller := c.controller.map fun k => { k with minQueryCostMs := cost } }
  | ttlSeconds ttl =>
    { c with controller := c.controller.map fun k => { k with ttlSeconds := ttl } }

theorem setting_apply {c : Components} (hc : c.controller.isSome) (x : Setting)
    (v : MutableVariable) :
    (x.apply c).setting v = if v = x.variable then some x else c.setting v := by
  obtain ⟨k, hk⟩ := Option.isSome_iff_exists.mp hc
  cases x with
  | loggingLevel | minQueryCostMs | ttlSeconds =>
    cases v <;> simp [Setting.apply, Components.setting, Setting.variable, hk]
  | loggingJson json =>
    cases v <;> cases json <;> simp [Setting.apply, Components.setting, Setting.variable]
  | cacheEnabled =>
    cases v <;> simp [Setting.apply, Components.setting, Setting.variable, hk,
      CacheController.setEnabled]

theorem apply_controller {c : Components} (x : Setting) :
    (x.apply c).controller.isSome = c.controller.isSome := by
  cases x <;> simp [Setting.apply]

/-- A setting that is in effect changes nothing. -/
theorem apply_of_setting {c : Components} {x : Setting} (h : c.setting x.variable = some x) :
    x.apply c = c := by
  cases x with
  | loggingLevel level =>
    cases h
    rfl
  | loggingJson json =>
    cases h
    obtain ⟨controller, level, format⟩ := c
    cases format <;> rfl
  | cacheEnabled enabled =>
    obtain ⟨⟨a, b, p, cost, ttl⟩, hk, hswitches⟩ := Option.bind_eq_some_iff.mp h
    split at hswitches
    · rename_i hagree
      cases hswitches
      dsimp only at hagree
      obtain ⟨rfl, rfl⟩ := hagree
      rw [Setting.apply, hk]
      exact congrArg (Components.mk · c.level c.format) hk.symm
    · cases hswitches
  | minQueryCostMs cost =>
    obtain ⟨k, hk, hcost⟩ := Option.map_eq_some_iff.mp h
    cases hcost
    rw [Setting.apply, hk]
    exact congrArg (Components.mk · c.level c.format) hk.symm
  | ttlSeconds ttl =>
    obtain ⟨k, hk, httl⟩ := Option.map_eq_some_iff.mp h
    cases httl
    rw [Setting.apply, hk]
    exact congrArg (Components.mk · c.level c.format) hk.symm

/-! ## 2. Their texts -/

section Texts

variable (T : DoubleText)

/-- The text that `SET` stores. -/
def Setting.text : Setting → Bytes
  | loggingLevel level => level.name
  | loggingJson json => textOfBool json
  | cacheEnabled enabled => textOfBool enabled
  | minQueryCostMs cost => T.toChars cost
  | ttlSeconds ttl => textOfInt32 ttl

/-- What `SET` takes a text for; also what a text denotes that `GET` or `SHOW VARIABLES` tells. -/
def MutableVariable.read (v : MutableVariable) (text : Bytes) : Option Setting :=
  match v with
  | .loggingLevel => (logLevel? text).map .loggingLevel
  | .loggingJson => (parseBool text).toOption.map .loggingJson
  | .cacheEnabled => (parseBool text).toOption.map .cacheEnabled
  | .minQueryCostMs => ((T.stod text).filter (0 ≤ ·)).map .minQueryCostMs
  | .ttlSeconds => ((parseInt text).toOption.filter (0 ≤ ·.toInt)).map .ttlSeconds

/-- What a text denotes that `CONFIG SHOW` tells: strings stand between quotes. -/
def MutableVariable.readShown (v : MutableVariable) (text : Bytes) : Option Setting :=
  match v, text with
  | .loggingLevel, 34 :: rest =>
    if rest.getLast? = some 34 then MutableVariable.loggingLevel.read T rest.dropLast else none
  | .loggingLevel, _ => none
  | v, text => v.read T text

/-- Values that `SET` takes. -/
def Setting.Valid : Setting → Prop
  | minQueryCostMs cost => 0 ≤ cost
  | ttlSeconds ttl => 0 ≤ ttl.toInt
  | _ => True

variable {T} {x : Setting} {v : MutableVariable} {value : Bytes}

theorem toOption_eq_some {α : Type} {r : Except Error α} {a : α} :
    r.toOption = some a ↔ r = .ok a := by
  cases r <;> simp [Except.toOption]

theorem toOption_eq_none {α : Type} {r : Except Error α} :
    r.toOption = none ↔ ∃ e, r = .error e := by
  cases r <;> simp [Except.toOption]

theorem read_text (hx : x.Valid) : x.variable.read T (x.text T) = some x := by
  cases x with
  | loggingLevel level => simp [Setting.variable, MutableVariable.read, Setting.text, logLevel?_name]
  | loggingJson json | cacheEnabled json =>
    simp [Setting.variable, MutableVariable.read, Setting.text, parseBool_textOfBool,
      Except.toOption]
  | minQueryCostMs cost =>
    have hcost : 0 ≤ cost := hx
    simp [Setting.variable, MutableVariable.read, Setting.text, T.stod_toChars, hcost]
  | ttlSeconds ttl =>
    have httl : 0 ≤ ttl.toInt := hx
    simp [Setting.variable, MutableVariable.read, Setting.text, parseInt_textOfInt32,
      Except.toOption, httl]

theorem valid_of_read (h : v.read T value = some x) : x.variable = v ∧ x.Valid := by
  cases v with
  | loggingLevel | loggingJson | cacheEnabled =>
    obtain ⟨y, -, rfl⟩ := Option.map_eq_some_iff.mp h
    exact ⟨rfl, trivial⟩
  | minQueryCostMs =>
    obtain ⟨cost, hcost, rfl⟩ := Option.map_eq_some_iff.mp h
    have hle : 0 ≤ cost := by simpa using (Option.filter_eq_some_iff.mp hcost).2
    exact ⟨rfl, hle⟩
  | ttlSeconds =>
    obtain ⟨ttl, httl, rfl⟩ := Option.map_eq_some_iff.mp h
    have hle : 0 ≤ ttl.toInt := by simpa using (Option.filter_eq_some_iff.mp httl).2
    exact ⟨rfl, hle⟩

/-! ## 3. What a request does -/

/-- **`SET` takes what can be read, stores its text and applies it.** -/
theorem applyVariable_read {c : Components} (hc : c.controller.isSome)
    (h : v.read T value = some x) : applyVariable T c v value = .ok (x.text T, x.apply c) := by
  obtain ⟨k, hk⟩ := Option.isSome_iff_exists.mp hc
  cases v with
  | loggingLevel =>
    obtain ⟨level, hlevel, rfl⟩ := Option.map_eq_some_iff.mp h
    rw [applyVariable, applyLoggingLevel, hlevel, eq_name_of_logLevel? hlevel]
    rfl
  | loggingJson =>
    obtain ⟨json, hjson, rfl⟩ := Option.map_eq_some_iff.mp h
    rw [applyVariable, toOption_eq_some.1 hjson]
    rfl
  | cacheEnabled =>
    obtain ⟨enabled, henabled, rfl⟩ := Option.map_eq_some_iff.mp h
    simp only [applyVariable, toOption_eq_some.1 henabled, applyCacheEnabled, hk, Setting.apply,
      Option.map_some]
    rfl
  | minQueryCostMs =>
    obtain ⟨cost, hcost, rfl⟩ := Option.map_eq_some_iff.mp h
    obtain ⟨hstod, hle⟩ := Option.filter_eq_some_iff.mp hcost
    have hnonneg : ¬ cost < 0 := by simpa using hle
    have happly : applyCacheMinQueryCost c cost = .ok ((Setting.minQueryCostMs cost).apply c) := by
      simp only [applyCacheMinQueryCost, CacheController.setMinQueryCost, if_neg hnonneg, hk,
        Setting.apply, Option.map_some]
      rfl
    rw [applyVariable, parseDouble, hstod]
    show (applyCacheMinQueryCost c cost >>= _) = _
    rw [happly]
    rfl
  | ttlSeconds =>
    obtain ⟨ttl, httl, rfl⟩ := Option.map_eq_some_iff.mp h
    obtain ⟨hparse, hle⟩ := Option.filter_eq_some_iff.mp httl
    have hnonneg : ¬ ttl.toInt < 0 := by simpa using hle
    have happly : applyCacheTtl c ttl = .ok ((Setting.ttlSeconds ttl).apply c) := by
      simp only [applyCacheTtl, CacheController.setTtl, if_neg hnonneg, hk, Setting.apply,
        Option.map_some]
      rfl
    rw [applyVariable, toOption_eq_some.1 hparse]
    show (applyCacheTtl c ttl >>= _) = _
    rw [happly]
    rfl

/-- What cannot be read is refused. -/
theorem applyVariable_unread {c : Components} (h : v.read T value = none) :
    ∃ e, applyVariable T c v value = .error e := by
  cases v with
  | loggingLevel =>
    rw [MutableVariable.read, Option.map_eq_none_iff] at h
    rw [applyVariable, applyLoggingLevel, h]
    exact ⟨_, rfl⟩
  | loggingJson | cacheEnabled =>
    rw [MutableVariable.read, Option.map_eq_none_iff, toOption_eq_none] at h
    obtain ⟨e, he⟩ := h
    rw [applyVariable, he]
    exact ⟨e, rfl⟩
  | minQueryCostMs =>
    rw [MutableVariable.read, Option.map_eq_none_iff, Option.filter_eq_none_iff] at h
    rw [applyVariable, parseDouble]
    cases hstod : T.stod value with
    | none => exact ⟨_, rfl⟩
    | some cost =>
      have hneg : cost < 0 := by simpa using h cost hstod
      refine ⟨makeError .kInvalidArgument "cache.min_query_cost_ms must be >= 0", ?_⟩
      show (applyCacheMinQueryCost c cost >>= _) = _
      rw [applyCacheMinQueryCost, if_pos hneg]
      rfl
  | ttlSeconds =>
    rw [MutableVariable.read, Option.map_eq_none_iff, Option.filter_eq_none_iff] at h
    rw [applyVariable]
    cases hparse : parseInt value with
    | error e => exact ⟨e, rfl⟩
    | ok ttl =>
      have hneg : ttl.toInt < 0 := by simpa using h ttl (toOption_eq_some.2 hparse)
      refine ⟨makeError .kInvalidArgument "cache.ttl_seconds must be >= 0", ?_⟩
      show (applyCacheTtl c ttl >>= _) = _
      rw [applyCacheTtl, if_pos hneg]
      rfl

theorem ofName?_name (v : MutableVariable) :
    MutableVariable.ofName? (canonicalVariableName v.name) = some v := by
  cases v <;> decide +kernel

theorem canonicalVariableName_name (v : MutableVariable) :
    canonicalVariableName v.name = v.name := by
  cases v <;> decide +kernel

theorem mutability?_name (v : MutableVariable) : mutability? v.name = some true := by
  cases v <;> decide +kernel

theorem name_inj {v w : MutableVariable} : v.name = w.name ↔ v = w := by
  refine ⟨fun h => ?_, fun h => h ▸ rfl⟩
  have hv := ofName?_name v
  rw [h, ofName?_name, Option.some_inj] at hv
  exact hv.symm

variable (T) in
/-- The setting that a `SET` asks for, if it takes it. -/
def assigned (name value : Bytes) : Option Setting :=
  (MutableVariable.ofName? (canonicalVariableName name)).bind fun v => v.read T value

variable (T) in
/-- The settings with this one: its text, and where it is applied. -/
def RuntimeState.assign (s : RuntimeState) (x : Setting) : RuntimeState :=
  { s with
    manager := { s.manager with
      runtimeValues := s.manager.runtimeValues.insert x.variable.name (x.text T) }
    components := x.apply s.components }

variable {s : RuntimeState} {name : Bytes}

theorem setVariable_assigned (hs : s.components.controller.isSome)
    (h : assigned T name value = some x) :
    s.setVariable T name value = (s.assign T x, .ok ()) := by
  obtain ⟨v, hv, hread⟩ := Option.bind_eq_some_iff.mp h
  have hname : canonicalVariableName name = v.name := by
    have hfound := List.find?_some hv
    exact (of_decide_eq_true hfound).symm
  rw [RuntimeState.setVariable, hname, mutability?_name, ← hname, hv]
  simp only [applyVariable_read hs hread, hname, RuntimeState.assign, (valid_of_read hread).1]

/-- **A `SET` that fails changes nothing.** -/
theorem setVariable_not_assigned (h : assigned T name value = none) :
    ∃ e, s.setVariable T name value = (s, .error e) := by
  rw [RuntimeState.setVariable]
  split
  · exact ⟨_, rfl⟩
  · exact ⟨_, rfl⟩
  · split
    · exact ⟨_, rfl⟩
    · rename_i v hv
      rw [assigned, hv, Option.bind_some] at h
      obtain ⟨e, he⟩ := applyVariable_unread h
      rw [he]
      exact ⟨e, rfl⟩

variable (T) in
/-- The setting that a request asks for, if it is one that changes settings. -/
def RuntimeRequest.assigned : RuntimeRequest → Option Setting
  | .set name value => Configuration.assigned T name value
  | .cacheEnable | .httpCacheEnable => some (.cacheEnabled true)
  | .cacheDisable | .httpCacheDisable => some (.cacheEnabled false)
  | .get _ | .showVariables _ | .configShow _ => none

/-- An answer that tells of an error. -/
def RuntimeAnswer.Failed : RuntimeAnswer → Prop
  | .tcp (.ok _) => False
  | .tcp (.error _) => True
  | .http status _ => status ≠ 200

/-- What a setting is written as sets it. -/
theorem assigned_text (hx : x.Valid) : assigned T x.variable.name (x.text T) = some x := by
  rw [assigned, ofName?_name, Option.bind_some, read_text hx]

theorem assigned_true : assigned T (ascii "cache.enabled") (ascii "true") =
    some (.cacheEnabled true) := @assigned_text T (.cacheEnabled true) trivial

theorem assigned_false : assigned T (ascii "cache.enabled") (ascii "false") =
    some (.cacheEnabled false) := @assigned_text T (.cacheEnabled false) trivial

variable {dump : Json → Bytes} {r : RuntimeRequest}

/-- **A request that asks for a setting** gets it. -/
theorem respond_assigned (hs : s.components.controller.isSome) (h : r.assigned T = some x) :
    (s.respond T dump r).1 = s.assign T x ∧ ¬ (s.respond T dump r).2.Failed := by
  cases r with
  | set name value =>
    rw [RuntimeState.respond, setVariable_assigned hs h]
    exact ⟨rfl, id⟩
  | get | showVariables | configShow => cases h
  | cacheEnable =>
    cases h
    rw [RuntimeState.respond, setVariable_assigned hs assigned_true]
    exact ⟨rfl, id⟩
  | httpCacheEnable =>
    cases h
    rw [RuntimeState.respond, setVariable_assigned hs assigned_true]
    exact ⟨rfl, fun hne => hne rfl⟩
  | cacheDisable =>
    cases h
    rw [RuntimeState.respond, setVariable_assigned hs assigned_false]
    exact ⟨rfl, id⟩
  | httpCacheDisable =>
    cases h
    rw [RuntimeState.respond, setVariable_assigned hs assigned_false]
    exact ⟨rfl, fun hne => hne rfl⟩

/-- **Any other request** changes nothing. -/
theorem respond_not_assigned (h : r.assigned T = none) : (s.respond T dump r).1 = s := by
  cases r with
  | set name value =>
    obtain ⟨e, he⟩ := @setVariable_not_assigned T value s name h
    rw [RuntimeState.respond, he]
  | get | showVariables | configShow => rfl
  | cacheEnable | cacheDisable | httpCacheEnable | httpCacheDisable => cases h

/-! ## 4. The texts that are kept -/

variable (T) in
/-- Every variable has a text that denotes what is in effect. -/
structure TextsInEffect (s : RuntimeState) : Prop where
  controller : s.components.controller.isSome
  text : ∀ v : MutableVariable, ∃ text x, s.manager.runtimeValues.find? v.name = some text ∧
    v.read T text = some x ∧ s.components.setting v = some x

theorem TextsInEffect.assign (h : TextsInEffect T s) (hx : x.Valid) :
    TextsInEffect T (s.assign T x) where
  controller := (apply_controller x).trans h.controller
  text w := by
    have hsetting := setting_apply h.controller x w
    by_cases hw : w = x.variable
    · subst hw
      rw [if_pos rfl] at hsetting
      exact ⟨x.text T, x, AssocMap.find?_insert_self _ _ _, read_text hx, hsetting⟩
    · rw [if_neg hw] at hsetting
      have hfind := AssocMap.find?_insert_of_ne s.manager.runtimeValues (x.text T)
        (mt name_inj.1 hw)
      obtain ⟨text, y, htext, hread, hy⟩ := h.text w
      exact ⟨text, y, hfind.trans htext, hread, hsetting.trans hy⟩

theorem valid_of_assigned (h : r.assigned T = some x) : x.Valid := by
  cases r with
  | set name value =>
    obtain ⟨v, -, hread⟩ := Option.bind_eq_some_iff.mp h
    exact (valid_of_read hread).2
  | get | showVariables | configShow => cases h
  | cacheEnable | cacheDisable | httpCacheEnable | httpCacheDisable =>
    cases h
    trivial

/-- **Every request keeps the texts right.** -/
theorem TextsInEffect.respond (h : TextsInEffect T s) (r : RuntimeRequest) :
    TextsInEffect T (s.respond T dump r).1 := by
  cases hr : r.assigned T with
  | none => rwa [respond_not_assigned hr]
  | some x =>
    rw [(respond_assigned h.controller hr).1]
    exact h.assign (valid_of_assigned hr)

/-- The checks of `ValidateConfig` on the settings that can be changed. -/
structure Admitted (config : Config) : Prop where
  level : (logLevel? config.logging.level).isSome
  cost : 0 ≤ config.cache.minQueryCostMs
  ttl : 0 ≤ config.cache.ttlSeconds.toInt

variable {config : Config}

/-- The texts at the start. -/
def startText (config : Config) : MutableVariable → Bytes
  | .loggingLevel => config.logging.level
  | .loggingJson => textOfBool config.logging.json
  | .cacheEnabled => textOfBool config.cache.enabled
  | .minQueryCostMs => textOfDouble config.cache.minQueryCostMs
  | .ttlSeconds => textOfInt32 config.cache.ttlSeconds

theorem find?_create (v : MutableVariable) :
    (RuntimeVariableManager.create config).runtimeValues.find? v.name =
      some (startText config v) := by
  show (((((AssocMap.empty.insert MutableVariable.loggingLevel.name config.logging.level).insert
    MutableVariable.loggingJson.name _).insert MutableVariable.cacheEnabled.name _).insert
    MutableVariable.minQueryCostMs.name _).insert MutableVariable.ttlSeconds.name _).find? _ = _
  cases v <;> simp [AssocMap.find?_insert, name_inj, startText]

/-- The settings at the start. -/
def startSetting (config : Config) : MutableVariable → Setting
  | .loggingLevel => .loggingLevel ((logLevel? config.logging.level).getD .info)
  | .loggingJson => .loggingJson config.logging.json
  | .cacheEnabled => .cacheEnabled config.cache.enabled
  | .minQueryCostMs => .minQueryCostMs config.cache.minQueryCostMs
  | .ttlSeconds => .ttlSeconds config.cache.ttlSeconds

theorem setting_start (v : MutableVariable) :
    (Components.start config).setting v = some (startSetting config v) := by
  cases v with
  | loggingJson => cases hjson : config.logging.json <;> simp [Components.start, Components.setting,
      startSetting, hjson]
  | loggingLevel | minQueryCostMs | ttlSeconds => rfl
  | cacheEnabled => simp [Components.start, Components.setting, startSetting, CacheController.start]

/-- What can be read of the texts at the start. -/
theorem read_startText (hadmitted : Admitted config) {v : MutableVariable}
    (h : v = .minQueryCostMs → HasPlaces 6 config.cache.minQueryCostMs) :
    v.read T (startText config v) = some (startSetting config v) := by
  cases v with
  | loggingLevel =>
    obtain ⟨level, hlevel⟩ := Option.isSome_iff_exists.mp hadmitted.level
    simp [MutableVariable.read, startText, startSetting, hlevel]
  | loggingJson | cacheEnabled =>
    simp [MutableVariable.read, startText, startSetting, parseBool_textOfBool, Except.toOption]
  | minQueryCostMs =>
    simp [MutableVariable.read, startText, startSetting, (stod_textOfDouble_iff T _).mpr (h rfl),
      hadmitted.cost]
  | ttlSeconds =>
    simp [MutableVariable.read, startText, startSetting, parseInt_textOfInt32, Except.toOption,
      hadmitted.ttl]

theorem hasPlaces_of_read (h : MutableVariable.minQueryCostMs.read T
    (startText config .minQueryCostMs) = some (startSetting config .minQueryCostMs)) :
    HasPlaces 6 config.cache.minQueryCostMs := by
  obtain ⟨cost, hcost, heq⟩ := Option.map_eq_some_iff.mp h
  cases heq
  exact (stod_textOfDouble_iff T _).mp (Option.filter_eq_some_iff.mp hcost).1

/-- **At the start the texts are right** if `std::to_string` does not round the cost. -/
theorem textsInEffect_start (hadmitted : Admitted config)
    (hplaces : HasPlaces 6 config.cache.minQueryCostMs) : TextsInEffect T (.start config) :=
  ⟨rfl, fun v => ⟨_, _, find?_create v, read_startText hadmitted fun _ => hplaces,
    setting_start v⟩⟩

/-! ## 5. The configuration that is shown -/

/-- What `CONFIG SHOW` answers for a single value. -/
def shownValue (value : Bytes) : Bytes := ascii "+OK\n" ++ (value ++ ascii "\n") ++ ascii "END\r\n"

/-- What the settings at the start are shown as. -/
def shownStart (dumpDouble : ℚ → Bytes) (config : Config) : MutableVariable → Json
  | .loggingLevel => .string config.logging.level
  | .loggingJson => .boolean config.logging.json
  | .cacheEnabled => .boolean config.cache.enabled
  | .minQueryCostMs => ofDouble dumpDouble config.cache.minQueryCostMs
  | .ttlSeconds => Json.ofInt32 config.cache.ttlSeconds

/-- The section of a variable, and its name there. -/
def MutableVariable.parts : MutableVariable → String × String
  | loggingLevel => ("logging", "level")
  | loggingJson => ("logging", "json")
  | cacheEnabled => ("cache", "enabled")
  | minQueryCostMs => ("cache", "min_query_cost_ms")
  | ttlSeconds => ("cache", "ttl_seconds")

theorem splitPathHelper_name (v : MutableVariable) :
    splitPathHelper v.name = [ascii v.parts.1, ascii v.parts.2] := by
  cases v <;> decide +kernel

theorem isSensitiveField_name (v : MutableVariable) : isSensitiveField v.name = false := by
  cases v <;> decide +kernel

/-- A part of a path leads to the member by this name. -/
theorem navigate_ofMembers {members : List (String × Json)} {name : String} {value : Json}
    {rest : List Bytes} (hnodup : ((members.map Prod.fst).map ascii).Nodup)
    (hmem : (name, value) ∈ members) :
    navigate (Json.ofMembers members) (ascii name :: rest) = navigate value rest := by
  have hfind := find?_ofMembers hnodup hmem
  rw [Json.ofMembers] at hfind ⊢
  rw [navigate_object, hfind]

theorem nodup_sections (dumpDouble : ℚ → Bytes) :
    (((("security", securityJson config) :: otherSections dumpDouble config).map Prod.fst).map
      ascii).Nodup := by
  show (["security", "vectors", "events", "similarity", "snapshot", "performance", "api", "network",
    "logging", "cache", "wal"].map ascii).Nodup
  decide +kernel

/-- A setting of a section. -/
theorem navigate_setting_ofMembers {dumpDouble : ℚ → Bytes} {name key : String}
    {members : List (String × Json)} {value : Json}
    (hsection : (name, Json.ofMembers members) ∈ otherSections dumpDouble config)
    (hmem : (key, value) ∈ members) (hnodup : ((members.map Prod.fst).map ascii).Nodup) :
    navigate (configToJson dumpDouble config) [ascii name, ascii key] = some value := by
  rw [configToJson, navigate_ofMembers (nodup_sections dumpDouble) (List.mem_cons_of_mem _ hsection),
    navigate_ofMembers hnodup hmem, navigate]

theorem navigate_name (dumpDouble : ℚ → Bytes) (v : MutableVariable) :
    navigateJsonPath (configToJson dumpDouble config) v.name =
      some (shownStart dumpDouble config v) := by
  have hname : v.name ≠ [] := by cases v <;> decide
  have hlogging : (["level", "json", "file"].map ascii).Nodup := by decide +kernel
  have hcache : (["enabled", "max_memory_mb", "min_query_cost_ms", "ttl_seconds",
    "compression_enabled", "eviction_batch_size"].map ascii).Nodup := by decide +kernel
  rw [navigateJsonPath, if_neg hname, splitPathHelper_name]
  -- the logging section is the eighth, the cache's the ninth
  cases v with
  | loggingLevel =>
    exact navigate_setting_ofMembers (@List.mem_of_getElem? _ _ 7 _ rfl)
      (@List.mem_of_getElem? _ _ 0 _ rfl) hlogging
  | loggingJson =>
    exact navigate_setting_ofMembers (@List.mem_of_getElem? _ _ 7 _ rfl)
      (@List.mem_of_getElem? _ _ 1 _ rfl) hlogging
  | cacheEnabled =>
    exact navigate_setting_ofMembers (@List.mem_of_getElem? _ _ 8 _ rfl)
      (@List.mem_of_getElem? _ _ 0 _ rfl) hcache
  | minQueryCostMs =>
    exact navigate_setting_ofMembers (@List.mem_of_getElem? _ _ 8 _ rfl)
      (@List.mem_of_getElem? _ _ 2 _ rfl) hcache
  | ttlSeconds =>
    exact navigate_setting_ofMembers (@List.mem_of_getElem? _ _ 8 _ rfl)
      (@List.mem_of_getElem? _ _ 3 _ rfl) hcache

/-- **`CONFIG SHOW` tells the settings of the start.** -/
theorem handleConfigShow_name (dumpDouble : ℚ → Bytes) (v : MutableVariable) :
    handleConfigShow dumpDouble dump (some config) v.name =
      .ok (shownValue (jsonValueToString dump (shownStart dumpDouble config v))) := by
  have hmask : maskSensitiveFields v.name (shownStart dumpDouble config v) =
      shownStart dumpDouble config v := by
    cases v <;> rfl
  have htext : jsonToYaml dump 0 (shownStart dumpDouble config v) =
      jsonValueToString dump (shownStart dumpDouble config v) ++ ascii "\n" := by
    cases v <;> rfl
  rw [handleConfigShow, formatConfigForDisplay, navigate_name]
  dsimp only
  rw [isSensitiveField_name, if_neg (by simp), hmask, htext]
  rfl

theorem readShown_start (hadmitted : Admitted config) (v : MutableVariable) :
    v.readShown T (jsonValueToString dump (shownStart T.dump config v)) =
      some (startSetting config v) := by
  cases v with
  | loggingLevel =>
    have hread := @read_startText T config hadmitted .loggingLevel nofun
    have htext : jsonValueToString dump (shownStart T.dump config .loggingLevel) =
        34 :: (config.logging.level ++ [34]) := rfl
    rw [htext, MutableVariable.readShown, List.getLast?_concat, if_pos rfl, List.dropLast_concat]
    exact hread
  | loggingJson => exact @read_startText T config hadmitted .loggingJson nofun
  | cacheEnabled => exact @read_startText T config hadmitted .cacheEnabled nofun
  | minQueryCostMs =>
    simp [MutableVariable.readShown, MutableVariable.read, shownStart, ofDouble, startSetting,
      jsonValueToString, T.stod_dump, hadmitted.cost]
  | ttlSeconds => exact @read_startText T config hadmitted .ttlSeconds nofun

/-! ## 6. What is told -/

variable (T) in
/-- What the text denotes that `GET` tells. -/
def RuntimeState.reported (s : RuntimeState) (v : MutableVariable) : Option Setting :=
  match s.manager.getVariable v.name with
  | .ok text => v.read T text
  | .error _ => none

variable (T dump) in
/-- **The variables report what is in effect**; a request that fails changes nothing, nor does a
    `SET` to what `GET` tells. -/
structure ReportsInEffect (s : RuntimeState) : Prop where
  running : ∀ v, (s.components.setting v).isSome
  get : ∀ v : MutableVariable, ∃ text, s.manager.getVariable v.name = .ok text ∧
    (s.respond T dump (.get v.name)).2 = .tcp (.ok (bulkString text)) ∧
      v.read T text = s.components.setting v
  showVariables : ∀ (v : MutableVariable) (pattern), patternBeginning pattern <+: v.name →
    ∃ entries text, (s.respond T dump (.showVariables pattern)).2 =
        .tcp (.ok (variablesText entries)) ∧
      (entries.filter fun e => e.1 = v.name) = [(v.name, text, true)] ∧
      v.read T text = s.components.setting v
  configShow : ∀ v : MutableVariable, ∃ text,
    (s.respond T dump (.configShow v.name)).2 = .tcp (.ok (shownValue text)) ∧
      v.readShown T text = s.components.setting v
  failed : ∀ r, (s.respond T dump r).2.Failed → (s.respond T dump r).1 = s
  same : ∀ (v : MutableVariable) (text), s.manager.getVariable v.name = .ok text →
    ¬ (s.respond T dump (.set v.name text)).2.Failed ∧
      (s.respond T dump (.set v.name text)).1.config = s.config ∧
      (s.respond T dump (.set v.name text)).1.components = s.components ∧
      ∀ w, (s.respond T dump (.set v.name text)).1.reported T w = s.reported T w

theorem getVariable_of_find? {m : RuntimeVariableManager} {text : Bytes}
    (h : m.runtimeValues.find? v.name = some text) : m.getVariable v.name = .ok text := by
  rw [RuntimeVariableManager.getVariable, canonicalVariableName_name, mutability?_name]
  simp only [RuntimeVariableManager.getVariableInternal, h]

theorem TextsInEffect.reported (h : TextsInEffect T s) (v : MutableVariable) :
    s.reported T v = s.components.setting v := by
  obtain ⟨text, x, htext, hread, hx⟩ := h.text v
  rw [RuntimeState.reported, getVariable_of_find? htext, hx]
  exact hread

theorem mem_all (v : MutableVariable) : v ∈ MutableVariable.all := by
  cases v <;> decide

/-- The bytes of a text, each a character if they are below 128. -/
def utf8Bytes (text : String) : Bytes := text.toUTF8.data.toList

theorem utf8EncodeChar_ascii {c : Char} (h : ∀ b ∈ String.utf8EncodeChar c, b < 128) :
    String.utf8EncodeChar c = [UInt8.ofNat c.toNat] := by
  have hlarge : ∀ n, 128 ≤ n → n < 256 → ¬ UInt8.ofNat n < 128 := by
    intro n hlow hhigh hlt
    rw [UInt8.lt_iff_toNat_lt, UInt8.toNat_ofNat_of_lt' hhigh] at hlt
    have h128 : (128 : UInt8).toNat = 128 := rfl
    omega
  unfold String.utf8EncodeChar at h ⊢
  dsimp only at h ⊢
  split
  · rfl
  · -- the first of several bytes says how many they are
    rename_i hone
    rw [if_neg hone] at h
    split at h
    · exact absurd (h _ List.mem_cons_self) (hlarge _ (by omega) (by omega))
    · split at h
      · exact absurd (h _ List.mem_cons_self) (hlarge _ (by omega) (by omega))
      · exact absurd (h _ List.mem_cons_self) (hlarge _ (by omega) (by omega))

theorem ascii_eq_utf8Bytes {text : String} (h : ∀ b ∈ utf8Bytes text, b < 128) :
    ascii text = utf8Bytes text := by
  have hbytes : utf8Bytes text = text.toList.flatMap String.utf8EncodeChar := by
    rw [utf8Bytes, String.toUTF8, ← String.utf8Encode_toList, List.utf8Encode]
    simp
  rw [hbytes] at h ⊢
  rw [ascii]
  generalize text.toList = cs at h
  induction cs with
  | nil => rfl
  | cons c cs ih =>
    rw [List.flatMap_cons] at h ⊢
    rw [List.map_cons, ih fun b hb => h b (List.mem_append_right _ hb),
      utf8EncodeChar_ascii fun b hb => h b (List.mem_append_left _ hb), List.singleton_append]

theorem filter_kVariableMutability : ∀ v ∈ MutableVariable.all,
    ((kVariableMutability.map fun e => (ascii e.1, e.2)).filter fun e => e.1 = v.name) =
      [(v.name, true)] := by
  -- one evaluation for both, with the bytes as they stand
  obtain ⟨hascii, hfilter⟩ :
      (kVariableMutability.all fun e => (utf8Bytes e.1).all fun b => b < 128) = true ∧
      ∀ v ∈ MutableVariable.all,
        ((kVariableMutability.map fun e => (utf8Bytes e.1, e.2)).filter fun e => e.1 = v.name) =
          [(v.name, true)] := by
    decide +kernel
  have hbytes : (kVariableMutability.map fun e => (ascii e.1, e.2)) =
      kVariableMutability.map fun e => (utf8Bytes e.1, e.2) :=
    List.map_congr_left fun e he => by
      have hall := List.all_eq_true.mp (List.all_eq_true.mp hascii e he)
      rw [ascii_eq_utf8Bytes fun b hb => of_decide_eq_true (hall b hb)]
  rw [hbytes]
  exact hfilter

/-- A variable has one line of the table. -/
theorem filter_variableTable (v : MutableVariable) :
    (variableTable.filter fun e => e.1 = v.name) = [(v.name, true)] := by
  have hperm := (List.perm_insertionSort (fun e e' : Bytes × Bool => Json.leBytes e.1 e'.1 = true)
    (kVariableMutability.map fun e => (ascii e.1, e.2))).filter fun e => e.1 = v.name
  rw [filter_kVariableMutability v (mem_all v)] at hperm
  exact List.perm_singleton.mp hperm

theorem getAllVariables_filter {m : RuntimeVariableManager} {text beginning : Bytes}
    (h : m.runtimeValues.find? v.name = some text) (hbegin : beginning <+: v.name) :
    ((m.getAllVariables beginning).filter fun e => e.1 = v.name) = [(v.name, text, true)] := by
  have hline : (fun e : Bytes × Bytes × Bool => decide (e.1 = v.name)) ∘
      (fun e : Bytes × Bool => (e.1, m.getVariableInternal e.1, e.2)) =
        fun e => decide (e.1 = v.name) := rfl
  rw [RuntimeVariableManager.getAllVariables, List.filter_map, hline, List.filter_comm,
    filter_variableTable, List.filter_cons_of_pos (by simpa using hbegin), List.filter_nil,
    List.map_singleton, RuntimeVariableManager.getVariableInternal, h]

theorem eq_of_failed (hs : s.components.controller.isSome)
    (h : (s.respond T dump r).2.Failed) : (s.respond T dump r).1 = s := by
  cases hr : r.assigned T with
  | none => exact respond_not_assigned hr
  | some x => exact absurd h (respond_assigned hs hr).2

/-- `SET` to a text that denotes what is in effect. -/
theorem TextsInEffect.same (h : TextsInEffect T s) {text : Bytes}
    (htext : s.manager.getVariable v.name = .ok text) :
    ¬ (s.respond T dump (.set v.name text)).2.Failed ∧
      (s.respond T dump (.set v.name text)).1.config = s.config ∧
      (s.respond T dump (.set v.name text)).1.components = s.components ∧
      ∀ w, (s.respond T dump (.set v.name text)).1.reported T w = s.reported T w := by
  obtain ⟨text', x, hfind, hread, hx⟩ := h.text v
  cases htext.symm.trans (getVariable_of_find? hfind)
  have hassigned : (RuntimeRequest.set v.name text).assigned T = some x := by
    rw [RuntimeRequest.assigned, assigned, ofName?_name, Option.bind_some, hread]
  obtain ⟨hvariable, hvalid⟩ := valid_of_read hread
  obtain ⟨hstate, hanswer⟩ := @respond_assigned T x s dump _ h.controller hassigned
  have hcomponents : (s.assign T x).components = s.components :=
    apply_of_setting (hvariable.symm ▸ hx)
  rw [hstate]
  refine ⟨hanswer, rfl, hcomponents, fun w => ?_⟩
  rw [(h.assign hvalid).reported, h.reported, hcomponents]

/-- **With the right texts, and the settings of the start, the variables report what is in
    effect.** -/
theorem TextsInEffect.reportsInEffect (h : TextsInEffect T s) (hadmitted : Admitted s.config)
    (hstart : ∀ v, s.components.setting v = some (startSetting s.config v)) :
    ReportsInEffect T dump s where
  running v := by rw [hstart, Option.isSome_some]
  get v := by
    obtain ⟨text, x, hfind, hread, hx⟩ := h.text v
    have hget := getVariable_of_find? hfind
    refine ⟨text, hget, ?_, hread.trans hx.symm⟩
    rw [RuntimeState.respond, hget]
    rfl
  showVariables v pattern hbegin := by
    obtain ⟨text, x, hfind, hread, hx⟩ := h.text v
    exact ⟨_, text, rfl, getAllVariables_filter hfind hbegin, hread.trans hx.symm⟩
  configShow v := by
    refine ⟨jsonValueToString dump (shownStart T.dump s.config v), ?_, ?_⟩
    · rw [RuntimeState.respond, handleConfigShow_name]
    · rw [readShown_start hadmitted, hstart]
  failed _ := eq_of_failed h.controller
  same _ _ := h.same

/-- **`CONFIG SHOW` is right with the settings of the start only.** -/
theorem ReportsInEffect.setting (h : ReportsInEffect T dump s) (hadmitted : Admitted s.config)
    (v : MutableVariable) : s.components.setting v = some (startSetting s.config v) := by
  obtain ⟨text, hanswer, hread⟩ := h.configShow v
  rw [RuntimeState.respond, handleConfigShow_name] at hanswer
  injection hanswer with hanswer
  injection hanswer with hanswer
  have htext := List.append_cancel_left (List.append_cancel_right hanswer)
  rw [← hread, ← List.append_cancel_right htext, readShown_start hadmitted]

theorem ReportsInEffect.hasPlaces (h : ReportsInEffect T dump (.start config)) :
    HasPlaces 6 config.cache.minQueryCostMs := by
  obtain ⟨text, hget, -, hread⟩ := h.get .minQueryCostMs
  cases hget.symm.trans (getVariable_of_find? (find?_create .minQueryCostMs))
  exact hasPlaces_of_read (hread.trans (setting_start .minQueryCostMs))

theorem config_respond (hs : s.components.controller.isSome) (r : RuntimeRequest) :
    (s.respond T dump r).1.config = s.config := by
  cases hr : r.assigned T with
  | none => rw [respond_not_assigned hr]
  | some x =>
    rw [(respond_assigned hs hr).1]
    rfl

/-- **Variables report what is in effect, after every request of a run, if and only if**
    `std::to_string` does not round the cost that the server was started with, and every request
    that is accepted leaves the settings as they were at the start. -/
theorem runtime_variables_report_iff (T : DoubleText) (dump : Json → Bytes) (config : Config)
    (hadmitted : Admitted config) (rs : List RuntimeRequest) :
    (∀ rs', rs' <+: rs → ReportsInEffect T dump (after (RuntimeState.respond T dump)
        (.start config) rs')) ↔
      HasPlaces 6 config.cache.minQueryCostMs ∧
        ∀ r ∈ rs, ∀ x, r.assigned T = some x → x = startSetting config x.variable := by
  constructor
  · intro h
    have hplaces : HasPlaces 6 config.cache.minQueryCostMs :=
      (h [] List.nil_prefix).hasPlaces
    have hstep : ∀ (s : RuntimeState) (r : RuntimeRequest),
        TextsInEffect T s ∧ s.config = config →
          TextsInEffect T (s.respond T dump r).1 ∧ (s.respond T dump r).1.config = config :=
      fun s r hs => ⟨hs.1.respond r, (config_respond hs.1.controller r).trans hs.2⟩
    refine ⟨hplaces, fun r hr x hx => ?_⟩
    obtain ⟨front, back, rfl⟩ := List.append_of_mem hr
    obtain ⟨htexts, hconfig⟩ := after_inv hstep
      ⟨@textsInEffect_start T config hadmitted hplaces, rfl⟩ front
    have hreports := h (front ++ [r]) ⟨back, by simp⟩
    rw [after_append_singleton, (respond_assigned htexts.controller hx).1] at hreports
    have hset := hreports.setting (hconfig.symm ▸ hadmitted) x.variable
    have happly := setting_apply htexts.controller x x.variable
    rw [if_pos rfl] at happly
    have heq := happly.symm.trans hset
    rw [Option.some_inj] at heq
    exact hconfig ▸ heq
  · rintro ⟨hplaces, hkeeps⟩ rs' hrs'
    have hstep : ∀ (s : RuntimeState), ∀ r ∈ rs',
        TextsInEffect T s ∧ s.config = config ∧ s.components = .start config →
          TextsInEffect T (s.respond T dump r).1 ∧ (s.respond T dump r).1.config = config ∧
            (s.respond T dump r).1.components = .start config := by
      rintro s r hr ⟨htexts, hconfig, hcomponents⟩
      refine ⟨htexts.respond r, (config_respond htexts.controller r).trans hconfig, ?_⟩
      cases hx : r.assigned T with
      | none => rw [respond_not_assigned hx, hcomponents]
      | some x =>
        have hset : s.components.setting x.variable = some x := by
          rw [hcomponents, setting_start, ← hkeeps r (hrs'.subset hr) x hx]
        rw [(respond_assigned htexts.controller hx).1, ← hcomponents]
        exact apply_of_setting hset
    obtain ⟨htexts, hconfig, hcomponents⟩ := after_inv_of_mem hstep
      ⟨@textsInEffect_start T config hadmitted hplaces, rfl, rfl⟩
    refine htexts.reportsInEffect (hconfig.symm ▸ hadmitted) fun v => ?_
    rw [hcomponents, hconfig, setting_start]

theorem admitted_default : Admitted {} := ⟨by decide +kernel, by decide +kernel, by decide +kernel⟩

/-- The settings of the start, said once more. -/
theorem runtime_variables_report_default : Admitted {} ∧
    ∀ rs', rs' <+: [.cacheEnable, .set (ascii "cache.ttl_seconds") (ascii "3600")] →
      ReportsInEffect exactTexts (fun _ => [])
        (after (RuntimeState.respond exactTexts fun _ => []) (.start {}) rs') := by
  refine ⟨admitted_default,
    (runtime_variables_report_iff exactTexts (fun _ => []) {} admitted_default _).mpr
      ⟨by decide +kernel, ?_⟩⟩
  have hset : assigned exactTexts (ascii "cache.ttl_seconds") (ascii "3600") =
      some (.ttlSeconds 3600) :=
      @assigned_text exactTexts (.ttlSeconds 3600) (by decide : (0 : Int) ≤ 3600)
  intro r hr x hx
  rcases List.mem_pair.mp hr with rfl | rfl
  · cases hx
    rfl
  · cases hset.symm.trans hx
    rfl

/-- **Behind `SET`, `CONFIG SHOW` tells what was before.** -/
theorem config_show_keeps_start : Admitted {} ∧
    ¬ ReportsInEffect exactTexts (fun _ => [])
      (after (RuntimeState.respond exactTexts fun _ => []) (.start {})
        [.set (ascii "cache.ttl_seconds") (ascii "60")]) := by
  refine ⟨admitted_default, fun h => ?_⟩
  have hset : (RuntimeRequest.set (ascii "cache.ttl_seconds") (ascii "60")).assigned exactTexts =
      some (.ttlSeconds 60) :=
      @assigned_text exactTexts (.ttlSeconds 60) (by decide : (0 : Int) ≤ 60)
  have hnext := (@respond_assigned _ _ (.start {}) (fun _ => []) _ rfl hset).1
  rw [after, List.foldl_cons, List.foldl_nil, hnext] at h
  have hshown := h.setting admitted_default .ttlSeconds
  cases (@setting_apply (.start {}) rfl (.ttlSeconds 60) .ttlSeconds).symm.trans hshown

end Texts

end Nvecd.Configuration
