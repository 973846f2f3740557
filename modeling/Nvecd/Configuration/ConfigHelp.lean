/-
  File:      Nvecd/Configuration/ConfigHelp.lean
  Subject:   `CONFIG SHOW` (`config/config_help.cpp`, `handlers/admin_handler.cpp`).

  A path leads to a node of the document of the settings. Below that node every member is masked
  whose path, as the request spells it and with the names below, has a sensitive word in it; a
  single value is masked if the path itself has one.

  * `navigateJsonPath`, `maskSensitiveFields`, `formatConfigForDisplay` -- as in the source;
  * `maskSensitiveFields_object` -- where two objects differ only in sensitive members, they are
    masked alike;
  * `formatConfigForDisplay_eq` -- the password makes no difference.
-/
import Mathlib.Data.List.Infix
import Nvecd.Configuration.Config

namespace Nvecd.Configuration

open Nvecd.Utils
open Nvecd.Storage (Bytes)
open Nvecd.Server (ascii)
open Nvecd.Vectors (textOf)

/-! ## 1. Paths -/

/-- `ToLower`. -/
def toLower (str : Bytes) : Bytes := str.map fun b => if 65 ≤ b ∧ b ≤ 90 then b + 32 else b

def sensitiveWords : List Bytes :=
  ["password", "secret", "key", "token", "requirepass", "pass"].map ascii

def isSensitiveField (path : Bytes) : Bool :=
  sensitiveWords.any fun word => decide (word <:+: toLower path)

/-- `SplitPathHelper`: the parts between the dots that are not empty. -/
def splitPathHelper (path : Bytes) : List Bytes := Nvecd.Server.split path 46

/-- The member of an object with this name. -/
def Json.find? (part : Bytes) : Json → Option Json
  | .object members => (members.find? fun m => m.1 = part).map (·.2)
  | _ => none

/-- `NavigateJsonPath`, along the parts; an array stands for its first element. -/
def navigate : Json → List Bytes → Option Json
  | current, [] => some current
  | current, part :: rest =>
    match current.find? part with
    | some child => navigate child rest
    | none =>
      match current with
      | .array (first :: _) =>
        match first.find? part with
        | some child => navigate child rest
        | none => none
      | _ => none

def navigateJsonPath (json : Json) (path : Bytes) : Option Json :=
  if path = [] then some json else navigate json (splitPathHelper path)

/-! ## 2. Masks -/

def masked : Json := .string (ascii "***")

/-- The path of a member. -/
def childPath (path key : Bytes) : Bytes := if path = [] then key else path ++ 46 :: key

mutual

/-- `MaskSensitiveFieldsRecursive`. -/
def maskSensitiveFields (path : Bytes) : Json → Json
  | .object members => .object (maskMembers path members)
  | .array elements => .array (maskElements path elements)
  | j => j

def maskMembers (path : Bytes) : List (Bytes × Json) → List (Bytes × Json)
  | [] => []
  | (key, child) :: rest =>
    (key, if isSensitiveField (childPath path key) then masked
      else if child.isObject || child.isArray then maskSensitiveFields (childPath path key) child
      else child) :: maskMembers path rest

def maskElements (path : Bytes) : List Json → List Json
  | [] => []
  | child :: rest => maskSensitiveFields path child :: maskElements path rest

end

section Show

variable (dumpDouble : ℚ → Bytes) (dump : Json → Bytes)

/-- **`FormatConfigForDisplay`.** -/
def formatConfigForDisplay (config : Config) (path : Bytes) : Except Error Bytes :=
  match navigateJsonPath (configToJson dumpDouble config) path with
  | none => .error (makeError .kNotFound ("Path not found: " ++ textOf path))
  | some json =>
    if path ≠ [] ∧ ¬ (json.isObject || json.isArray) ∧ isSensitiveField path ∧ ¬ json.isNull then
      .ok (jsonToYaml dump 0 masked)
    else .ok (jsonToYaml dump 0 (maskSensitiveFields path json))

/-- `HandleConfigShow`. -/
def handleConfigShow (config : Option Config) (path : Bytes) : Except Error Bytes :=
  match config with
  | none => .error (makeError .kInternalError "Server configuration is not available")
  | some config =>
    match formatConfigForDisplay dumpDouble dump config path with
    | .error e => .error e
    | .ok text => .ok (ascii "+OK\n" ++ text ++ ascii "END\r\n")

end Show

/-! ## 3. What is sensitive -/

theorem toLower_append (s t : Bytes) : toLower (s ++ t) = toLower s ++ toLower t :=
  List.map_append

/-- A path is sensitive if a part of it is. -/
theorem isSensitiveField_of_infix {s path : Bytes} (h : s <:+: path)
    (hs : isSensitiveField s = true) : isSensitiveField path = true := by
  rw [isSensitiveField, List.any_eq_true] at hs ⊢
  obtain ⟨word, hword, hin⟩ := hs
  rw [decide_eq_true_eq] at hin
  obtain ⟨before, behind, rfl⟩ := h
  refine ⟨word, hword, decide_eq_true (hin.trans ?_)⟩
  rw [toLower_append, toLower_append]
  exact List.infix_append _ _ _

theorem isSensitiveField_childPath {key : Bytes} (path : Bytes)
    (h : isSensitiveField key = true) : isSensitiveField (childPath path key) = true := by
  refine isSensitiveField_of_infix ?_ h
  rw [childPath]
  split
  · exact List.infix_refl key
  · exact ⟨path ++ [46], [], by simp⟩

theorem mem_intersperse {sep part : Bytes} {parts : List Bytes} (h : part ∈ parts) :
    part ∈ List.intersperse sep parts := by
  induction parts with
  | nil => cases h
  | cons p parts ih =>
    cases parts with
    | nil => exact h
    | cons q parts =>
      rw [List.intersperse_cons_cons]
      rcases List.mem_cons.mp h with rfl | h
      · exact List.mem_cons_self
      · exact List.mem_cons_of_mem _ (List.mem_cons_of_mem _ (ih h))

/-- The parts of a path stand in it. -/
theorem infix_of_mem_splitPathHelper {part path : Bytes} (h : part ∈ splitPathHelper path) :
    part <:+: path := by
  have hin := List.infix_of_mem_flatten (@mem_intersperse [46] _ _ (List.mem_of_mem_filter h))
  have hpath : List.intercalate [46] (path.splitOn 46) = path := List.intercalate_splitOn 46
  rw [List.intercalate] at hpath
  rwa [hpath] at hin

/-- Members by the same names, whose values are related. -/
def AlikeMembers (R : Bytes → Json → Json → Prop) (members members' : List (Bytes × Json)) : Prop :=
  List.Forall₂ (fun m m' => m.1 = m'.1 ∧ R m.1 m.2 m'.2) members members'

/-- Values that are masked alike under every path to the object they are members of. -/
def MaskedAlike (key : Bytes) (child child' : Json) : Prop :=
  isSensitiveField key = true ∨ child = child' ∨
    ((child.isObject || child.isArray) = true ∧ (child'.isObject || child'.isArray) = true ∧
      ∀ path, maskSensitiveFields path child = maskSensitiveFields path child')

/-- **Objects whose members are masked alike are.** -/
theorem maskMembers_eq {members members' : List (Bytes × Json)} (path : Bytes)
    (h : AlikeMembers MaskedAlike members members') :
    maskMembers path members = maskMembers path members' := by
  induction h with
  | nil => rfl
  | @cons m m' members members' hm _ ih =>
    obtain ⟨key, child⟩ := m
    obtain ⟨key', child'⟩ := m'
    obtain ⟨heq, hm⟩ := hm
    simp only at heq hm
    subst heq
    rw [maskMembers, maskMembers, ih]
    rcases hm with hsensitive | rfl | ⟨hchild, hchild', hmask⟩
    · rw [if_pos (isSensitiveField_childPath path hsensitive),
        if_pos (isSensitiveField_childPath path hsensitive)]
    · rfl
    · rw [if_pos hchild, if_pos hchild', hmask]

theorem maskSensitiveFields_object {members members' : List (Bytes × Json)}
    (h : AlikeMembers MaskedAlike members members') (path : Bytes) :
    maskSensitiveFields path (.object members) = maskSensitiveFields path (.object members') := by
  rw [maskSensitiveFields, maskSensitiveFields, maskMembers_eq path h]

theorem AlikeMembers.mono {R S : Bytes → Json → Json → Prop} {members members' : List (Bytes × Json)}
    (h : AlikeMembers R members members') (hle : ∀ {key n n'}, R key n n' → S key n n') :
    AlikeMembers S members members' := h.imp fun _ _ hm => ⟨hm.1, hle hm.2⟩

theorem alikeMembers_find? {R : Bytes → Json → Json → Prop} {members members' : List (Bytes × Json)}
    (h : AlikeMembers R members members') (part : Bytes) :
    ((Json.object members).find? part = none ∧ (Json.object members').find? part = none) ∨
      ∃ child child', (Json.object members).find? part = some child ∧
        (Json.object members').find? part = some child' ∧ R part child child' := by
  induction h with
  | nil => exact .inl ⟨rfl, rfl⟩
  | @cons m m' members members' hm _ ih =>
    obtain ⟨key, child⟩ := m
    obtain ⟨key', child'⟩ := m'
    obtain ⟨heq, hm⟩ := hm
    simp only at heq hm
    subst heq
    by_cases hkey : key = part
    · subst hkey
      exact .inr ⟨child, child', by simp [Json.find?], by simp [Json.find?], hm⟩
    · simpa [Json.find?, hkey] using ih

theorem alikeMembers_orderedInsert {R : Bytes → Json → Json → Prop}
    {members members' : List (Bytes × Json)} {m m' : Bytes × Json} (heq : m.1 = m'.1)
    (hm : R m.1 m.2 m'.2) (h : AlikeMembers R members members') :
    AlikeMembers R (members.orderedInsert (fun m n => Json.leBytes m.1 n.1) m)
      (members'.orderedInsert (fun m n => Json.leBytes m.1 n.1) m') := by
  induction h with
  | nil => exact .cons ⟨heq, hm⟩ .nil
  | @cons n n' members members' hn htail ih =>
    rw [List.orderedInsert_cons, List.orderedInsert_cons, ← heq, ← hn.1]
    split
    · exact .cons ⟨heq, hm⟩ (.cons hn htail)
    · exact .cons hn ih

/-- The order of the members is that of their names. -/
theorem alikeMembers_ofMembers {R : Bytes → Json → Json → Prop}
    {members members' : List (String × Json)}
    (h : List.Forall₂ (fun m m' => m.1 = m'.1 ∧ R (ascii m.1) m.2 m'.2) members members') :
    ∃ ms ms', Json.ofMembers members = .object ms ∧ Json.ofMembers members' = .object ms' ∧
      AlikeMembers R ms ms' := by
  refine ⟨_, _, rfl, rfl, ?_⟩
  induction h with
  | nil => exact .nil
  | @cons m m' members members' hm _ ih =>
    rw [List.map_cons, List.map_cons, List.insertionSort_cons, List.insertionSort_cons]
    exact alikeMembers_orderedInsert (congrArg ascii hm.1) hm.2 ih

theorem find?_of_mem {members : List (Bytes × Json)} {key : Bytes} {value : Json}
    (hnodup : (members.map Prod.fst).Nodup) (hmem : (key, value) ∈ members) :
    (Json.object members).find? key = some value := by
  induction members with
  | nil => cases hmem
  | cons m members ih =>
    rw [List.map_cons, List.nodup_cons] at hnodup
    rcases List.mem_cons.mp hmem with rfl | hmem
    · simp [Json.find?]
    · have hne : m.1 ≠ key := fun heq => hnodup.1 (heq ▸ List.mem_map_of_mem hmem)
      simpa [Json.find?, hne] using ih hnodup.2 hmem

/-- A member of an object is found by its name. -/
theorem find?_ofMembers {members : List (String × Json)} {name : String} {value : Json}
    (hnodup : ((members.map Prod.fst).map ascii).Nodup) (hmem : (name, value) ∈ members) :
    (Json.ofMembers members).find? (ascii name) = some value := by
  have hperm := List.perm_insertionSort (fun m n : Bytes × Json => Json.leBytes m.1 n.1 = true)
    (members.map fun m => (ascii m.1, m.2))
  refine find?_of_mem ?_ (hperm.mem_iff.mpr (List.mem_map_of_mem hmem))
  rw [(hperm.map Prod.fst).nodup_iff]
  simpa [List.map_map, Function.comp_def] using hnodup

/-! ## 4. The password makes no difference -/

variable {dumpDouble : ℚ → Bytes} {dump : Json → Bytes} {config : Config} {password : Bytes}

/-- Two values of one setting: the same, or texts under a sensitive name. -/
def AlikeSetting (key : Bytes) (value value' : Json) : Prop :=
  value = value' ∨ isSensitiveField key = true ∧ ∃ s s', value = .string s ∧ value' = .string s'

/-- Sections with the same settings, but for sensitive ones. -/
def AlikeSection (_ : Bytes) (n n' : Json) : Prop :=
  n = n' ∨ ∃ ms ms', n = .object ms ∧ n' = .object ms' ∧ AlikeMembers AlikeSetting ms ms'

theorem AlikeSetting.maskedAlike {key : Bytes} {value value' : Json}
    (h : AlikeSetting key value value') : MaskedAlike key value value' := by
  rcases h with h | ⟨h, -⟩
  · exact .inr (.inl h)
  · exact .inl h

theorem AlikeSection.maskedAlike {key : Bytes} {n n' : Json} (h : AlikeSection key n n') :
    MaskedAlike key n n' := by
  rcases h with rfl | ⟨ms, ms', rfl, rfl, h⟩
  · exact .inr (.inl rfl)
  · exact .inr (.inr ⟨rfl, rfl, maskSensitiveFields_object (h.mono AlikeSetting.maskedAlike)⟩)

theorem isSensitiveField_requirepass : isSensitiveField (ascii "requirepass") = true := by
  decide +kernel

/-- **The documents of two settings that differ in the password.** -/
theorem alike_configToJson (hold : config.requirepass ≠ []) (hnew : password ≠ []) :
    ∃ ms ms', configToJson dumpDouble config = .object ms ∧
      configToJson dumpDouble { config with requirepass := password } = .object ms' ∧
      AlikeMembers AlikeSection ms ms' := by
  refine alikeMembers_ofMembers (.cons ⟨rfl, .inr (alikeMembers_ofMembers ?_)⟩ ?_)
  · refine .cons ⟨rfl, .inl ?_⟩ (.cons ⟨rfl, .inr ⟨isSensitiveField_requirepass,
      _, _, rfl, rfl⟩⟩ .nil)
    simp [hold, hnew]
  · exact List.forall₂_same.mpr fun m _ => ⟨rfl, .inl rfl⟩

/-- What a path leads to in two such documents. -/
inductive AlikeNode (parts : List Bytes) : Option Json → Option Json → Prop where
  | same (n : Option Json) : AlikeNode parts n n
  | sections {n n' : Json} (hn : (n.isObject || n.isArray) = true)
      (hn' : (n'.isObject || n'.isArray) = true)
      (hmask : ∀ path, maskSensitiveFields path n = maskSensitiveFields path n') :
      AlikeNode parts (some n) (some n')
  | sensitive {part : Bytes} (hpart : part ∈ parts) (h : isSensitiveField part = true)
      (s s' : Bytes) : AlikeNode parts (some (.string s)) (some (.string s'))

theorem AlikeNode.cons {parts : List Bytes} {n n' : Option Json} (h : AlikeNode parts n n')
    (part : Bytes) : AlikeNode (part :: parts) n n' := by
  cases h with
  | same => exact .same n
  | sections hn hn' hmask => exact .sections hn hn' hmask
  | sensitive hpart h s s' => exact .sensitive (List.mem_cons_of_mem _ hpart) h s s'

theorem navigate_object {ms : List (Bytes × Json)} {part : Bytes} {rest : List Bytes} :
    navigate (.object ms) (part :: rest) =
      match (Json.object ms).find? part with
      | some child => navigate child rest
      | none => none := by
  rw [navigate]
  exact fun _ _ h => nomatch h

theorem navigate_setting {key : Bytes} {value value' : Json} (h : AlikeSetting key value value')
    (parts : List Bytes) : AlikeNode (key :: parts) (navigate value parts) (navigate value' parts) := by
  rcases h with rfl | ⟨hkey, s, s', rfl, rfl⟩
  · exact .same _
  · cases parts with
    | nil => exact .sensitive List.mem_cons_self hkey s s'
    | cons part rest => exact .same none

theorem AlikeSection.node {key : Bytes} {n n' : Json} (h : AlikeSection key n n')
    (parts : List Bytes) : AlikeNode parts (some n) (some n') := by
  rcases h with rfl | ⟨ms, ms', rfl, rfl, h⟩
  · exact .same _
  · exact .sections rfl rfl (maskSensitiveFields_object (h.mono AlikeSetting.maskedAlike))

theorem navigate_section {key : Bytes} {n n' : Json} (h : AlikeSection key n n')
    (parts : List Bytes) : AlikeNode parts (navigate n parts) (navigate n' parts) := by
  cases parts with
  | nil => exact h.node []
  | cons part rest =>
    rcases h with rfl | ⟨ms, ms', rfl, rfl, h⟩
    · exact .same _
    · rw [navigate_object, navigate_object]
      rcases alikeMembers_find? h part with ⟨hn, hn'⟩ | ⟨value, value', hv, hv', halike⟩
      · rw [hn, hn']
        exact .same none
      · rw [hv, hv']
        exact navigate_setting halike rest

theorem navigate_document {ms ms' : List (Bytes × Json)} (h : AlikeMembers AlikeSection ms ms')
    (parts : List Bytes) :
    AlikeNode parts (navigate (.object ms) parts) (navigate (.object ms') parts) := by
  cases parts with
  | nil => exact .sections rfl rfl (maskSensitiveFields_object (h.mono AlikeSection.maskedAlike))
  | cons part rest =>
    rw [navigate_object, navigate_object]
    rcases alikeMembers_find? h part with ⟨hn, hn'⟩ | ⟨n, n', hv, hv', halike⟩
    · rw [hn, hn']
      exact .same none
    · rw [hv, hv']
      exact (navigate_section halike rest).cons part

/-- **What is shown does not depend on the password.** -/
theorem formatConfigForDisplay_eq (hold : config.requirepass ≠ []) (hnew : password ≠ [])
    (path : Bytes) :
    formatConfigForDisplay dumpDouble dump { config with requirepass := password } path =
      formatConfigForDisplay dumpDouble dump config path := by
  obtain ⟨ms, ms', hms, hms', halike⟩ := @alike_configToJson dumpDouble _ _ hold hnew
  have hnode : AlikeNode (splitPathHelper path) (navigateJsonPath (.object ms) path)
      (navigateJsonPath (.object ms') path) := by
    by_cases hpath : path = []
    · have hnil := navigate_document halike []
      subst hpath
      exact hnil
    · rw [navigateJsonPath, navigateJsonPath, if_neg hpath, if_neg hpath]
      exact navigate_document halike _
  rw [formatConfigForDisplay, formatConfigForDisplay, hms, hms']
  generalize navigateJsonPath (.object ms) path = r at hnode ⊢
  generalize navigateJsonPath (.object ms') path = r' at hnode ⊢
  cases hnode with
  | same => rfl
  | sections hn hn' hmask =>
    simp only [hn, hn', not_true_eq_false, false_and, and_false, if_false, hmask]
  | sensitive hpart hkey s s' =>
    -- the part stands in the path, so the path is sensitive
    have hin := infix_of_mem_splitPathHelper hpart
    have hpath : path ≠ [] := by
      rintro rfl
      cases hpart
    have hsensitive := isSensitiveField_of_infix hin hkey
    simp [Json.isObject, Json.isArray, Json.isNull, hpath, hsensitive]

/-- **`CONFIG SHOW` answers alike**, whatever the password is. -/
theorem handleConfigShow_eq (hold : config.requirepass ≠ []) (hnew : password ≠ [])
    (path : Bytes) :
    handleConfigShow dumpDouble dump (some { config with requirepass := password }) path =
      handleConfigShow dumpDouble dump (some config) path := by
  rw [handleConfigShow, handleConfigShow]
  simp only [formatConfigForDisplay_eq hold hnew path]

end Nvecd.Configuration
