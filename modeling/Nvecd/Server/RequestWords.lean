/-
  File:      Nvecd/Server/RequestWords.lean
  Subject:   `server/command_parser.cpp`: the words of a line, whatever bytes it holds.

  `Trim` takes away every kind of white space, `Split` cuts at the blank alone, so a word may hold
  a tab, but neither the first one at its front nor the last one at its end.

  * `wordsOf`, `OneLine` -- what `requestTokens` makes of a line, and when (`requestTokens_ok_iff`);
  * `IsToken`, `Begins`, `Ends` -- what its words are, and what a line can be made of
    (`requestTokens_lineOf`);
  * `Variant` -- the same line but for the white space in front and the case of its keywords;
  * `parseCommand_variant` -- only `AUTH` makes something else of it.
-/
import Nvecd.Server.CommandParser

namespace Nvecd.Server

open Nvecd.Lib Nvecd.Storage Nvecd.Utils Nvecd.Events Nvecd.Vectors Nvecd.Cache

/-! ## 1. White space at both ends -/

/-- What `Trim` and `Split` leave of a line. -/
def wordsOf (line : Bytes) : List Bytes := split (trim line) 32

/-- There is no end of a line but at the end. -/
def OneLine (request : Bytes) : Prop :=
  13 ∉ rawFirstLine request ∧ 10 ∉ rawFirstLine request

theorem trim_append_space {l t : Bytes} (h : ∀ b ∈ t, isSpace b = true) :
    trim (l ++ t) = trim l := by
  have hback : ∀ x : Bytes, (x ++ t).reverse.dropWhile isSpace = x.reverse.dropWhile isSpace := by
    intro x
    rw [List.reverse_append, List.dropWhile_append_of_pos]
    exact fun b hb => h b (List.mem_reverse.mp hb)
  unfold trim
  rw [List.dropWhile_append]
  split
  · rename_i hempty
    rw [List.isEmpty_iff.mp hempty, List.dropWhile_eq_nil_iff.mpr h]
  · rw [hback]

theorem trim_dropWhile (l : Bytes) : trim (l.dropWhile isSpace) = trim l := by
  have h : (l.dropWhile isSpace).dropWhile isSpace = l.dropWhile isSpace :=
    List.dropWhile_idempotent isSpace l
  rw [trim, h, trim]

/-- A line and the end of it. -/
theorem rawFirstLine_append (request : Bytes) :
    ∃ ending, request = rawFirstLine request ++ ending ∧ ∀ b ∈ ending, b = 13 ∨ b = 10 := by
  refine ⟨(request.reverse.takeWhile fun b => b = 13 ∨ b = 10).reverse, ?_, ?_⟩
  · rw [rawFirstLine, ← List.reverse_append, List.takeWhile_append_dropWhile, List.reverse_reverse]
  · intro b hb
    simpa using List.mem_takeWhile_imp (List.mem_reverse.mp hb)

theorem trim_rawFirstLine (request : Bytes) : trim (rawFirstLine request) = trim request := by
  obtain ⟨ending, heq, hending⟩ := rawFirstLine_append request
  conv_rhs => rw [heq]
  refine (trim_append_space fun b hb => ?_).symm
  obtain rfl | rfl := hending b hb <;> rfl

/-- **When a line has words**, and which. -/
theorem requestTokens_ok_iff {request : Bytes} {tokens : List Bytes} :
    requestTokens request = .ok tokens ↔
      0 ∉ request ∧ OneLine request ∧ wordsOf request = tokens ∧ tokens ≠ [] := by
  have hwords : split (trim (rawFirstLine request)) 32 = wordsOf request := by
    rw [trim_rawFirstLine, wordsOf]
  have hempty : rawFirstLine request = [] → wordsOf request = [] := by
    intro h
    rw [← hwords, h]
    rfl
  have hread : requestTokens request =
      if request = [] then .error (syntaxError "Empty command")
      else if 0 ∈ request then
        .error (syntaxError "Command must not contain embedded NUL bytes")
      else if rawFirstLine request = [] then .error (syntaxError "Empty command")
      else if 13 ∈ rawFirstLine request ∨ 10 ∈ rawFirstLine request then
        .error (syntaxError "Command must be a single line")
      else if wordsOf request = [] then .error (syntaxError "Empty command")
      else .ok (wordsOf request) := by
    rw [← hwords]
    rfl
  rw [hread]
  constructor
  · intro h
    repeat' split at h
    all_goals cases h
    rename_i hnul _ hline hne
    exact ⟨hnul, not_or.mp hline, rfl, hne⟩
  · rintro ⟨hnul, hline, rfl, hne⟩
    have hrequest : request ≠ [] := by
      rintro rfl
      exact hne rfl
    rw [if_neg hrequest, if_neg hnul, if_neg fun h => hne (hempty h),
      if_neg (not_or.mpr hline), if_neg hne]

/-! ## 2. Words -/

/-- A word of a line: the blank, NUL and the ends of a line are not in it. -/
def IsToken (word : Bytes) : Prop :=
  word ≠ [] ∧ ∀ b ∈ word, b ≠ 32 ∧ b ≠ 0 ∧ b ≠ 13 ∧ b ≠ 10

/-- No white space at the front. -/
def Begins (word : Bytes) : Prop := ∃ b rest, word = b :: rest ∧ isSpace b = false

/-- No white space at the end. -/
def Ends (word : Bytes) : Prop := ∃ rest b, word = rest ++ [b] ∧ isSpace b = false

theorem trim_eq_self {l : Bytes} (hb : Begins l) (he : Ends l) : trim l = l := by
  obtain ⟨b, rest, hl, hspace⟩ := hb
  obtain ⟨front, e, hl', hspace'⟩ := he
  have hfront : l.dropWhile isSpace = l := by
    rw [hl, List.dropWhile_cons_of_neg (by simp [hspace])]
  rw [trim, hfront, hl', List.reverse_append, List.reverse_singleton, List.singleton_append,
    List.dropWhile_cons_of_neg (by simp [hspace']), List.reverse_cons, List.reverse_reverse]

/-- What is left of a line has white space at neither end. -/
theorem trim_ends {l : Bytes} (h : trim l ≠ []) : Begins (trim l) ∧ Ends (trim l) := by
  have hback : ∀ x : Bytes, (x.reverse.dropWhile isSpace).reverse <+: x := by
    intro x
    conv_rhs => rw [← List.reverse_reverse x]
    exact List.reverse_prefix.mpr (List.dropWhile_suffix _)
  constructor
  · -- the front of what is cut at the back is the front of what was cut at the front
    obtain ⟨b, rest, heq⟩ := List.exists_cons_of_ne_nil h
    obtain ⟨t, ht⟩ := hback (l.dropWhile isSpace)
    have hcons : l.dropWhile isSpace = b :: (rest ++ t) := by
      rw [← ht, ← List.cons_append, ← heq]
      rfl
    refine ⟨b, rest, heq, ?_⟩
    have hhead := List.head?_dropWhile_not isSpace l
    rw [hcons] at hhead
    exact hhead
  · obtain ⟨b, rest, heq⟩ := List.exists_cons_of_ne_nil
      (l := (l.dropWhile isSpace).reverse.dropWhile isSpace)
      (fun hnil => h (by rw [trim, hnil]; rfl))
    refine ⟨rest.reverse, b, by rw [trim, heq, List.reverse_cons], ?_⟩
    have hhead := List.head?_dropWhile_not isSpace (l.dropWhile isSpace).reverse
    rw [heq] at hhead
    exact hhead

theorem mem_trim {l : Bytes} {b : UInt8} (h : b ∈ trim l) : b ∈ l := by
  have h := (List.dropWhile_sublist _).mem (List.mem_reverse.mp h)
  exact (List.dropWhile_sublist _).mem (List.mem_reverse.mp h)

/-- The bytes between two cuts are bytes of the line, without blanks. -/
theorem mem_splitOn {l : Bytes} : ∀ w ∈ l.splitOn 32, ∀ b ∈ w, b ∈ l ∧ b ≠ 32 := by
  induction l with
  | nil =>
    intro w hw b hb
    rw [List.splitOn_nil, List.mem_singleton] at hw
    subst hw
    cases hb
  | cons c l ih =>
    intro w hw b hb
    rw [List.splitOn_cons_eq_if_modifyHead] at hw
    split at hw
    · rcases List.mem_cons.mp hw with rfl | hw
      · cases hb
      · exact ⟨List.mem_cons_of_mem c (ih w hw b hb).1, (ih w hw b hb).2⟩
    · rename_i hc
      obtain ⟨v, vs, hvs⟩ := List.exists_cons_of_ne_nil (List.splitOn_ne_nil 32 l)
      rw [hvs, List.modifyHead_cons] at hw
      rw [hvs] at ih
      rcases List.mem_cons.mp hw with rfl | hw
      · rcases List.mem_cons.mp hb with rfl | hb
        · exact ⟨List.mem_cons_self, by simpa using hc⟩
        · have hin := ih v List.mem_cons_self b hb
          exact ⟨List.mem_cons_of_mem c hin.1, hin.2⟩
      · have hin := ih w (List.mem_cons_of_mem v hw) b hb
        exact ⟨List.mem_cons_of_mem c hin.1, hin.2⟩

/-- The words of a request are words. -/
theorem isToken_of_requestTokens {request : Bytes} {tokens : List Bytes}
    (h : requestTokens request = .ok tokens) : ∀ w ∈ tokens, IsToken w := by
  obtain ⟨hnul, hline, rfl, -⟩ := requestTokens_ok_iff.1 h
  intro w hw
  rw [wordsOf, split, List.mem_filter, decide_eq_true_eq] at hw
  refine ⟨hw.2, fun b hb => ?_⟩
  obtain ⟨hin, hblank⟩ := mem_splitOn w hw.1 b hb
  rw [← trim_rawFirstLine] at hin
  have hin := mem_trim hin
  have hrequest : b ∈ request := by
    obtain ⟨ending, heq, -⟩ := rawFirstLine_append request
    rw [heq]
    exact List.mem_append_left _ hin
  refine ⟨hblank, ?_, ?_, ?_⟩
  · rintro rfl
    exact hnul hrequest
  · rintro rfl
    exact hline.1 hin
  · rintro rfl
    exact hline.2 hin

/-- The last word ends as the line does. -/
theorem splitOn_append_singleton (l : Bytes) {b : UInt8} (h : b ≠ 32) :
    ∃ init w, (l ++ [b]).splitOn 32 = init ++ [w ++ [b]] := by
  induction l with
  | nil =>
    refine ⟨[], [], ?_⟩
    rw [List.nil_append, List.splitOn_eq_singleton (by simpa using h.symm)]
    rfl
  | cons c l ih =>
    obtain ⟨init, w, heq⟩ := ih
    rw [List.cons_append, List.splitOn_cons_eq_if_modifyHead, heq]
    split
    · exact ⟨[] :: init, w, rfl⟩
    · cases init with
      | nil => exact ⟨[], c :: w, rfl⟩
      | cons v init => exact ⟨(c :: v) :: init, w, rfl⟩

theorem split_ends {l : Bytes} (h : Ends l) : ∃ init w, split l 32 = init ++ [w] ∧ Ends w := by
  obtain ⟨front, b, rfl, hspace⟩ := h
  have hb : b ≠ 32 := by
    rintro rfl
    cases hspace
  obtain ⟨init, w, heq⟩ := splitOn_append_singleton front hb
  refine ⟨init.filter fun token => token ≠ [], w ++ [b], ?_, w, b, rfl, hspace⟩
  rw [split, heq, List.filter_append]
  congr 1
  exact List.filter_eq_self.mpr (by simp)

/-- The last word of a request ends without white space. -/
theorem ends_of_requestTokens {request : Bytes} {init : List Bytes} {w : Bytes}
    (h : requestTokens request = .ok (init ++ [w])) : Ends w := by
  obtain ⟨-, -, hwords, hne⟩ := requestTokens_ok_iff.1 h
  have htrim : trim request ≠ [] := by
    intro hnil
    rw [wordsOf, hnil] at hwords
    exact hne (hwords.symm.trans rfl)
  obtain ⟨init', w', heq, hends⟩ := split_ends (trim_ends htrim).2
  rw [wordsOf, heq] at hwords
  have hlast : w' = w := by
    simpa using congrArg List.getLast? hwords
  exact hlast ▸ hends

/-! ## 3. A line made of words -/

theorem lineOf_begins {w : Bytes} (words : List Bytes) (h : Begins w) :
    Begins (lineOf (w :: words)) := by
  obtain ⟨b, rest, rfl, hspace⟩ := h
  unfold lineOf
  cases words with
  | nil => exact ⟨b, rest, by rw [List.intercalate_singleton], hspace⟩
  | cons v words => exact ⟨b, _, by rw [List.intercalate_cons_cons]; rfl, hspace⟩

theorem lineOf_ends (init : List Bytes) {w : Bytes} (h : Ends w) : Ends (lineOf (init ++ [w])) := by
  have hfront : ∃ front, lineOf (init ++ [w]) = front ++ w := by
    unfold lineOf
    induction init with
    | nil => exact ⟨[], by rw [List.nil_append, List.intercalate_singleton, List.nil_append]⟩
    | cons v init ih =>
      obtain ⟨front, heq⟩ := ih
      obtain ⟨v', vs, hcons⟩ := List.exists_cons_of_ne_nil (l := init ++ [w]) (by simp)
      refine ⟨v ++ [32] ++ front, ?_⟩
      rw [List.cons_append, hcons, List.intercalate_cons_cons, ← hcons, heq]
      simp only [List.append_assoc]
  obtain ⟨front, heq⟩ := hfront
  obtain ⟨rest, b, rfl, hspace⟩ := h
  exact ⟨front ++ rest, b, by rw [heq, List.append_assoc], hspace⟩

/-- **A line of words has these words**, whatever white space they hold inside. -/
theorem requestTokens_lineOf {w v : Bytes} {init words : List Bytes}
    (hfirst : words = w :: words.tail) (hlast : words = init ++ [v])
    (hw : ∀ u ∈ words, IsToken u) (hbegins : Begins w) (hends : Ends v) :
    requestTokens (lineOf words) = .ok words := by
  have hne : words ≠ [] := by
    rw [hfirst]
    exact List.cons_ne_nil _ _
  have hbytes : ∀ b ∈ lineOf words, b ≠ 0 ∧ b ≠ 13 ∧ b ≠ 10 := by
    intro b hb
    obtain rfl | ⟨u, hu, hb⟩ := mem_lineOf hb
    · decide
    · exact ((hw u hu).2 b hb).2
  have hraw : rawFirstLine (lineOf words) = lineOf words :=
    rawFirstLine_eq fun b hb => (hbytes b hb).2
  have hline : OneLine (lineOf words) := by
    unfold OneLine
    rw [hraw]
    exact ⟨fun h => (hbytes 13 h).2.1 rfl, fun h => (hbytes 10 h).2.2 rfl⟩
  have htrim : trim (lineOf words) = lineOf words := by
    refine trim_eq_self ?_ ?_
    · rw [hfirst]
      exact lineOf_begins _ hbegins
    · rw [hlast]
      exact lineOf_ends _ hends
  refine requestTokens_ok_iff.2 ⟨fun h => (hbytes 0 h).1 rfl, hline, ?_, hne⟩
  rw [wordsOf, htrim, split, lineOf,
    List.splitOn_intercalate 32 (fun u hu h => ((hw u hu).2 32 h).1 rfl) hne]
  exact List.filter_eq_self.mpr fun u hu => by simpa using (hw u hu).1

/-! ## 4. The case of letters -/

/-- `std::toupper`. -/
def upperByte (b : UInt8) : UInt8 := if 97 ≤ b ∧ b ≤ 122 then b - 32 else b

theorem upperByte_eq_iff {b c : UInt8} (h : c < 65) : upperByte b = c ↔ b = c := by
  unfold upperByte
  split
  · rename_i hlower
    rw [UInt8.le_iff_toNat_le, UInt8.le_iff_toNat_le] at hlower
    have h97 : (97 : UInt8).toNat = 97 := rfl
    have h122 : (122 : UInt8).toNat = 122 := rfl
    have h65 : (65 : UInt8).toNat = 65 := rfl
    have h32 : (32 : UInt8).toNat = 32 := rfl
    have hc : c.toNat < 65 := UInt8.lt_iff_toNat_lt.mp h
    have hsub : (b - 32).toNat = b.toNat - 32 :=
      UInt8.toNat_sub_of_le b 32 (UInt8.le_iff_toNat_le.mpr (by omega))
    refine iff_of_false ?_ ?_
    · intro heq
      have heq := congrArg UInt8.toNat heq
      omega
    · intro heq
      have heq := congrArg UInt8.toNat heq
      omega
  · rfl

theorem isSpace_upperByte (b : UInt8) : isSpace (upperByte b) = isSpace b := by
  have hspace : ∀ c : UInt8, isSpace c = true ↔
      c = 32 ∨ c = 9 ∨ c = 10 ∨ c = 11 ∨ c = 12 ∨ c = 13 := by
    intro c
    simp only [isSpace, Bool.or_eq_true, Bool.and_eq_true, decide_eq_true_eq,
      UInt8.le_iff_toNat_le, ← UInt8.toNat_inj]
    have h9 : (9 : UInt8).toNat = 9 := rfl
    have h10 : (10 : UInt8).toNat = 10 := rfl
    have h11 : (11 : UInt8).toNat = 11 := rfl
    have h12 : (12 : UInt8).toNat = 12 := rfl
    have h13 : (13 : UInt8).toNat = 13 := rfl
    have h32 : (32 : UInt8).toNat = 32 := rfl
    omega
  rw [Bool.eq_iff_iff, hspace, hspace, upperByte_eq_iff (by decide), upperByte_eq_iff (by decide),
    upperByte_eq_iff (by decide), upperByte_eq_iff (by decide), upperByte_eq_iff (by decide),
    upperByte_eq_iff (by decide)]

theorem toUpper_eq_map (l : Bytes) : toUpper l = l.map upperByte := rfl

theorem mem_toUpper_iff {l : Bytes} {c : UInt8} (h : c < 65) : c ∈ toUpper l ↔ c ∈ l := by
  rw [toUpper_eq_map, List.mem_map]
  constructor
  · rintro ⟨b, hb, heq⟩
    exact (upperByte_eq_iff h).mp heq ▸ hb
  · exact fun hc => ⟨c, hc, (upperByte_eq_iff h).mpr rfl⟩

theorem trim_toUpper (l : Bytes) : trim (toUpper l) = toUpper (trim l) := by
  have hspace : isSpace ∘ upperByte = isSpace := funext isSpace_upperByte
  simp only [trim, toUpper_eq_map, List.dropWhile_map, hspace, ← List.map_reverse]

theorem splitOn_toUpper (l : Bytes) : (toUpper l).splitOn 32 = (l.splitOn 32).map toUpper := by
  induction l with
  | nil => rfl
  | cons b l ih =>
    have hcons : toUpper (b :: l) = upperByte b :: toUpper l := rfl
    have hblank : (upperByte b == 32) = (b == 32) := by
      rw [Bool.eq_iff_iff, beq_iff_eq, beq_iff_eq, upperByte_eq_iff (by decide)]
    rw [hcons, List.splitOn_cons_eq_if_modifyHead, List.splitOn_cons_eq_if_modifyHead, hblank, ih]
    split
    · rfl
    · cases l.splitOn 32 <;> rfl

theorem wordsOf_toUpper (l : Bytes) : wordsOf (toUpper l) = (wordsOf l).map toUpper := by
  have hempty : ∀ w : Bytes, toUpper w = [] ↔ w = [] := by
    intro w
    rw [toUpper_eq_map, List.map_eq_nil_iff]
  rw [wordsOf, trim_toUpper, split, splitOn_toUpper, wordsOf, split, List.filter_map]
  congr 1
  refine List.filter_congr fun w _ => ?_
  simp only [Function.comp, ne_eq, hempty]

/-! ## 5. Variants of a line -/

/-- The words that are no keywords: those behind the command, and without the type of an event. -/
def argumentsOf : List Bytes → List Bytes
  | name :: ctx :: type :: rest =>
    if toUpper name = ascii "EVENT" then ctx :: rest else ctx :: type :: rest
  | _ :: rest => rest
  | [] => []

/-- **The same line** but for the white space in front of it and the case of its keywords. -/
structure Variant (request request' : Bytes) : Prop where
  letters : toUpper (request'.dropWhile isSpace) = toUpper (request.dropWhile isSpace)
  arguments : argumentsOf (wordsOf request') = argumentsOf (wordsOf request)
  oneLine : OneLine request'

/-- It has the same words but for the case of its keywords. -/
theorem Variant.tokens {request request' : Bytes} {tokens : List Bytes}
    (hv : Variant request request') (h : requestTokens request = .ok tokens) :
    ∃ tokens', requestTokens request' = .ok tokens' ∧
      tokens'.map toUpper = tokens.map toUpper ∧ argumentsOf tokens' = argumentsOf tokens := by
  obtain ⟨hnul, -, rfl, hne⟩ := requestTokens_ok_iff.1 h
  have hupper : (wordsOf request').map toUpper = (wordsOf request).map toUpper := by
    have hfront : ∀ l : Bytes,
        wordsOf (toUpper (l.dropWhile isSpace)) = (wordsOf l).map toUpper := by
      intro l
      rw [wordsOf_toUpper, wordsOf, trim_dropWhile, wordsOf]
    rw [← hfront, ← hfront, hv.letters]
  refine ⟨wordsOf request', requestTokens_ok_iff.2 ⟨?_, hv.oneLine, rfl, ?_⟩, hupper,
    hv.arguments⟩
  · intro hin
    rw [← List.takeWhile_append_dropWhile (p := isSpace) (l := request'), List.mem_append] at hin
    rcases hin with hin | hin
    · exact absurd (List.mem_takeWhile_imp hin) (by decide)
    · rw [← mem_toUpper_iff (by decide), hv.letters, mem_toUpper_iff (by decide)] at hin
      exact hnul ((List.dropWhile_sublist _).mem hin)
  · intro hnil
    rw [hnil, List.map_nil, eq_comm, List.map_eq_nil_iff] at hupper
    exact hne hupper

section Commands

variable {stof : Bytes → Option UInt32} {takesPart : Bytes → Bool} {maxTopK : Nat}

/-- The words of an accepted request, and what is read from them. -/
theorem parseCommand_ok {request : Bytes} {r : Request}
    (h : parseCommand stof takesPart request maxTopK = .ok r) :
    ∃ name arguments, requestTokens request = .ok (name :: arguments) ∧
      parseWords stof takesPart maxTopK (rawFirstLine request) (toUpper name) arguments =
        .ok r := by
  unfold parseCommand at h
  cases htokens : requestTokens request with
  | error e =>
    rw [htokens] at h
    cases h
  | ok tokens =>
    rw [htokens] at h
    cases tokens with
    | nil => cases h
    | cons name arguments => exact ⟨name, arguments, rfl, h⟩

theorem parseCommand_of_tokens {request name : Bytes} {arguments : List Bytes}
    (h : requestTokens request = .ok (name :: arguments)) :
    parseCommand stof takesPart request maxTopK =
      parseWords stof takesPart maxTopK (rawFirstLine request) (toUpper name) arguments := by
  unfold parseCommand
  rw [h]
  rfl

/-- The type of an event is read in either case. -/
theorem parseEvent_type {ctx type type' : Bytes} {rest : List Bytes}
    (h : toUpper type' = toUpper type) :
    parseEvent (ctx :: type' :: rest) = parseEvent (ctx :: type :: rest) := by
  cases rest with
  | nil => rfl
  | cons id rest =>
    unfold parseEvent
    simp only [h]

/-- Only `AUTH` sees more of a line than its words. -/
theorem parseWords_line (line line' : Bytes) {name : Bytes} {arguments : List Bytes}
    (h : name ≠ ascii "AUTH") :
    parseWords stof takesPart maxTopK line' name arguments =
      parseWords stof takesPart maxTopK line name arguments := by
  unfold parseWords
  rw [if_neg h, if_neg h]

/-- **White space in front and the case of the keywords do not matter**, but to `AUTH`. -/
theorem parseCommand_variant {request request' name : Bytes} {arguments : List Bytes}
    (hv : Variant request request') (h : requestTokens request = .ok (name :: arguments))
    (hauth : toUpper name ≠ ascii "AUTH") :
    parseCommand stof takesPart request' maxTopK = parseCommand stof takesPart request maxTopK := by
  obtain ⟨tokens', htokens, hupper, harguments⟩ := hv.tokens h
  cases tokens' with
  | nil => cases hupper
  | cons name' arguments' =>
    rw [List.map_cons, List.map_cons, List.cons.injEq] at hupper
    obtain ⟨hname, hupper⟩ := hupper
    rw [parseCommand_of_tokens htokens, parseCommand_of_tokens h, hname,
      parseWords_line (rawFirstLine request) _ hauth]
    by_cases hevent : toUpper name = ascii "EVENT"
    · -- the arguments are the same but for the type of the event
      have hread : ∀ line arguments,
          parseWords stof takesPart maxTopK line (ascii "EVENT") arguments =
            (parseEvent arguments).map .write := fun _ _ => rfl
      rw [hevent, hread, hread]
      congr 1
      match arguments, arguments', hupper, harguments with
      | [], [], _, _ => rfl
      | [ctx], [ctx'], _, harguments => rw [show ctx' = ctx by simpa [argumentsOf] using harguments]
      | [_], _ :: _ :: _, hupper, _ => cases (List.cons.inj hupper).2
      | _ :: _ :: _, [_], hupper, _ => cases (List.cons.inj hupper).2
      | ctx :: type :: rest, ctx' :: type' :: rest', hupper, harguments =>
        rw [argumentsOf, argumentsOf, hname, if_pos hevent, if_pos hevent,
          List.cons.injEq] at harguments
        obtain ⟨rfl, rfl⟩ := harguments
        simp only [List.map_cons, List.cons.injEq] at hupper
        exact parseEvent_type hupper.2.1
    · have hrest : ∀ n args, toUpper n ≠ ascii "EVENT" → argumentsOf (n :: args) = args := by
        intro n args hn
        match args with
        | [] => rfl
        | [_] => rfl
        | _ :: _ :: _ => exact if_neg hn
      rw [hrest name' _ (by rwa [hname]), hrest name _ hevent] at harguments
      rw [harguments]

end Commands

end Nvecd.Server
