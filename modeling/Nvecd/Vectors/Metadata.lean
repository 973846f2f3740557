/-
  File:      Nvecd/Vectors/Metadata.lean
  Subject:   `vectors/metadata.h`, `vectors/metadata_store.cpp` and `server/filter_parser.cpp`:
             what is attached to an item, where it is kept, and the text form in which `METASET`
             and filters give it.

  A filter is a list of conditions `key op value` separated by commas. Values are typed by what
  they look like: a truth value, an integer, a floating-point number, else a string.
-/
import Nvecd.Vectors.VectorStore

namespace Nvecd.Vectors

open Nvecd.Lib Nvecd.Storage Nvecd.Utils

/-! ## 1. Metadata and its store -/

/-- `std::variant<std::string, int64_t, double, bool>`; a double is its bits. -/
inductive MetadataValue where
  | string (value : Bytes)
  | int64 (value : Int64)
  | double (bits : UInt64)
  | bool (value : Bool)
  deriving DecidableEq

instance : Inhabited MetadataValue := ⟨.string []⟩

abbrev Metadata := AssocMap Bytes MetadataValue

structure MetadataStore where
  metadata : AssocMap Bytes Metadata := .empty

namespace MetadataStore

/-- `Set`. -/
def set (s : MetadataStore) (id : Bytes) (m : Metadata) : MetadataStore := ⟨s.metadata.insert id m⟩

/-- `Delete`. -/
def delete (s : MetadataStore) (id : Bytes) : MetadataStore := ⟨s.metadata.erase id⟩

/-- `Get`. -/
def get (s : MetadataStore) (id : Bytes) : Option Metadata := s.metadata.find? id

/-- The ids with metadata. -/
def ids (s : MetadataStore) : List Bytes := s.metadata.keys

end MetadataStore

/-! ## 2. Filters -/

inductive FilterOp where
  | kEq
  | kNe
  | kGt
  | kGe
  | kLt
  | kLe
  | kIn
  deriving DecidableEq, Repr

structure FilterCondition where
  field : Bytes
  op : FilterOp
  value : MetadataValue := default
  values : List MetadataValue := []
  deriving DecidableEq

/-- What `c_str()` shows of a string. -/
def cString (bytes : Bytes) : Bytes := bytes.takeWhile fun b => b ≠ 0

/-- `isspace` in the "C" locale. -/
def isSpace (b : UInt8) : Bool := b = 32 || (9 ≤ b && b ≤ 13)

def isDigit (b : UInt8) : Bool := 48 ≤ b && b ≤ 57

def digitsValue (digits : Bytes) : Nat := digits.foldl (fun n b => 10 * n + (b.toNat - 48)) 0

/-- `strtoll` in base 10, if it takes the whole text and meets no range error. -/
def parseInt64 (val : Bytes) : Option Int64 :=
  let text := (cString val).dropWhile isSpace
  let (negative, digits) :=
    match text with
    | 45 :: rest => (true, rest)
    | 43 :: rest => (false, rest)
    | text => (false, text)
  if digits = [] ∨ ¬ digits.all isDigit then none
  else
    let value : Int := if negative then -(digitsValue digits) else digitsValue digits
    if value < -(2 ^ 63) ∨ 2 ^ 63 ≤ value then none else some (Int64.ofInt value)

/-- Where `text` first occurs. -/
def findText (text : Bytes) : Bytes → Option Nat
  | [] => if text = [] then some 0 else none
  | b :: l => if text.isPrefixOf (b :: l) then some 0 else (findText text l).map (· + 1)

/-- The operators, in the order in which `ParseCondition` tries them:
    `!=`, `>=`, `<=`, `=`, `>`, `<`, `:`. -/
def kOperators : List (Bytes × FilterOp) :=
  [([33, 61], .kNe), ([62, 61], .kGe), ([60, 61], .kLe), ([61], .kEq), ([62], .kGt), ([60], .kLt),
    ([58], .kEq)]

/-- The operator that begins first, of two at one place the longer. -/
def selectOperator (pair : Bytes) : Option (Nat × Bytes × FilterOp) :=
  kOperators.foldl (fun selected candidate =>
    match findText candidate.1 pair, selected with
    | none, selected => selected
    | some pos, none => some (pos, candidate)
    | some pos, some (pos', best) =>
      if pos < pos' ∨ pos = pos' ∧ best.1.length < candidate.1.length then some (pos, candidate)
      else selected) none

section Parser

-- `strtod` of a whole text without range error
variable (strtod : Bytes → Option UInt64)

/-- `ParseValue`. -/
def parseValue (val : Bytes) : MetadataValue :=
  if val = [116, 114, 117, 101] then .bool true          -- true
  else if val = [102, 97, 108, 115, 101] then .bool false  -- false
  else
    match parseInt64 val with
    | some n => .int64 n
    | none =>
      match strtod (cString val) with
      | some d => .double d
      | none => .string val

/-- `ParseCondition`. A value `in(a|b)` of an equality is a membership. -/
def parseCondition (pair : Bytes) : Option FilterCondition :=
  match selectOperator pair with
  | none => none
  | some (pos, text, op) =>
    if pos = 0 then none
    else
      let field := pair.take pos
      let value := pair.drop (pos + text.length)
      if value = [] then none
      else if op = .kEq ∧ 5 ≤ value.length ∧ [105, 110, 40].isPrefixOf value ∧
          value.getLast? = some 41 then
        let items := ((value.drop 3).dropLast).splitOn 124
        if items.any fun item => item = [] then none
        else some { field := field, op := .kIn, values := items.map (parseValue strtod) }
      else some { field := field, op := op, value := parseValue strtod value }

/-- The conditions of the parts between the commas; the first that is none is reported. -/
def parseConditions : List Bytes → Except Error (List FilterCondition)
  | [] => .ok []
  | pair :: pairs =>
    match parseCondition strtod pair with
    | none => .error (makeError .kCommandParseError
        ("Invalid filter condition: '" ++ textOf pair ++ "'"))
    | some condition =>
      match parseConditions pairs with
      | .error e => .error e
      | .ok conditions => .ok (condition :: conditions)

/-- `ParseSimpleFilter`. -/
def parseSimpleFilter (expr : Bytes) : Except Error (List FilterCondition) :=
  parseConditions strtod ((expr.splitOn 44).filter fun pair => pair ≠ [])

end Parser

end Nvecd.Vectors
