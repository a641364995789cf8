import LambdaQuery.Host.Value.Basic
import LambdaQuery.Json.Printer
import LambdaQuery.Number.Decimal.Reader

/-!
# Values as JSON

`Value.toJson` is the plain JSON of a value, as it is sent to the database; it forgets the kind of a
value. `Value.encode` and `Value.decode?` write and read a value together with its kind.
-/

set_option autoImplicit false

namespace LambdaQuery.Value

mutual

/-- The plain JSON of a value. A whole decimal is an integer where 64 bits hold it. -/
def toJson : Value → Json
  | .null => .null
  | .boolean b => .bool b
  | .integer n => .int n
  | .unsigned n => .unsigned n
  | .float x => .float x
  | .decimal d =>
    match d.toInt64? with
    | some n => if d.isWhole then .int n else .float d.toFloat
    | none => .float d.toFloat
  | .char c => .str (String.singleton c)
  | .string s => .str s
  | .guid g => .str g.text
  | .array items => .arr (toJsonItems items)
  | .object fields => Json.object (toJsonFields fields)
  | .geometry shape => shape
  | .query q => q.toJson.sorted

def toJsonItems : List Value → List Json
  | [] => []
  | v :: vs => toJson v :: toJsonItems vs

def toJsonFields : List (String × Value) → List (String × Json)
  | [] => []
  | (name, v) :: rest => (name, toJson v) :: toJsonFields rest

end

/-- The text of a value in a concatenation of texts. -/
def text : Value → String
  | .null => ""
  | .boolean b => if b then "True" else "False"
  | .integer n => toString n
  | .unsigned n => toString n
  | .float x => Shortest.plain.write x
  | .decimal d => d.text
  | .char c => String.singleton c
  | .string s => s
  | .guid g => g.text
  | v => v.toJson.compact

/-! ## With the kind -/

def tagged (tag : String) (content : Json) : Json :=
  .obj [("type", .str tag), ("value", content)]

mutual

def encode : Value → Json
  | .null => .obj [("type", .str "null")]
  | .boolean b => tagged "boolean" (.bool b)
  | .integer n => tagged "integer" (.int n)
  | .unsigned n => tagged "u_integer" (.unsigned n)
  | .float x => tagged "float" (.float x)
  | .decimal d => tagged "decimal" (.str d.text)
  | .char c => tagged "char" (.str (String.singleton c))
  | .string s => tagged "string" (.str s)
  | .guid g => tagged "guid" (.str g.text)
  | .array items => tagged "array" (.arr (encodeItems items))
  | .object fields => tagged "object" (.obj (encodeFields fields))
  | .geometry shape => tagged "geometry" shape
  | .query q => tagged "query_spec" q.toJson

def encodeItems : List Value → List Json
  | [] => []
  | v :: vs => encode v :: encodeItems vs

def encodeFields : List (String × Value) → List (String × Json)
  | [] => []
  | (name, v) :: rest => (name, encode v) :: encodeFields rest

end

/-- A decimal from its text or from a number. -/
def decimalOfJson? : Json → Option Decimal
  | .str s => Decimal.read? s
  | .num (.int n) => Decimal.ofParts? (n < 0) n.natAbs 0
  | .num (.float x) => Decimal.readPlain? (Shortest.plain.write x).toList
  | _ => none

/-- A text of one character. -/
def charOfJson? : Json → Option Char
  | .str s =>
    match s.toList with
    | [c] => some c
    | _ => none
  | _ => none

/-- A value of a kind that holds no other values. -/
def decodeLeaf? (tag : String) (content : Json) : Option Value :=
  match tag with
  | "boolean" => content.toBool?.map .boolean
  | "integer" => content.toInt64?.map .integer
  | "u_integer" => content.toUInt64?.map .unsigned
  | "float" => content.toFloat?.map .float
  | "decimal" => (decimalOfJson? content).map .decimal
  | "char" => (charOfJson? content).map .char
  | "string" => content.toString?.map .string
  | "guid" => (content.toString?.bind Guid.read?).map .guid
  | "geometry" => some (.geometry content.sorted)
  | "query_spec" => (PreparedQuery.ofJson? content).map .query
  | _ => none

mutual

def decode? (j : Json) : Option Value :=
  match j.text? "type", j.member? "value" with
  | some "null", some none => some .null
  | some "null", some (some ⟨.null, _⟩) => some .null
  | some "null", _ => none
  | some "array", some (some ⟨.arr items, h⟩) =>
    have : sizeOf items < sizeOf j := by simp only [Json.arr.sizeOf_spec] at h; omega
    (decodeItems? items).map .array
  | some "object", some (some ⟨.obj ms, h⟩) =>
    have : sizeOf ms < sizeOf j := by simp only [Json.obj.sizeOf_spec] at h; omega
    (decodeFields? ms).map fun fields => .object (Record.ofList fields)
  | some tag, some (some content) => decodeLeaf? tag content.1
  | _, _ => none
termination_by sizeOf j

def decodeItems? : List Json → Option (List Value)
  | [] => some []
  | j :: js => do
    let v ← decode? j
    let vs ← decodeItems? js
    some (v :: vs)
termination_by js => sizeOf js

def decodeFields? : List (String × Json) → Option (List (String × Value))
  | [] => some []
  | (name, j) :: rest => do
    let v ← decode? j
    let fields ← decodeFields? rest
    some ((name, v) :: fields)
termination_by ms => sizeOf ms

end

end LambdaQuery.Value
