import LambdaQuery.Host.Guid
import LambdaQuery.Number.Decimal.Double
import LambdaQuery.Query.Prepared

/-!
# Host values

The values of host expressions: literals, captured variables and the results of evaluation. The
fields of an object keep their order, which does not count when objects are compared.
-/

set_option autoImplicit false

namespace LambdaQuery

inductive Value where
  | null
  | boolean (b : Bool)
  | integer (n : Int64)
  | unsigned (n : UInt64)
  | float (x : Float)
  | decimal (d : Decimal)
  | char (c : Char)
  | string (s : String)
  | guid (g : Guid)
  | array (items : List Value)
  | object (fields : List (String × Value))
  /-- A spatial value, held as its JSON. -/
  | geometry (shape : Json)
  | query (q : PreparedQuery)

namespace Value

mutual

/-- Equality of values of one kind: numbers compare by value, decimals without their scale, and
objects field by field in any order. -/
def beq : Value → Value → Bool
  | .null, .null => true
  | .boolean a, .boolean b => a == b
  | .integer m, .integer n => m == n
  | .unsigned m, .unsigned n => m == n
  | .float x, .float y => x == y
  | .decimal a, .decimal b => a == b
  | .char a, .char b => a == b
  | .string a, .string b => a == b
  | .guid a, .guid b => a == b
  | .array as, .array bs => beqItems as bs
  | .object as, .object bs => as.length == bs.length && fieldsIn as bs
  | .geometry a, .geometry b => a == b
  | .query a, .query b => a == b
  | _, _ => false

def beqItems : List Value → List Value → Bool
  | [], [] => true
  | a :: as, b :: bs => beq a b && beqItems as bs
  | _, _ => false

/-- Whether `bs` has an equal field for each of the first fields. -/
def fieldsIn : List (String × Value) → List (String × Value) → Bool
  | [], _ => true
  | (name, a) :: as, bs =>
    (match Record.get? bs name with
      | some b => beq a b
      | none => false) && fieldsIn as bs

end

instance : BEq Value := ⟨beq⟩

def isNull : Value → Bool
  | .null => true
  | _ => false

def toBool? : Value → Option Bool
  | .boolean b => some b
  | _ => none

/-- The value of a whole number that a 64-bit integer holds; doubles do not count. -/
def toInt64? : Value → Option Int64
  | .integer n => some n
  | .unsigned n => int64? n.toNat
  | .decimal d => if d.isWhole then d.toInt64? else none
  | _ => none

def toFloat? : Value → Option Float
  | .integer n => some (Double.ofInt64 n)
  | .unsigned n => some (Double.ofUInt64 n)
  | .float x => some x
  | .decimal d => some d.toFloat
  | _ => none

/-- What a value is called in messages. -/
def kindName : Value → String
  | .null => "null"
  | .boolean _ => "boolean"
  | .integer _ => "integer"
  | .unsigned _ => "unsigned integer"
  | .float _ => "float"
  | .decimal _ => "decimal"
  | .char _ => "char"
  | .string _ => "string"
  | .guid _ => "guid"
  | .array _ => "array"
  | .object _ => "object"
  | .geometry _ => "geometry"
  | .query _ => "query spec"

end Value

end LambdaQuery
