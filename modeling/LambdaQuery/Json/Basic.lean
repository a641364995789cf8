import LambdaQuery.Number.Word
import LambdaQuery.Record

/-!
# JSON values

Objects hold their members in written order, perhaps with a name twice; `Json.object` and
`Json.sorted` build objects whose names are sorted and distinct. Integers and doubles are told
apart, as they are in a text by a point or an exponent.
-/

set_option autoImplicit false

namespace LambdaQuery

inductive Json.Number where
  | int (n : Int)
  | float (x : Float)

inductive Json where
  | null
  | bool (b : Bool)
  | num (n : Json.Number)
  | str (s : String)
  | arr (items : List Json)
  | obj (members : List (String × Json))

namespace Json

/-- Doubles compare as numbers; an integer differs from every double. -/
def Number.beq : Number → Number → Bool
  | .int m, .int n => m == n
  | .float x, .float y => x == y
  | _, _ => false

instance : BEq Number := ⟨Number.beq⟩

/-- The number as a 64-bit integer. -/
def Number.toInt64? : Number → Option Int64
  | .int n => int64? n
  | .float _ => none

def Number.toFloat : Number → Float
  | .int n => Float.ofInt n
  | .float x => x

def int (n : Int64) : Json := .num (.int n.toInt)

def unsigned (n : UInt64) : Json := .num (.int n.toNat)

/-- A double; what is not a finite number is null. -/
def float (x : Float) : Json := if x.isFinite then .num (.float x) else .null

mutual

/-- Equality, where the members of objects are compared in order. -/
def beq : Json → Json → Bool
  | .null, .null => true
  | .bool a, .bool b => a == b
  | .num a, .num b => a == b
  | .str a, .str b => a == b
  | .arr a, .arr b => beqItems a b
  | .obj a, .obj b => beqMembers a b
  | _, _ => false

def beqItems : List Json → List Json → Bool
  | [], [] => true
  | a :: as, b :: bs => beq a b && beqItems as bs
  | _, _ => false

def beqMembers : List (String × Json) → List (String × Json) → Bool
  | [], [] => true
  | (n, a) :: as, (m, b) :: bs => n == m && beq a b && beqMembers as bs
  | _, _ => false

end

instance : BEq Json := ⟨beq⟩

/-- Puts a member at its place among members sorted by name; the name's earlier member goes. -/
def insert (members : List (String × Json)) (name : String) (v : Json) : List (String × Json) :=
  match members with
  | [] => [(name, v)]
  | (n, w) :: rest =>
    if name < n then (name, v) :: (n, w) :: rest
    else if n = name then (name, v) :: rest
    else (n, w) :: insert rest name v

/-- The object with these members: sorted by name, and of two with one name the later one. -/
def object (members : List (String × Json)) : Json :=
  .obj (members.foldl (fun ms m => insert ms m.1 m.2) [])

mutual

/-- The same value with the members of every object sorted by name. -/
def sorted : Json → Json
  | .arr items => .arr (sortedItems items)
  | .obj members => object (sortedMembers members)
  | j => j

def sortedItems : List Json → List Json
  | [] => []
  | j :: js => sorted j :: sortedItems js

def sortedMembers : List (String × Json) → List (String × Json)
  | [] => []
  | (n, j) :: ms => (n, sorted j) :: sortedMembers ms

end

end Json

end LambdaQuery
