import LambdaQuery.Proofs.Meaning.Chains
import Mathlib.Algebra.Ring.Int.Defs

/-!
# Numbers and lists of them

A small domain of values to run queries on: a document is a number or a list, and every property of
it is the document itself.
-/

set_option autoImplicit false

namespace LambdaQuery

/-- A number or a list of values. -/
inductive Datum where
  | nil
  | number (n : Int)
  | cons (head tail : Datum)
  deriving DecidableEq

namespace Datum

def ofList : List Datum → Datum := List.foldr cons nil

def items : Datum → List Datum
  | cons head tail => head :: tail.items
  | _ => []

def toInt : Datum → Int
  | number n => n
  | _ => 0

def ofBool (b : Bool) : Datum := number (if b then 1 else 0)

def holds (v : Datum) : Bool := v = number 1

@[simp] theorem holds_ofBool (b : Bool) : (ofBool b).holds = b := by
  cases b <;> rfl

end Datum

/-- The operators of the query language on numbers and lists; other values are missing. -/
def Database.ofNumbers (documents : List Datum) : Database Datum where
  documents := documents
  literal
    | .integer n => .number n.toInt
    | .boolean b => .ofBool b
    | _ => .nil
  parameter _ := .nil
  bound _ := 0
  index
    | .cons head _, .number 0 => head
    | v, _ => v
  binary
    | .and, v, w => .ofBool (v.holds && w.holds)
    | .greaterThan, v, w => .ofBool (v.toInt > w.toInt)
    | .greaterThanOrEqual, v, w => .ofBool (v.toInt ≥ w.toInt)
    | .add, v, w => .number (v.toInt + w.toInt)
    | _, _, _ => .nil
  unary
    | .not, v => .ofBool !v.holds
    | _, v => v
  call
    | "ARRAY_LENGTH", _, [v] => .number v.items.length
    | _, _, _ => .nil
  aggregate name rows :=
    let numbers := rows.map fun row => (row.map Datum.toInt).sum
    match name with
    | "SUM" => some (.number numbers.sum)
    | "MIN" => numbers.min?.map .number
    | "MAX" => numbers.max?.map .number
    | "AVG" => if numbers.isEmpty then none else some (.number (numbers.sum / numbers.length))
    | _ => none
  array := Datum.ofList
  object _ := .nil
  conditional test v w := if test.holds then v else w
  isIn v vs negated := .ofBool (vs.contains v != negated)
  items := Datum.items
  holds := Datum.holds
  le v w := v.toInt ≤ w.toInt

theorem Database.ofNumbers_lawful (documents : List Datum) : (ofNumbers documents).Lawful where
  and v w := Datum.holds_ofBool _
  not v vs negated := by
    show Datum.ofBool (!(Datum.ofBool _).holds) = Datum.ofBool _
    rw [Datum.holds_ofBool]
    cases vs.contains v <;> cases negated <;> rfl
  total v w := by
    simpa [ofNumbers] using Int.le_total v.toInt w.toInt
  trans u v w := by
    simpa [ofNumbers] using Int.le_trans

theorem Database.ofNumbers_first (documents : List Datum) (vs : List Datum) :
    (ofNumbers documents).index ((ofNumbers documents).array vs)
      ((ofNumbers documents).literal (.integer 0)) =
        vs.headD ((ofNumbers documents).literal .undefined) := by
  cases vs <;> rfl

end LambdaQuery
