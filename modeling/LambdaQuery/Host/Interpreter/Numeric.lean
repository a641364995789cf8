import LambdaQuery.Host.Error
import LambdaQuery.Number.Decimal.Arithmetic
import LambdaQuery.Host.Value.Basic

/-!
# Numbers of the interpreter

Three kinds of numbers meet in arithmetic and comparison: 64-bit integers, decimals and doubles. Two
of one kind stay in it; a double makes the other operand a double, and a decimal makes an integer a
decimal. An unsigned integer counts as an integer where 64 bits with a sign hold it, and as a double
elsewhere.
-/

set_option autoImplicit false

namespace LambdaQuery

inductive Numeric where
  | int (n : Int64)
  | decimal (d : Decimal)
  | float (x : Float)

namespace Numeric

def ofValue? : Value → Option Numeric
  | .integer n => some (.int n)
  | .unsigned n =>
    match int64? n.toNat with
    | some i => some (.int i)
    | none => some (.float (Double.ofUInt64 n))
  | .decimal d => some (.decimal d)
  | .float x => some (.float x)
  | _ => none

def toValue : Numeric → Value
  | .int n => .integer n
  | .decimal d => .decimal d
  | .float x => .float x

def toFloat : Numeric → Float
  | .int n => Double.ofInt64 n
  | .decimal d => d.toFloat
  | .float x => x

def toDecimal? : Numeric → Option Decimal
  | .int n => some (Decimal.ofInt64 n)
  | .decimal d => some d
  | .float x => Decimal.ofFloat? x

inductive ArithmeticOp where
  | add
  | subtract
  | multiply
  | divide
  | modulo
  deriving DecidableEq

def ArithmeticOp.onFloats : ArithmeticOp → Float → Float → Float
  | .add, x, y => x + y
  | .subtract, x, y => x - y
  | .multiply, x, y => x * y
  | .divide, x, y => x / y
  | .modulo, x, y => Double.remainder x y

/-- Exact arithmetic on integers; quotients are cut toward zero. -/
def ArithmeticOp.onInts : ArithmeticOp → Int → Int → Int
  | .add, x, y => x + y
  | .subtract, x, y => x - y
  | .multiply, x, y => x * y
  | .divide, x, y => x.tdiv y
  | .modulo, x, y => x.tmod y

/-- Integer arithmetic that 64 bits hold. The remainder goes with the quotient: where that one is
out of range, so is the remainder. -/
def ArithmeticOp.onInt64s? (op : ArithmeticOp) (x y : Int64) : Option Int64 :=
  match op with
  | .modulo =>
    (int64? (ArithmeticOp.onInts .divide x.toInt y.toInt)).bind fun _ =>
      int64? (ArithmeticOp.onInts .modulo x.toInt y.toInt)
  | op => int64? (op.onInts x.toInt y.toInt)

def ArithmeticOp.onDecimals? : ArithmeticOp → Decimal → Decimal → Option Decimal
  | .add => Decimal.add?
  | .subtract => Decimal.sub?
  | .multiply => Decimal.mul?
  | .divide => Decimal.div?
  | .modulo => Decimal.rem?

/-- Whether the operation has no result for a zero on its right. -/
def ArithmeticOp.divides : ArithmeticOp → Bool
  | .divide | .modulo => true
  | _ => false

/-- Arithmetic on two numbers. Doubles never fail; `unfit` is the error for a double that has no
decimal. -/
def arithmetic (op : ArithmeticOp) (unfit : HostError) (a b : Numeric) :
    Except HostError Numeric := do
  let overflow := HostError.typeError .overflow
  match a, b with
  | .float x, b => return .float (op.onFloats x b.toFloat)
  | a, .float y => return .float (op.onFloats a.toFloat y)
  | .int x, .int y =>
    if op.divides && y == 0 then throw .divisionByZero
    match op.onInt64s? x y with
    | some n => return .int n
    | none => throw overflow
  | a, b =>
    match a.toDecimal?, b.toDecimal? with
    | some x, some y =>
      if op.divides && y.isZero then throw .divisionByZero
      match op.onDecimals? x y with
      | some d => return .decimal d
      | none => throw overflow
    | _, _ => throw unfit

/-- The order of two numbers; NaN has none. -/
def compare? (a b : Numeric) : Option Ordering :=
  match a, b with
  | .int x, .int y => some (compare x.toInt y.toInt)
  | .float x, b => Double.compare? x b.toFloat
  | a, .float y => Double.compare? a.toFloat y
  | a, b => do
    let x ← a.toDecimal?
    let y ← b.toDecimal?
    some (x.compare y)

end Numeric

/-- Equality in host code: numbers of any kind by value, all else within its kind. -/
def Value.equals (a b : Value) : Bool :=
  match Numeric.ofValue? a, Numeric.ofValue? b with
  | some x, some y => Numeric.compare? x y == some .eq
  | _, _ => a == b

/-- The order of two strings, two characters or two numbers. -/
def Value.compare? (a b : Value) : Option Ordering :=
  match a, b with
  | .string s, .string t => some (compare s t)
  | .char c, .char d => some (compare c.toNat d.toNat)
  | a, b =>
    match Numeric.ofValue? a, Numeric.ofValue? b with
    | some x, some y => Numeric.compare? x y
    | _, _ => none

end LambdaQuery
