import LambdaQuery.Number.Power
import LambdaQuery.Number.Word

/-!
# Decimals

A `Decimal` is `±m·10^(-scale)` with a significand of 96 bits and at most 28 places. It keeps its
scale (`1.50` is not `1.5`) and the sign of its zero, but compares by value.
-/

set_option autoImplicit false

namespace LambdaQuery

/-- The number of significands. -/
def Decimal.size : Nat := 1 <<< 96

/-- The number `±significand·10^(-scale)`. -/
structure Decimal where
  negative : Bool
  significand : Nat
  scale : Nat
  significand_lt : significand < Decimal.size
  scale_le : scale ≤ 28
  deriving DecidableEq

namespace Decimal

def zero : Decimal := ⟨false, 0, 0, by decide, by decide⟩

/-- The decimal with these parts, if they are in range. -/
def ofParts? (negative : Bool) (significand scale : Nat) : Option Decimal :=
  if h : significand < size ∧ scale ≤ 28 then some ⟨negative, significand, scale, h.1, h.2⟩
  else none

/-- Like `ofParts?`, with a positive zero. -/
def ofSigned? (negative : Bool) (significand scale : Nat) : Option Decimal :=
  ofParts? (negative && significand != 0) significand scale

def ofInt64 (n : Int64) : Decimal :=
  ⟨decide (n.toInt < 0), n.toInt.natAbs, 0, by
    have h1 := n.toInt_lt
    have h2 := n.le_toInt
    unfold size
    omega, by decide⟩

def isZero (d : Decimal) : Bool := d.significand == 0

/-- The same number, where zero is positive. -/
def dropZeroSign (d : Decimal) : Decimal := { d with negative := d.negative && !d.isZero }

/-- The same magnitude with the other sign. -/
def neg (d : Decimal) : Decimal := { d with negative := !d.negative }

/-- The significand with its sign, brought to `places` places. -/
def unscaled (d : Decimal) (places : Nat) : Int :=
  let m : Nat := d.significand * tenPow (places - d.scale)
  if d.negative then -m else m

/-- The order of the numbers; the scales do not matter. -/
def compare (a b : Decimal) : Ordering := Ord.compare (a.unscaled 28) (b.unscaled 28)

instance : BEq Decimal where
  beq a b := a.compare b == .eq

/-- Whether the number has no fraction. -/
def isWhole (d : Decimal) : Bool := d.significand % tenPow d.scale == 0

/-- The integer part, if 64 bits hold it. -/
def toInt64? (d : Decimal) : Option Int64 :=
  let m : Nat := d.significand / tenPow d.scale
  int64? (if d.negative then -m else m)

/-- Removes zeros at the end of the fraction. -/
def trimZeros (m scale : Nat) : Nat × Nat :=
  match scale with
  | 0 => (m, 0)
  | s + 1 => if m % 10 = 0 then trimZeros (m / 10) s else (m, s + 1)

/-- The same number without zeros at the end of the fraction; zero loses its sign. -/
def normalize (d : Decimal) : Decimal :=
  if d.isZero then zero
  else
    let (m, s) := trimZeros d.significand d.scale
    (ofParts? d.negative m s).getD d

/-- The text: a point before the last `scale` digits, and a digit before the point. -/
def text (d : Decimal) : String :=
  let ds := Nat.toDigits 10 d.significand
  let padded := List.replicate (d.scale + 1 - ds.length) '0' ++ ds
  let whole := padded.take (padded.length - d.scale)
  let fraction := padded.drop (padded.length - d.scale)
  let point := if d.scale = 0 then [] else ['.']
  String.ofList ((if d.negative then ['-'] else []) ++ whole ++ point ++ fraction)

end Decimal

end LambdaQuery
