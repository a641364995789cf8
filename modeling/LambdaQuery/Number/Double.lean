/-!
# Doubles taken apart

`Double.view` reads a double as sign, significand and power of two, and `Double.assemble` puts one
together, so that rounding to an integer, remainders and conversions are exact arithmetic on `Nat`
and `Int`.
-/

set_option autoImplicit false

namespace LambdaQuery.Double

/-- A double: `finite negative m e` is the number `±m·2^e`, where the sign of zero is kept. -/
inductive View where
  | nan
  | infinite (negative : Bool)
  | finite (negative : Bool) (significand : Nat) (exponent : Int)

def view (x : Float) : View :=
  let bits := x.toBits.toNat
  let negative := decide (1 <<< 63 ≤ bits)
  let exponent : Nat := bits >>> 52 % (1 <<< 11)
  let fraction : Nat := bits % (1 <<< 52)
  if exponent = 2047 then
    if fraction = 0 then .infinite negative else .nan
  else if exponent = 0 then .finite negative fraction (-1074)
  else .finite negative (fraction + 1 <<< 52) ((exponent : Int) - 1075)

/-- The double `±m·2^e` of a number that has one. -/
def assemble (negative : Bool) (m : Nat) (e : Int) : Float :=
  let sign := if negative then 1 <<< 63 else 0
  if m = 0 then Float.ofBits (UInt64.ofNat sign)
  else
    let shift : Int := min (52 - (Nat.log2 m : Int)) (e + 1074)
    let significand := if shift < 0 then m >>> shift.natAbs else m <<< shift.toNat
    let magnitude :=
      if significand < 1 <<< 52 then significand
      else (e - shift + 1075).toNat <<< 52 + (significand - 1 <<< 52)
    Float.ofBits (UInt64.ofNat (sign + magnitude))

/-- How a number between two integers becomes one of them. -/
inductive Rounding where
  | towardZero
  | down
  | up
  /-- To the nearer one; from the middle, away from zero. -/
  | nearest

/-- The magnitude of `±m·2^(-k)` rounded to an integer. -/
def Rounding.magnitude (mode : Rounding) (negative : Bool) (m k : Nat) : Nat :=
  let whole := m >>> k
  let rest := m % (1 <<< k)
  let away :=
    match mode with
    | .towardZero => false
    | .down => negative && rest != 0
    | .up => !negative && rest != 0
    | .nearest => decide (1 <<< k ≤ 2 * rest)
  if away then whole + 1 else whole

/-- Rounds to an integral double; the result keeps the sign, also when it is zero. -/
def round (mode : Rounding) (x : Float) : Float :=
  match view x with
  | .finite negative m e =>
    if 0 ≤ e then x else assemble negative (mode.magnitude negative m e.natAbs) 0
  | _ => x

/-- The integer part of a finite double. -/
def integerPart? (x : Float) : Option Int :=
  match view x with
  | .finite negative m e =>
    let magnitude : Nat := if 0 ≤ e then m <<< e.toNat else m >>> e.natAbs
    some (if negative then -magnitude else magnitude)
  | _ => none

/-- Whether a double is a finite number without fraction. -/
def isIntegral (x : Float) : Bool :=
  match view x with
  | .finite _ m e => 0 ≤ e || m % (1 <<< e.natAbs) == 0
  | _ => false

/-- The integer part as a 64-bit integer; what lies outside becomes the nearest bound and NaN
becomes zero. -/
def toInt64 (x : Float) : Int64 :=
  match view x with
  | .nan => 0
  | .infinite negative => if negative then Int64.minValue else Int64.maxValue
  | .finite _ _ _ =>
    let n := (integerPart? x).getD 0
    if n < Int64.minValue.toInt then Int64.minValue
    else if Int64.maxValue.toInt < n then Int64.maxValue
    else Int64.ofInt n

/-- The nearest double to an integer. -/
def ofInt64 (n : Int64) : Float := Float.ofInt n.toInt

/-- The nearest double to an unsigned integer. -/
def ofUInt64 (n : UInt64) : Float := Float.ofNat n.toNat

/-- The remainder of a division whose quotient is cut to an integer; it has the sign of `x`. -/
def remainder (x y : Float) : Float :=
  match view x, view y with
  | .finite negative m e, .finite _ n f =>
    if n = 0 then x - x + (0.0 / 0.0)
    else
      let low := min e f
      assemble negative (m <<< (e - low).toNat % n <<< (f - low).toNat) low
  | .finite _ _ _, .infinite _ => x
  | .infinite _, .finite _ _ _ => x - x
  | .infinite _, .infinite _ => x - x
  | _, _ => x + y

/-- The larger of two numbers; a number is larger than NaN. -/
def maximum (x y : Float) : Float :=
  if x.isNaN then y else if y.isNaN then x else if x < y then y else x

/-- The smaller of two numbers; a number is smaller than NaN. -/
def minimum (x y : Float) : Float :=
  if x.isNaN then y else if y.isNaN then x else if y < x then y else x

/-- The order of two doubles, where both are numbers. -/
def compare? (x y : Float) : Option Ordering :=
  if x < y then some .lt else if x == y then some .eq else if y < x then some .gt else none

end LambdaQuery.Double
