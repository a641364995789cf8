import LambdaQuery.Number.Decimal.Basic
import LambdaQuery.Number.Double

/-!
# Decimals and doubles

The double of a decimal adds its integer part and its fraction and rounds at the last place of the
decimal. The decimal of a double trades the power of two for a power of ten, step by step within 96
bits, and keeps the digits that a double guarantees: a significand below `2^52` wherever there are
places to drop.
-/

set_option autoImplicit false

namespace LambdaQuery.Decimal

/-- The double next to a decimal. A zero without places has no sign. -/
def toFloat (d : Decimal) : Float :=
  let unit := tenPow d.scale
  let whole := Float.ofNat (d.significand / unit)
  let fraction := Float.ofNat (d.significand % unit) / Float.ofNat unit
  let magnitude :=
    if fraction == 0 then whole
    else
      LambdaQuery.Double.round .nearest ((whole + fraction) * Float.ofNat unit) / Float.ofNat unit
  if d.negative && !(d.isZero && d.scale == 0) then -magnitude else magnitude

/-- Replaces `m·2^(-n)·10^p` by about `m'·10^p'`: an odd significand is multiplied by five while
it has room, and halved otherwise. -/
def halve : Nat → Nat × Int → Nat × Int
  | 0, (m, p) => (m, p)
  | n + 1, (m, p) =>
    if m % 2 = 0 ∨ size ≤ m * 5 then halve n (m / 2, p + 1) else halve n (m * 5, p)

/-- Replaces `m·5^(-n)·10^p` by about `m'·10^p'`: doubled while it has room, divided otherwise. -/
def divideFives : Nat → Nat × Int → Nat × Int
  | 0, (m, p) => (m, p)
  | n + 1, (m, p) =>
    if m * 2 < size then divideFives n (m * 2, p - 1) else divideFives n (m / 5, p)

/-- Divides by ten, half up. -/
def tenth (m : Nat) : Nat := if 5 ≤ m % 10 then m / 10 + 1 else m / 10

/-- Drops `n` places that lie beyond the last one. -/
def dropPlaces : Nat → Nat × Int → Nat × Int
  | 0, (m, p) => (m, p)
  | n + 1, (m, p) => if m / 10 = 0 then (0, 0) else dropPlaces n (tenth m, p + 1)

/-- Drops places, at most `n`, while the significand has more than 52 bits. -/
def dropExcess : Nat → Nat × Int → Nat × Int
  | 0, (m, p) => (m, p)
  | n + 1, (m, p) => if p < 0 ∧ 1 <<< 52 ≤ m then dropExcess n (tenth m, p + 1) else (m, p)

/-- The decimal of a finite double that is not too large. -/
def ofFloat? (x : Float) : Option Decimal :=
  match LambdaQuery.Double.view x with
  | .finite negative m e =>
    if m = 0 then ofParts? negative 0 0
    else
      let (m, p) := if e < 0 then halve e.natAbs (m, e) else divideFives e.natAbs (m, e)
      if 0 < p then ofParts? negative (m * tenPow p.toNat) 0
      else
        let (m, p) := dropPlaces (-28 - p).toNat (m, p)
        let (m, p) := dropExcess 28 (m, p)
        let (m, s) := trimZeros m p.natAbs
        ofParts? negative m s
  | _ => none

end LambdaQuery.Decimal
