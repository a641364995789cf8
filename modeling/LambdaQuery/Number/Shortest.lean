import LambdaQuery.Number.Double
import LambdaQuery.Number.Power

/-!
# Shortest decimal digits

`Shortest.digits` gives the fewest decimal digits that read back as a given double, and of those the
nearest ones; `Shortest.Layout` says how a format places them. The double `m·2^e` is the value of
every real number strictly between the midpoints to its neighbours, and of the midpoints too when
`m` is even.
-/

set_option autoImplicit false

namespace LambdaQuery.Shortest

/-- The number of decimal digits of `n`; zero has none. -/
def digitCount (n : Nat) : Nat :=
  if n = 0 then 0 else digitCount (n / 10) + 1
termination_by n
decreasing_by omega

/-- The exponent of the first decimal digit of the positive fraction `num / den`. -/
def leadingExponent (num den : Nat) : Int :=
  if den ≤ num then (digitCount (num / den) : Int) - 1
  else -(digitCount ((den + num - 1) / num - 1) : Int)

/-- The reals that read as one double, over a common denominator `den`: `value` lies between `low`
and `high`, which belong to the interval when `closed`. -/
structure Interval where
  low : Nat
  value : Nat
  high : Nat
  den : Nat
  closed : Bool

/-- The interval of the double `m·2^e`. The neighbour below a power of two is at half the distance,
except next to the smallest exponent. -/
def Interval.ofParts (m : Nat) (e : Int) : Interval :=
  let below := if m = 1 <<< 52 ∧ -1074 < e then 1 else 2
  let shift := (e - 2).toNat
  ⟨(4 * m - below) <<< shift, (4 * m) <<< shift, (4 * m + 2) <<< shift, 1 <<< (2 - e).toNat,
    m % 2 == 0⟩

/-- Whether the point `num / den` lies in the interval. -/
def Interval.has (i : Interval) (num den : Nat) : Bool :=
  let x := num * i.den
  if i.closed then decide (i.low * den ≤ x ∧ x ≤ i.high * den)
  else decide (i.low * den < x ∧ x < i.high * den)

/-- Which of two equally near digit strings is taken. -/
inductive Tie where
  | up
  | even

/-- The point of the grid `10^place` that is in the interval and nearest to its value. -/
def onGrid? (tie : Tie) (i : Interval) (place : Int) : Option Nat :=
  let up := tenPow place.toNat
  let down := tenPow (-place).toNat
  let d := i.value * down / (i.den * up)
  let rest := i.value * down % (i.den * up)
  match i.has (d * up) down, i.has ((d + 1) * up) down with
  | false, false => none
  | true, false => some d
  | false, true => some (d + 1)
  | true, true =>
    if 2 * rest < i.den * up then some d
    else if i.den * up < 2 * rest then some (d + 1)
    else
      match tie with
      | .up => some (d + 1)
      | .even => some (if d % 2 = 0 then d else d + 1)

/-- Tries grids that are finer by one digit each; seventeen digits always tell doubles apart. -/
def search (tie : Tie) (i : Interval) (place : Int) : Nat → Nat × Int
  | 0 => (i.value * tenPow (-place).toNat / (i.den * tenPow place.toNat), place)
  | fuel + 1 =>
    match onGrid? tie i place with
    | some d => (d, place)
    | none => search tie i (place - 1) fuel

/-- Moves the zeros at the end of `d·10^place` into the exponent. -/
def dropZeros (d : Nat) (place : Int) : Nat × Int :=
  if d ≠ 0 ∧ d % 10 = 0 then dropZeros (d / 10) (place + 1) else (d, place)
termination_by d
decreasing_by omega

/-- Digits `d` and place `p` such that `d·10^p` is the shortest decimal that reads as `m·2^e`. -/
def digits (tie : Tie) (m : Nat) (e : Int) : Nat × Int :=
  let i := Interval.ofParts m e
  let (d, place) := search tie i (leadingExponent i.value i.den) 17
  dropZeros d place

/-- How a format writes doubles: which exponents of the first digit are written without an exponent
part, whether whole numbers end in `.0`, and which of two equally near digit strings is taken. -/
structure Layout where
  tie : Tie
  positional : Int → Bool
  pointZero : Bool

/-- Writes the digits `ds`, the first of which has the exponent `lead`. -/
def Layout.place (layout : Layout) (ds : List Char) (lead : Int) : List Char :=
  let whole := if layout.pointZero then ['.', '0'] else []
  if layout.positional lead then
    if lead < 0 then '0' :: '.' :: List.replicate (-lead - 1).toNat '0' ++ ds
    else
      let n := lead.toNat + 1
      if ds.length ≤ n then ds ++ List.replicate (n - ds.length) '0' ++ whole
      else ds.take n ++ '.' :: ds.drop n
  else
    let mantissa :=
      match ds with
      | d :: e :: rest => d :: '.' :: e :: rest
      | _ => ds
    mantissa ++ 'e' :: (if lead < 0 then '-' else '+') :: (Nat.toDigits 10 lead.natAbs)

def Layout.magnitude (layout : Layout) (m : Nat) (e : Int) : List Char :=
  if m = 0 then layout.place ['0'] 0
  else
    let (d, place) := digits layout.tie m e
    let ds := Nat.toDigits 10 d
    layout.place ds (place + (ds.length - 1 : Nat))

/-- The text of a double. -/
def Layout.write (layout : Layout) (x : Float) : String :=
  match Double.view x with
  | .nan => "NaN"
  | .infinite negative => if negative then "-inf" else "inf"
  | .finite negative m e =>
    let text := layout.magnitude m e
    String.ofList (if negative then '-' :: text else text)

/-- Every double by its digits alone: never an exponent part, no fraction for whole numbers, and
the larger of two equally near digit strings. -/
def plain : Layout := ⟨.up, fun _ => true, false⟩

end LambdaQuery.Shortest
