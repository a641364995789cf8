import LambdaQuery.Number.Decimal.Basic

/-!
# Decimal arithmetic

Sums, products and quotients are computed exactly and then rounded once: as many places as 96 bits
and a scale of 28 allow are kept, the rest is rounded to nearest, and a tie goes to the even
neighbour. Remainders are found by long division. `none` is overflow.
-/

set_option autoImplicit false

namespace LambdaQuery.Decimal

/-- The integer nearest to `num / den`, the even one of two. -/
def roundEven (num den : Nat) : Nat :=
  let q := num / den
  let r := num % den
  if den < 2 * r ∨ (2 * r = den ∧ q % 2 = 1) then q + 1 else q

/-- Drops the fewest places, at least `drop` of them, after which `value·10^(-scale)` fits. The sign
stays, also when nothing else does. -/
def fit? (negative : Bool) (value scale drop : Nat) : Option Decimal :=
  if drop ≤ scale then
    match ofParts? negative (roundEven value (tenPow drop)) (scale - drop) with
    | some d => some d
    | none => fit? negative value scale (drop + 1)
  else none
termination_by scale + 1 - drop

/-- The sum has the larger scale; a zero operand does not count. -/
def add? (a b : Decimal) : Option Decimal :=
  if a.isZero then some b
  else if b.isZero then some a
  else
    let scale := max a.scale b.scale
    let sum := a.unscaled scale + b.unscaled scale
    fit? (sum < 0) sum.natAbs scale 0

def sub? (a b : Decimal) : Option Decimal :=
  if b.isZero then some (if a.isZero then b else a)
  else if a.isZero then some b.neg
  else add? a b.neg

/-- The scale of a product is the sum of the scales. A product that is rounded to zero keeps its
sign, but not one of two 32-bit significands, and that one is a plain zero where it lies more than
19 places below the last one. -/
def mul? (a b : Decimal) : Option Decimal :=
  let scale := a.scale + b.scale
  let product := fit? (a.negative != b.negative) (a.significand * b.significand) scale 0
  if a.isZero || b.isZero then some zero
  else if a.significand < UInt32.size ∧ b.significand < UInt32.size then
    if 47 < scale then some zero else product.map dropZeroSign
  else product

/-! ## Quotients -/

/-- Drops `n` zeros at the end of the fraction, if there are as many. -/
def dropZeros (n : Nat) (d : Nat × Nat) : Nat × Nat :=
  if n ≤ d.2 ∧ d.1 % tenPow n = 0 then (d.1 / tenPow n, d.2 - n) else d

/-- Drops groups of eight zeros while the low word of the significand is zero. -/
def dropEights (m scale : Nat) : Nat × Nat :=
  if m % UInt32.size = 0 ∧ 8 ≤ scale ∧ m % tenPow 8 = 0 then
    dropEights (m / tenPow 8) (scale - 8)
  else (m, scale)
termination_by scale

/-- Drops zeros at the end of a fraction: groups of eight, then up to seven more. -/
def shorten (m scale : Nat) : Nat × Nat :=
  dropZeros 1 (dropZeros 2 (dropZeros 4 (dropEights m scale)))

/-- The most places, at most `limit`, with which `num / den` fits in 96 bits. -/
def placesFitting (num den : Nat) : Nat → Nat
  | 0 => 0
  | limit + 1 =>
    if num * tenPow (limit + 1) / den < size then limit + 1 else placesFitting num den limit

/-- The places to which `num / den` is computed: nine at a time until it ends, but at most
`limit`. -/
def quotientPlaces (num den limit : Nat) : Nat :=
  (((List.range (limit / 9 + 1)).map (9 * ·)).find? fun places =>
    num * tenPow places % den = 0).getD limit

/-- The quotient of `a` and a `b` that is not zero. An exact quotient of the significands keeps the
difference of the scales; otherwise the quotient is computed until it ends or no more places fit,
and zeros at its end are dropped. -/
def div? (a b : Decimal) : Option Decimal :=
  let negative := a.negative != b.negative
  let num := a.significand
  let den := b.significand
  let shift : Int := a.scale - b.scale
  if a.isZero then some zero
  else if num % den = 0 then
    ofSigned? negative (num / den * tenPow (-shift).toNat) shift.toNat
  else
    let places := quotientPlaces num den (placesFitting num den (28 - shift).toNat)
    let q := roundEven (num * tenPow places) den
    let scale := shift + places
    if 0 ≤ scale then
      let (m, s) := shorten q scale.toNat
      fit? (negative && m != 0) m s 0
    else if num * tenPow places % den = 0 then ofSigned? negative (q * tenPow (-scale).toNat) 0
    else none

/-! ## Remainders -/

/-- Long division in words of 32 bits by a `divisor` of three words, the top bit of which is set:
what remains of an `x` of `count` words. The digit of a quotient is tried by the top word of the
divisor and has one word. Where the rest has the same top word as the divisor that is one bit too
few, and this word of the rest is lost. -/
def wordRemainder (divisor : Nat) : Nat → Nat → Nat
  | 0, _ => 0
  | count + 1, x =>
    let rest := wordRemainder divisor count (x >>> 32)
    let kept := if rest >>> 64 = divisor >>> 64 then rest % UInt64.size else rest
    (kept * UInt32.size + x % UInt32.size) % divisor

/-- The remainder of an `x` below `2^190` by a positive `y` below `2^96`: exact for a `y` of two
words, and for one of three by long division of both numbers, shifted until its top bit is set. -/
def remainder (x y : Nat) : Nat :=
  if y < UInt64.size then x % y
  else
    let shift := 95 - y.log2
    wordRemainder (y <<< shift) 7 (x <<< shift) >>> shift

/-- The remainder of the division by a `b` that is not zero, with the sign of `a`. What is smaller
than `b` is its own remainder; otherwise the remainder has the larger scale. -/
def rem? (a b : Decimal) : Option Decimal :=
  let scale := max a.scale b.scale
  let x := (a.unscaled scale).natAbs
  let y := (b.unscaled scale).natAbs
  if a.isZero || x == y then some zero
  else if x < y then ofSigned? a.negative a.significand a.scale
  else ofSigned? a.negative (remainder x y) scale

end LambdaQuery.Decimal
