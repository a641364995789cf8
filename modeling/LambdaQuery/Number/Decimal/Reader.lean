import LambdaQuery.Number.Decimal.Arithmetic

/-!
# Reading decimals

Digits with an optional sign and point, underscores after the first digit, and an optional power of
ten. Places past what a decimal holds are rounded away, half up; an underscore right behind the 28th
place has a meaning of its own (`readBeyond?`).
-/

set_option autoImplicit false

namespace LambdaQuery.Decimal

def digitValue? (c : Char) : Option Nat :=
  if c.isDigit then some (c.toNat - 0x30) else none

/-- The number with the significand `m` and so many places, which are counted modulo 29. -/
def ofPlaces? (negative : Bool) (m places : Nat) : Option Decimal :=
  ofSigned? negative m (places % 29)

/-- Ends the significand `m` before places that it does not take. The character after it decides on
the rounding, where an underscore counts as a zero. -/
def cutBefore? (negative : Bool) (m scale : Nat) (places : List Char) : Option Decimal := do
  if !places.all fun c => c.isDigit || c == '_' then none
  let digit := (places.head?.bind digitValue?).getD 0
  if digit < 5 then ofPlaces? negative m scale
  else if m + 1 < size then ofPlaces? negative (m + 1) scale
  else if scale = 0 then none
  else ofPlaces? negative ((m + 5) / 10) (scale - 1)

/-- A significand below this takes its next digit within one word. -/
def wordLimit : Nat := UInt64.size / 10 - 255

/-- Goes on behind the last place of a significand `m` of more than one word. Only underscores lead
on: behind them (`separated`) `m` takes a further place if it has room. -/
def readBeyond? (negative separated : Bool) (m scale : Nat) : List Char → Option Decimal
  | [] => ofPlaces? negative m scale
  | c :: rest =>
    if c = '_' then readBeyond? negative true m scale rest
    else if !separated then cutBefore? negative m scale (c :: rest)
    else
      match digitValue? c with
      | some d =>
        if m * 10 + d < size then readBeyond? negative false (m * 10 + d) (scale + 1) rest
        else cutBefore? negative m scale (c :: rest)
      | none => none

/-- Reads digits; `started` after the first digit and `point` after the point. -/
def readDigits? (negative started point : Bool) (m scale : Nat) : List Char → Option Decimal
  | [] => if started then ofSigned? negative m scale else none
  | c :: rest =>
    if point && decide (28 ≤ scale) then
      -- `m / 10` is the significand before the last place.
      if m / 10 < wordLimit then cutBefore? negative m scale (c :: rest)
      else readBeyond? negative false m scale (c :: rest)
    else
      match digitValue? c with
      | some d =>
        if m * 10 + d < size then
          readDigits? negative true point (m * 10 + d) (if point then scale + 1 else scale) rest
        else if point then cutBefore? negative m scale (c :: rest)
        else none
      | none =>
        if c = '.' && !point then readDigits? negative started true m scale rest
        else if c = '_' && started then readDigits? negative started point m scale rest
        else none

/-- Reads a number without a power of ten. -/
def readPlain? : List Char → Option Decimal
  | '-' :: rest => readDigits? true false false 0 0 rest
  | '+' :: rest => readDigits? false false false 0 0 rest
  | cs => readDigits? false false false 0 0 cs

/-- Reads an exponent: digits for a 32-bit number, perhaps after a plus sign. -/
def readExponent? (cs : List Char) : Option Nat :=
  let ds :=
    match cs with
    | '+' :: rest => rest
    | _ => cs
  if ds.isEmpty || !ds.all Char.isDigit then none
  else
    let n := ds.foldl (fun n d => n * 10 + (d.toNat - 0x30)) 0
    if n < UInt32.size then some n else none

/-- Multiplies by `10^n`, at most nineteen powers at a time. -/
def scaleUp? (d : Decimal) (n : Nat) : Option Decimal := do
  let first := min n 19
  let d ← mul? d (← ofParts? false (tenPow first) 0)
  if n = first then some d else mul? d (← ofParts? false (tenPow (n - first)) 0)

/-- Multiplies by `10^(-n)` for `n` up to 28. Places past the last one are rounded away, half up. -/
def scaleDown? (d : Decimal) (n : Nat) : Option Decimal :=
  if 28 < n then none
  else
    let excess := d.scale + n - 28
    let unit := tenPow excess
    ofParts? d.negative ((d.significand + unit / 2) / unit) (d.scale + n - excess)

/-- Reads a number with a power of ten between -28 and 28. -/
def readScientific? (cs : List Char) : Option Decimal := do
  let isMark := fun c : Char => c = 'e' || c = 'E'
  let base ← readPlain? (cs.takeWhile (!isMark ·))
  match cs.dropWhile (!isMark ·) with
  | [] => none
  | _ :: '-' :: rest => scaleDown? base (← readExponent? rest)
  | _ :: rest =>
    let n ← readExponent? rest
    if n ≤ base.scale then ofParts? base.negative base.significand (base.scale - n)
    else if 28 < n then none
    else (scaleUp? base n).map normalize

/-- Reads a decimal. -/
def read? (s : String) : Option Decimal :=
  match readPlain? s.toList with
  | some d => some d
  | none => readScientific? s.toList

end LambdaQuery.Decimal
