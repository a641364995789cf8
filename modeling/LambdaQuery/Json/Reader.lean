import LambdaQuery.Json.Basic
import LambdaQuery.Text.Quoted

/-!
# Reading JSON

`Json.read?` reads a whole text. Arrays and objects nest at most 127 deep. Integers that 64 bits
hold stay exact; other numbers become doubles by scaling the leading digits that 64 bits hold, and
a number past the range of doubles is refused.
-/

set_option autoImplicit false

namespace LambdaQuery.Json

namespace Reader

/-- What a reader leaves of a text. -/
abbrev Rest (cs : List Char) := { rest : List Char // rest.length < cs.length }

/-- What is left of what is left. -/
def Rest.of {cs : List Char} (r : Rest cs) (s : Rest r.1) : Rest cs :=
  ⟨s.1, Nat.lt_trans s.2 r.2⟩

def isSpace (c : Char) : Bool := c = ' ' || c = '\n' || c = '\t' || c = '\r'

def skipSpace (cs : List Char) : List Char := cs.dropWhile isSpace

theorem length_skipSpace_le (cs : List Char) : (skipSpace cs).length ≤ cs.length := by
  induction cs with
  | nil => simp [skipSpace]
  | cons c cs ih =>
    simp only [skipSpace, List.dropWhile_cons] at ih ⊢
    split
    · simp only [List.length_cons]; omega
    · exact Nat.le_refl _

/-- Skips blanks and takes the character after them. -/
def next? (cs : List Char) : Option (Char × Rest cs) :=
  match h : skipSpace cs with
  | [] => none
  | c :: rest => some (c, ⟨rest, by
      have := length_skipSpace_le cs
      simp only [h, List.length_cons] at this
      omega⟩)

/-! ## Numbers -/

def digitValue (c : Char) : Nat := c.toNat - 0x30

/-- The parts of a number as written. -/
structure Numeral where
  negative : Bool
  whole : List Char
  fraction : Option (List Char)
  exponent : Option (Bool × List Char)

/-- Splits off the digits at the front. -/
def digits (cs : List Char) : List Char × List Char :=
  (cs.takeWhile Char.isDigit, cs.dropWhile Char.isDigit)

/-- Splits off a fraction; a point needs a digit behind it. -/
def fraction? (cs : List Char) : Option (Option (List Char) × List Char) :=
  match cs with
  | '.' :: rest =>
    let (ds, rest) := digits rest
    if ds.isEmpty then none else some (some ds, rest)
  | _ => some (none, cs)

/-- Splits off an exponent, with its sign (`true` for minus); it needs a digit. -/
def exponent? (cs : List Char) : Option (Option (Bool × List Char) × List Char) :=
  match cs with
  | c :: rest =>
    if c = 'e' ∨ c = 'E' then
      let (negative, rest) :=
        match rest with
        | '-' :: rest => (true, rest)
        | '+' :: rest => (false, rest)
        | _ => (false, rest)
      let (ds, rest) := digits rest
      if ds.isEmpty then none else some (some (negative, ds), rest)
    else some (none, cs)
  | [] => some (none, cs)

/-- Splits off a number. Only the number zero starts with a zero. -/
def numeral? (cs : List Char) : Option (Numeral × List Char) := do
  let (negative, cs) :=
    match cs with
    | '-' :: rest => (true, rest)
    | _ => (false, cs)
  let (whole, cs) := digits cs
  let wellFormed :=
    match whole with
    | [] => false
    | ['0'] => true
    | d :: _ => d != '0'
  if !wellFormed then none
  else
    let (fraction, cs) ← fraction? cs
    let (exponent, cs) ← exponent? cs
    some (⟨negative, whole, fraction, exponent⟩, cs)

/-- Appends digits to a significand while 64 bits hold it: the significand, and how many digits
were left over. -/
def gather : Nat → List Char → Nat × Nat
  | m, [] => (m, 0)
  | m, d :: ds =>
    let n := m * 10 + digitValue d
    if n < UInt64.size then gather n ds else (m, ds.length + 1)

/-- Divides by `10^n`, by `10^308` at a time. -/
def scaleDown (x : Float) (n : Nat) : Float :=
  if n ≤ 308 then x / Float.ofScientific 1 false n
  else if x == 0 then x
  else scaleDown (x / 1e308) (n - 308)
termination_by n

/-- The double near `m·10^p`, if it is in range. -/
def scaled? (m : Nat) (p : Int) : Option Float :=
  let x := Float.ofNat m
  if p < 0 then some (scaleDown x p.natAbs)
  else if p ≤ 308 then
    let y := x * Float.ofScientific 1 false p.toNat
    if y.isInf then none else some y
  else if m = 0 then some x
  else none

/-- The value of an exponent, if 32 bits with a sign hold it. -/
def exponentValue? (ds : List Char) : Option Nat :=
  let n := ds.foldl (fun n d => n * 10 + digitValue d) 0
  if n ≤ Int32.maxValue.toInt.toNat then some n else none

/-- The magnitude of a number that is a double. Digits of the fraction count only while the
significand holds them. -/
def Numeral.magnitude? (n : Numeral) : Option Float :=
  let (whole, dropped) := gather 0 n.whole
  let (m, place) : Nat × Int :=
    match n.fraction with
    | none => (whole, dropped)
    | some ds =>
      let (m, left) := gather whole ds
      (m, (dropped : Int) - (ds.length - left : Nat))
  match n.exponent with
  | none => scaled? m place
  | some (negative, ds) =>
    match exponentValue? ds with
    | some p => scaled? m (if negative then place - p else place + p)
    | none => if m = 0 ∨ negative then some 0 else none

/-- The number: an integer when it is written as one, fits and is not a negative zero. -/
def Numeral.value? (n : Numeral) : Option Number :=
  let float := n.magnitude?.map fun x => Number.float (if n.negative then -x else x)
  match n.fraction, n.exponent with
  | none, none =>
    let m := n.whole.foldl (fun m d => m * 10 + digitValue d) 0
    if n.negative then
      if m ≠ 0 ∧ Int64.minValue.toInt ≤ -m then some (.int (-m)) else float
    else if m < UInt64.size then some (.int m) else float
  | _, _ => float

/-! ## Values -/

/-- Takes the letters `word` from the front. -/
def word? (word : List Char) (cs : List Char) : Option (List Char) :=
  if word.isPrefixOf cs then some (cs.drop word.length) else none

/-- Reads a value that is neither an array nor an object and starts with `c`. -/
def scalar? (c : Char) (rest : List Char) : Option (Json × List Char) :=
  match c with
  | '"' => (Text.Quoted.read rest).map fun (s, r) => (.str (String.ofList s), r)
  | 'n' => (word? "ull".toList rest).map fun r => (.null, r)
  | 't' => (word? "rue".toList rest).map fun r => (.bool true, r)
  | 'f' => (word? "alse".toList rest).map fun r => (.bool false, r)
  | _ => do
    let (n, r) ← numeral? (c :: rest)
    some (.num (← n.value?), r)

/-- Keeps a result whose rest is shorter than the text, which every reader's is. -/
def shorter? {α : Type} (cs : List Char) (result : α × List Char) : Option (α × Rest cs) :=
  if h : result.2.length < cs.length then some (result.1, ⟨result.2, h⟩) else none

mutual

/-- Reads a value in which arrays and objects nest at most `depth` deep. -/
def value? (depth : Nat) (cs : List Char) : Option (Json × Rest cs) :=
  match next? cs with
  | none => none
  | some (c, rest) =>
    if c = '[' then
      match depth, next? rest.1 with
      | _ + 1, some (']', after) => some (.arr [], rest.of after)
      | d + 1, _ => (items? d rest.1).map fun (js, after) => (.arr js, rest.of after)
      | 0, _ => none
    else if c = '\x7b' then
      match depth, next? rest.1 with
      | _ + 1, some ('\x7d', after) => some (.obj [], rest.of after)
      | d + 1, _ => (members? d rest.1).map fun (ms, after) => (.obj ms, rest.of after)
      | 0, _ => none
    else (scalar? c rest.1).bind (shorter? cs)
termination_by (cs.length, 0)
decreasing_by
  all_goals exact Prod.Lex.left _ _ rest.2

/-- Reads items up to the closing bracket. -/
def items? (depth : Nat) (cs : List Char) : Option (List Json × Rest cs) :=
  match value? depth cs with
  | none => none
  | some (j, rest) =>
    match next? rest.1 with
    | some (']', after) => some ([j], rest.of after)
    | some (',', after) =>
      (items? depth after.1).map fun (js, last) => (j :: js, rest.of (after.of last))
    | _ => none
termination_by (cs.length, 1)
decreasing_by
  · exact Prod.Lex.right _ (by decide)
  · exact Prod.Lex.left _ _ (Nat.lt_trans after.2 rest.2)

/-- Reads members up to the closing brace. -/
def members? (depth : Nat) (cs : List Char) : Option (List (String × Json) × Rest cs) :=
  match next? cs with
  | some ('"', opened) =>
    match h : Text.Quoted.read opened.1 with
    | none => none
    | some (name, after) =>
      let named : Rest opened.1 := ⟨after, Text.Quoted.length_of_readFrom h⟩
      match next? after with
      | some (':', colon) =>
        match value? depth colon.1 with
        | none => none
        | some (j, rest) =>
          let read : Rest cs := opened.of (named.of (Rest.of colon rest))
          match next? rest.1 with
          | some ('\x7d', last) => some ([(String.ofList name, j)], read.of last)
          | some (',', comma) =>
            (members? depth comma.1).map fun (ms, last) =>
              ((String.ofList name, j) :: ms, read.of (Rest.of comma last))
          | _ => none
      | _ => none
  | _ => none
termination_by (cs.length, 2)
decreasing_by
  · exact Prod.Lex.left _ _
      (Nat.lt_trans colon.2 (Nat.lt_trans (Text.Quoted.length_of_readFrom h) opened.2))
  · exact Prod.Lex.left _ _ (Nat.lt_trans comma.2 (Nat.lt_trans rest.2
      (Nat.lt_trans colon.2 (Nat.lt_trans (Text.Quoted.length_of_readFrom h) opened.2))))

end

end Reader

/-- Reads a text that holds one value, with blanks around it. -/
def read? (s : String) : Option Json :=
  match Reader.value? 127 s.toList with
  | some (j, rest) => if (Reader.skipSpace rest.1).isEmpty then some j else none
  | none => none

end LambdaQuery.Json
