/-!
# Quoted texts

Texts between double quotes, as JSON and the query language write them. Reading
(`Quoted.read`) knows every escape of JSON. Writing leaves a choice, which is a value of
`Quoted.Style`: the characters with a short escape and those that are written by their code.
-/

set_option autoImplicit false

namespace LambdaQuery.Text.Quoted

/-! ## Hexadecimal digits -/

def hexDigit (n : Nat) : Char :=
  if n < 10 then Char.ofNat (0x30 + n) else Char.ofNat (0x57 + n)

def hexValue (c : Char) : Option Nat :=
  let n := c.toNat
  if 0x30 ≤ n && n ≤ 0x39 then some (n - 0x30)
  else if 0x61 ≤ n && n ≤ 0x66 then some (n - 0x57)
  else if 0x41 ≤ n && n ≤ 0x46 then some (n - 0x37)
  else none

/-- The last four hexadecimal digits of `n`. -/
def hex4 (n : Nat) : List Char :=
  [hexDigit (n / 4096 % 16), hexDigit (n / 256 % 16), hexDigit (n / 16 % 16), hexDigit (n % 16)]

/-! ## Writing -/

/-- How a text is written between quotes: `short c` is the letter of the two-character escape of
`c`, and `coded c` says that `c` is written `\uXXXX` when it has none. -/
structure Style where
  short : Char → Option Char
  coded : Char → Bool

def encodeChar (style : Style) (c : Char) : List Char :=
  match style.short c with
  | some letter => ['\\', letter]
  | none => if style.coded c then '\\' :: 'u' :: hex4 c.toNat else [c]

def encode (style : Style) (s : List Char) : List Char := s.flatMap (encodeChar style)

/-- The text between quotes. -/
def write (style : Style) (s : String) : String :=
  String.ofList ('"' :: (encode style s.toList ++ ['"']))

/-! ## Reading -/

/-- The character that a two-character escape stands for. -/
def unescape (letter : Char) : Option Char :=
  match letter with
  | '"' => some '"'
  | '\\' => some '\\'
  | '/' => some '/'
  | 'b' => some '\x08'
  | 'f' => some '\x0c'
  | 'n' => some '\n'
  | 'r' => some '\r'
  | 't' => some '\t'
  | _ => none

/-- Where the reader stands: between characters, after a backslash, inside the four digits of a
code (`digits` still to come), or on the way to the second half of a surrogate pair. -/
inductive Place where
  | plain
  | escape
  | code (digits value : Nat)
  | high (first : Nat)
  | highEscape (first : Nat)
  | low (first digits value : Nat)

def isHighSurrogate (n : Nat) : Bool := 0xD800 ≤ n && n ≤ 0xDBFF

def isLowSurrogate (n : Nat) : Bool := 0xDC00 ≤ n && n ≤ 0xDFFF

/-- Reads up to the closing quote: the text and what follows it. A control character must be
escaped, and the halves of a surrogate pair come together. -/
def readFrom : Place → List Char → Option (List Char × List Char)
  | _, [] => none
  | .plain, c :: rest =>
    if c = '"' then some ([], rest)
    else if c = '\\' then readFrom .escape rest
    else if c.toNat < 0x20 then none
    else (readFrom .plain rest).map fun (s, r) => (c :: s, r)
  | .escape, c :: rest =>
    if c = 'u' then readFrom (.code 4 0) rest
    else
      match unescape c with
      | some d => (readFrom .plain rest).map fun (s, r) => (d :: s, r)
      | none => none
  | .code digits value, c :: rest =>
    match hexValue c with
    | none => none
    | some d =>
      let n := value * 16 + d
      if 1 < digits then readFrom (.code (digits - 1) n) rest
      else if isHighSurrogate n then readFrom (.high n) rest
      else if isLowSurrogate n then none
      else (readFrom .plain rest).map fun (s, r) => (Char.ofNat n :: s, r)
  | .high first, c :: rest => if c = '\\' then readFrom (.highEscape first) rest else none
  | .highEscape first, c :: rest => if c = 'u' then readFrom (.low first 4 0) rest else none
  | .low first digits value, c :: rest =>
    match hexValue c with
    | none => none
    | some d =>
      let n := value * 16 + d
      if 1 < digits then readFrom (.low first (digits - 1) n) rest
      else if isLowSurrogate n then
        let code := 0x10000 + (first - 0xD800) * 0x400 + (n - 0xDC00)
        (readFrom .plain rest).map fun (s, r) => (Char.ofNat code :: s, r)
      else none

/-- Reads a quoted text after its opening quote. -/
def read (cs : List Char) : Option (List Char × List Char) := readFrom .plain cs

theorem length_of_readFrom {place : Place} {cs s rest : List Char}
    (h : readFrom place cs = some (s, rest)) : rest.length < cs.length := by
  induction cs generalizing place s rest with
  | nil => cases place <;> simp [readFrom] at h
  | cons c cs ih =>
    have step {place : Place} {s rest : List Char} (h : readFrom place cs = some (s, rest)) :
        rest.length < (c :: cs).length := Nat.lt_succ_of_lt (ih h)
    have mapped {d : Char} {s rest : List Char}
        (h : ((readFrom .plain cs).map fun (s, r) => (d :: s, r)) = some (s, rest)) :
        rest.length < (c :: cs).length := by
      obtain ⟨⟨s', r'⟩, h', heq⟩ := Option.map_eq_some_iff.1 h
      cases heq
      exact step h'
    cases place <;> simp only [readFrom] at h <;> (repeat' split at h) <;>
      first
        | exact step h
        | exact mapped h
        | (cases h <;> simp)

end LambdaQuery.Text.Quoted
