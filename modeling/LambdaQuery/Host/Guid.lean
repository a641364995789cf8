import LambdaQuery.Text.Quoted

/-!
# Globally unique identifiers

A `Guid` has 32 hexadecimal digits. It is written in lower case in five groups with hyphens between
them, and read in any case from that form (plain, in braces or after `urn:uuid:`) or without
hyphens.
-/

set_option autoImplicit false

namespace LambdaQuery

/-- The number of identifiers. -/
def Guid.size : Nat := 1 <<< 128

structure Guid where
  value : Nat
  value_lt : value < Guid.size
  deriving DecidableEq

namespace Guid

/-- The last `n` hexadecimal digits of a number. -/
def hexDigits (value : Nat) : Nat → List Char
  | 0 => []
  | n + 1 => hexDigits (value / 16) n ++ [Text.Quoted.hexDigit (value % 16)]

/-- The lengths of the groups. -/
def groups : List Nat := [8, 4, 4, 4, 12]

/-- Cuts digits into groups of these lengths, with hyphens between them. -/
def hyphenate : List Nat → List Char → List Char
  | [], cs => cs
  | [_], cs => cs
  | n :: ns, cs => cs.take n ++ '-' :: hyphenate ns (cs.drop n)

def text (g : Guid) : String := String.ofList (hyphenate groups (hexDigits g.value 32))

/-- The digits of groups of these lengths, between which there must be hyphens. -/
def dehyphenate? : List Nat → List Char → Option (List Char)
  | [], cs => if cs.isEmpty then some [] else none
  | [n], cs => if cs.length = n then some cs else none
  | n :: ns, cs =>
    match cs.drop n with
    | '-' :: rest => (dehyphenate? ns rest).map (cs.take n ++ ·)
    | _ => none

/-- Takes the surroundings off a hyphenated form. -/
def unwrap (cs : List Char) : List Char :=
  match cs with
  | '{' :: rest => if rest.getLast? = some '}' then rest.dropLast else cs
  | _ =>
    let scheme := "urn:uuid:".toList
    if scheme.isPrefixOf cs then cs.drop scheme.length else cs

/-- The number that 32 hexadecimal digits write. -/
def ofDigits? (cs : List Char) : Option Guid :=
  let value := cs.foldlM (fun n c => (Text.Quoted.hexValue c).map (n * 16 + ·)) 0
  match value with
  | some n => if h : n < size ∧ cs.length = 32 then some ⟨n, h.1⟩ else none
  | none => none

def read? (s : String) : Option Guid :=
  let cs := s.toList
  if cs.length = 32 then ofDigits? cs else (dehyphenate? groups (unwrap cs)).bind ofDigits?

end Guid

end LambdaQuery
