import LambdaQuery.Json.Basic
import LambdaQuery.Number.Shortest
import LambdaQuery.Text.Quoted

/-!
# JSON texts

`Json.compact` writes a value without blanks, `Json.pretty` with one member or item a line. Doubles
have the fewest digits that read back, with a point or an exponent to tell them from integers.
-/

set_option autoImplicit false

namespace LambdaQuery.Json

/-- Control characters are escaped, by a letter where there is one. -/
def quoting : Text.Quoted.Style where
  short
    | '"' => some '"'
    | '\\' => some '\\'
    | '\x08' => some 'b'
    | '\x0c' => some 'f'
    | '\n' => some 'n'
    | '\r' => some 'r'
    | '\t' => some 't'
    | _ => none
  coded c := decide (c.toNat < 0x20)

/-- A first digit between `1e-5` and `1e15` needs no exponent, and whole numbers end in `.0`. -/
def doubles : Shortest.Layout := ⟨.even, fun p => -5 ≤ p && p < 16, true⟩

def Number.text : Number → String
  | .int n => toString n
  | .float x => if x.isFinite then doubles.write x else "null"

def quote (s : String) : String := Text.Quoted.write quoting s

mutual

def compact : Json → String
  | .null => "null"
  | .bool b => if b then "true" else "false"
  | .num n => n.text
  | .str s => quote s
  | .arr items => "[" ++ ",".intercalate (compactItems items) ++ "]"
  | .obj members => "\x7b" ++ ",".intercalate (compactMembers members) ++ "\x7d"

def compactItems : List Json → List String
  | [] => []
  | j :: js => compact j :: compactItems js

def compactMembers : List (String × Json) → List String
  | [] => []
  | (n, j) :: ms => (quote n ++ ":" ++ compact j) :: compactMembers ms

end

/-- Lines between brackets, each indented by `depth + 1` steps; no lines leave the brackets bare. -/
def block (left right : String) (depth : Nat) (lines : List String) : String :=
  let indent (n : Nat) := "\n" ++ String.ofList (List.replicate (2 * n) ' ')
  if lines.isEmpty then left ++ right
  else left ++ ",".intercalate (lines.map (indent (depth + 1) ++ ·)) ++ indent depth ++ right

mutual

/-- The text of a value that stands `depth` levels deep. -/
def prettyAt (depth : Nat) : Json → String
  | .arr items => block "[" "]" depth (prettyItems (depth + 1) items)
  | .obj members => block "\x7b" "\x7d" depth (prettyMembers (depth + 1) members)
  | .null => "null"
  | .bool b => if b then "true" else "false"
  | .num n => n.text
  | .str s => quote s

def prettyItems (depth : Nat) : List Json → List String
  | [] => []
  | j :: js => prettyAt depth j :: prettyItems depth js

def prettyMembers (depth : Nat) : List (String × Json) → List String
  | [] => []
  | (n, j) :: ms => (quote n ++ ": " ++ prettyAt depth j) :: prettyMembers depth ms

end

def pretty (j : Json) : String := prettyAt 0 j

end LambdaQuery.Json
