import LambdaQuery.Text.CaseTable

/-!
# Letter case

Upper and lower case of characters and texts by the full, language-independent mappings of Unicode.
A character can grow under a mapping (`ß` to `SS`); the only mapping that looks at its neighbours is
the one of `Σ`, which ends a word as `ς` and stands elsewhere as `σ`.
-/

set_option autoImplicit false

namespace LambdaQuery.Text

def isUpper (c : Char) : Bool := upperRuns.any (·.has c.toNat)

def isLower (c : Char) : Bool := lowerRuns.any (·.has c.toNat)

def isCased (c : Char) : Bool := casedRuns.any (·.has c.toNat)

def isCaseIgnorable (c : Char) : Bool := caseIgnorableRuns.any (·.has c.toNat)

/-- The other case of `c`: its expansion, its neighbour at the distance of its run, or itself. -/
def mapCase (expansions : List (Nat × List Nat)) (shifts : List Shift) (c : Char) : List Char :=
  match expansions.lookup c.toNat with
  | some codes => codes.map Char.ofNat
  | none =>
    match shifts.find? (·.run.has c.toNat) with
    | some s => [Char.ofNat (c.toNat + s.distance).toNat]
    | none => [c]

/-- The lower case of a character on its own. -/
def lowerOf (c : Char) : List Char := mapCase lowerExpansions lowerShifts c

/-- The upper case of a character. -/
def upperOf (c : Char) : List Char := mapCase upperExpansions upperShifts c

/-- Past what case ignores, the first character is a cased one. -/
def facesCased (cs : List Char) : Bool :=
  match cs.dropWhile isCaseIgnorable with
  | [] => false
  | c :: _ => isCased c

/-- Lower case of a text; `before` is what precedes it, nearest character first. -/
def lowerFrom (before : List Char) : List Char → List Char
  | [] => []
  | c :: rest =>
    let lowered :=
      if c = 'Σ' then [if facesCased before && !facesCased rest then 'ς' else 'σ'] else lowerOf c
    lowered ++ lowerFrom (c :: before) rest

/-- Lower case of a text. -/
def lower (s : String) : String := String.ofList (lowerFrom [] s.toList)

/-- Upper case of a text. -/
def upper (s : String) : String := String.ofList (s.toList.flatMap upperOf)

end LambdaQuery.Text
