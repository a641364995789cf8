/-!
# Texts inside texts

The empty text occurs everywhere: it is contained in every text and has an occurrence before each
character and at the end.
-/

set_option autoImplicit false

namespace LambdaQuery.Text

/-- Whether `part` occurs in a text. -/
def occursIn (part : List Char) : List Char → Bool
  | [] => part.isEmpty
  | c :: rest => part.isPrefixOf (c :: rest) || occursIn part rest

/-- Replaces the occurrences of a text that is `extra + 1` characters long, from left to right and
without overlap; the first `skip` characters belong to an occurrence that is already replaced. -/
def replaceFrom (part new : List Char) (extra skip : Nat) : List Char → List Char
  | [] => []
  | c :: rest =>
    match skip with
    | n + 1 => replaceFrom part new extra n rest
    | 0 =>
      if part.isPrefixOf (c :: rest) then new ++ replaceFrom part new extra extra rest
      else c :: replaceFrom part new extra 0 rest

/-- Replaces every occurrence of `part` by `new`. -/
def replaceAll (part new text : List Char) : List Char :=
  match part with
  | [] => new ++ text.flatMap fun c => c :: new
  | _ :: tail => replaceFrom part new tail.length 0 text

def contains (s part : String) : Bool := occursIn part.toList s.toList

def startsWith (s part : String) : Bool := part.toList.isPrefixOf s.toList

def endsWith (s part : String) : Bool := part.toList.isSuffixOf s.toList

def replace (s part new : String) : String :=
  String.ofList (replaceAll part.toList new.toList s.toList)

end LambdaQuery.Text
