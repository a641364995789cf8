import LambdaQuery.Text.Case

/-!
# Camel case

A name in camel case starts in lower case: of the capitals at its front, all are lowered but one
that starts the next word (`Price` to `price`, `ID` to `id`, `URLValue` to `urlValue`).
-/

set_option autoImplicit false

namespace LambdaQuery

/-- Lowers capitals up to the first other character, or to a capital, other than the first, before a
lower-case character. -/
def lowerCapitals (first : Bool) : List Char → List Char
  | [] => []
  | c :: rest =>
    if !Text.isUpper c then c :: rest
    else if !first && rest.head?.any Text.isLower then c :: rest
    else Text.lowerOf c ++ lowerCapitals false rest

def camelCase (name : String) : String := String.ofList (lowerCapitals true name.toList)

end LambdaQuery
