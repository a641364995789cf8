/-!
# Powers of ten
-/

set_option autoImplicit false

namespace LambdaQuery

/-- A one with `n` zeros. -/
def tenPow (n : Nat) : Nat := Nat.pow 10 n

end LambdaQuery
