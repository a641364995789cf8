/-!
# Words

Integers that fit in 64 bits.
-/

set_option autoImplicit false

namespace LambdaQuery

/-- An integer that 64 bits with a sign hold. -/
def int64? (n : Int) : Option Int64 :=
  if Int64.minValue.toInt ≤ n ∧ n ≤ Int64.maxValue.toInt then some (Int64.ofInt n) else none

/-- An integer that 64 bits without a sign hold. -/
def uint64? (n : Int) : Option UInt64 :=
  if 0 ≤ n ∧ n < UInt64.size then some (UInt64.ofNat n.toNat) else none

end LambdaQuery
