import LambdaQuery.Host.Interpreter.Numeric
import LambdaQuery.Host.Value.Json

/-!
# Operators on values
-/

set_option autoImplicit false

namespace LambdaQuery.Value

def expectBool (v : Value) : Except HostError Bool :=
  match v with
  | .boolean b => .ok b
  | v => .error (.typeError (.expectedBoolean v.kindName))

/-- The member of a value whose static type is `ty`. -/
def member (v : Value) (ty : HostType) (name : String) : Except HostError Value :=
  if ty.isNullable && name == "Value" then
    if v.isNull then .error (.typeError .emptyNullable) else .ok v
  else if ty.isNullable && name == "HasValue" then .ok (.boolean !v.isNull)
  else
    match v with
    | .object fields =>
      match Record.get? fields name with
      | some v => .ok v
      | none => .error (.unknownMember name)
    | .array items =>
      if name == "Length" || name == "Count" then .ok (.integer (Int64.ofNat items.length))
      else .error (.unknownMember s!"{name} on array")
    | .string s =>
      if name == "Length" then .ok (.integer (Int64.ofNat s.length))
      else .error (.unknownMember s!"{name} on string")
    | .null => .error (.typeError (.memberOfNull name))
    | v => .error (.unknownMember s!"{name} on {v.kindName}")

/-- Conversion to a numeric type. What is no number stays as it is, and so does a number that the
type cannot hold; doubles beyond 64 bits become the nearest integer. -/
def convert (v : Value) (ty : HostType) : Value :=
  match Numeric.ofValue? v with
  | none => v
  | some number =>
    match ty.underlying with
    | .int32 | .int64 | .enum _ =>
      match number with
      | .int n => .integer n
      | .decimal d =>
        match d.toInt64? with
        | some n => .integer n
        | none => v
      | .float x => .integer (Double.toInt64 x)
    | .double => .float number.toFloat
    | .decimal =>
      match number.toDecimal? with
      | some d => .decimal d
      | none => v
    | _ => v

/-- A unary operation whose result has the type `ty`. -/
def unary (op : UnaryOp) (v : Value) (ty : HostType) : Except HostError Value :=
  match op with
  | .negate =>
    match Numeric.ofValue? v with
    | some (.int n) =>
      match int64? (-n.toInt) with
      | some n => .ok (.integer n)
      | none => .error (.typeError .overflow)
    | some (.decimal d) => .ok (.decimal d.neg)
    | some (.float x) => .ok (.float (-x))
    | none => .error (.typeError (.negation v.kindName))
  | .unaryPlus | .typeAs => .ok v
  | .not =>
    match v with
    | .boolean b => .ok (.boolean !b)
    | .integer n => .ok (.integer (~~~n))
    | v => .error (.typeError (.logicalNot v.kindName))
  | .onesComplement =>
    match v with
    | .integer n => .ok (.integer (~~~n))
    | v => .error (.typeError (.complement v.kindName))
  | .convert => .ok (v.convert ty)
  | .arrayLength =>
    match v with
    | .array items => .ok (.integer (Int64.ofNat items.length))
    | v => .error (.typeError (.length v.kindName))
  | .quote => .error (.typeError .quotedLambdaValue)

/-- Two operands that an operator does not take. -/
def operandFault (op : BinaryOp) (a b : Value) : HostError :=
  .typeError (.operands op a.kindName b.kindName)

def arithmetic (op : BinaryOp) (kind : Numeric.ArithmeticOp) (a b : Value) :
    Except HostError Value :=
  match Numeric.ofValue? a, Numeric.ofValue? b with
  | some x, some y => (Numeric.arithmetic kind (operandFault op a b) x y).map (·.toValue)
  | _, _ => .error (operandFault op a b)

/-- A comparison that holds for the orders that `holds` accepts. -/
def ordered (holds : Ordering → Bool) (a b : Value) : Except HostError Value :=
  match a.compare? b with
  | some o => .ok (.boolean (holds o))
  | none => .error (.typeError (.comparison a.kindName b.kindName))

/-- A bitwise operation on integers, or the logical one on booleans. -/
def bitwise (op : BinaryOp) (onBools : Bool → Bool → Bool) (onInts : Int64 → Int64 → Int64)
    (a b : Value) : Except HostError Value :=
  match a, b with
  | .boolean x, .boolean y => .ok (.boolean (onBools x y))
  | .integer x, .integer y => .ok (.integer (onInts x y))
  | a, b => .error (operandFault op a b)

/-- A shift by an amount that 32 bits hold; of the amount the last six bits count. -/
def shift (op : BinaryOp) (onInts : Int64 → Int64 → Int64) (a b : Value) :
    Except HostError Value :=
  match a, b with
  | .integer x, .integer y =>
    if 0 ≤ y.toInt ∧ y.toInt < UInt32.size then .ok (.integer (onInts x (y &&& 63)))
    else .error (operandFault op a b)
  | a, b => .error (operandFault op a b)

/-- A binary operation on values; the logical operators are no operations on values. -/
def binary (op : BinaryOp) (a b : Value) : Except HostError Value :=
  match op with
  | .equal => .ok (.boolean (a.equals b))
  | .notEqual => .ok (.boolean !(a.equals b))
  | .lessThan => ordered (· == .lt) a b
  | .lessThanOrEqual => ordered (· != .gt) a b
  | .greaterThan => ordered (· == .gt) a b
  | .greaterThanOrEqual => ordered (· != .lt) a b
  | .add =>
    match a, b with
    | .string s, b => .ok (.string (s ++ b.text))
    | a, .string t => .ok (.string (a.text ++ t))
    | a, b => arithmetic op .add a b
  | .subtract => arithmetic op .subtract a b
  | .multiply => arithmetic op .multiply a b
  | .divide => arithmetic op .divide a b
  | .modulo => arithmetic op .modulo a b
  | .power =>
    match Numeric.ofValue? a, Numeric.ofValue? b with
    | some x, some y => .ok (.float (x.toFloat ^ y.toFloat))
    | _, _ => .error (operandFault op a b)
  | .and => bitwise op (· && ·) (· &&& ·) a b
  | .or => bitwise op (· || ·) (· ||| ·) a b
  | .exclusiveOr => bitwise op (· ^^ ·) (· ^^^ ·) a b
  | .leftShift => shift op (· <<< ·) a b
  | .rightShift => shift op (· >>> ·) a b
  | .arrayIndex =>
    match a, b.toInt64? with
    | .array items, some i =>
      match if 0 ≤ i.toInt then items[i.toInt.toNat]? else none with
      | some v => .ok v
      | none => .error (.typeError (.indexOutOfRange i))
    | _, _ => .error (operandFault op a b)
  | .andAlso | .orElse | .coalesce => .error (.typeError (.unevaluatedOperands op))

end LambdaQuery.Value
