import LambdaQuery.Compilation.Scope

/-!
# Literals

The scalars that host values and JSON become. The query language has no infinities and no NaN.
-/

set_option autoImplicit false

namespace LambdaQuery

/-- A finite double. -/
def Scalar.double? (x : Float) : Except CompileError Scalar :=
  if x.isFinite then .ok (.double x) else .error (.unsupported (.nonFinite x))

mutual

/-- The scalar that builds a JSON value. -/
def Json.toScalar : Json → Except CompileError Scalar
  | .null => .ok .null
  | .bool b => .ok (.boolean b)
  | .num n =>
    match n.toInt64? with
    | some i => .ok (.integer i)
    | none => Scalar.double? n.toFloat
  | .str s => .ok (.string s)
  | .arr items => do return .array (← Json.toScalars items)
  | .obj members => do return .object (← Json.toProperties members)

def Json.toScalars : List Json → Except CompileError (List Scalar)
  | [] => .ok []
  | j :: js => do return (← j.toScalar) :: (← Json.toScalars js)

def Json.toProperties : List (String × Json) → Except CompileError (List (String × Scalar))
  | [] => .ok []
  | (name, j) :: ms => do return (name, ← j.toScalar) :: (← Json.toProperties ms)

end

mutual

/-- The scalar of a value. -/
def Value.toScalar : Value → Except CompileError Scalar
  | .null => .ok .null
  | .boolean b => .ok (.boolean b)
  | .integer n => .ok (.integer n)
  | .unsigned n =>
    match int64? n.toNat with
    | some i => .ok (.integer i)
    | none => Scalar.double? (Double.ofUInt64 n)
  | .float x => Scalar.double? x
  | .decimal d =>
    match d.toInt64? with
    | some n => if d.isWhole then .ok (.integer n) else Scalar.double? d.toFloat
    | none => Scalar.double? d.toFloat
  | .char c => .ok (.string (String.singleton c))
  | .string s => .ok (.string s)
  | .guid g => .ok (.string g.text)
  | .geometry shape => shape.toScalar
  | .array items => do return .array (← Value.toScalars items)
  | .object fields => (Value.object fields).toJson.toScalar
  | .query q => (Value.query q).toJson.toScalar

def Value.toScalars : List Value → Except CompileError (List Scalar)
  | [] => .ok []
  | v :: vs => do return (← v.toScalar) :: (← Value.toScalars vs)

end

/-- The JSON value of a literal. -/
def Literal.toJson : Literal → Json
  | .null | .undefined => .null
  | .boolean b => .bool b
  | .integer n => .int n
  | .double x => .float x
  | .string s => .str s

namespace Compilation

/-- The scalar of a constant that is bound to no parameter and holds no other constants. -/
def inlined (naming : Naming) (ty : HostType) (v : Value) : Compilation Scalar := do
  match v with
  | .object _ => ofExcept (← ofHost (naming.wireJson ty v)).toScalar
  | .query _ => throw (.unsupported .preparedValue)
  | v => ofExcept v.toScalar

mutual

/-- The scalar of a constant of type `ty`: the parameter that it is bound to, or a literal. The
items of an array are constants of their own. -/
def constant (options : Options) (ty : HostType) : Value → Compilation Scalar
  | .array items => do
    if ty.isDocumentQuery then throw (.unsupported .queryValue)
    match ← bindConstant options (.array items) with
    | some name => return .parameter name
    | none => return .array (← constants options (ty.element?.getD .object) items)
  | v => do
    if ty.isDocumentQuery then throw (.unsupported .queryValue)
    match ← bindConstant options v with
    | some name => return .parameter name
    | none => inlined options.naming ty v

def constants (options : Options) (ty : HostType) : List Value → Compilation (List Scalar)
  | [] => return []
  | v :: vs => return (← constant options ty v) :: (← constants options ty vs)

end

end Compilation

end LambdaQuery
