import LambdaQuery.Host.Expr.Basic

/-!
# Building expressions

Expressions with the types that host code gives them.
-/

set_option autoImplicit false

namespace LambdaQuery.Expr

/-! ## Constants -/

def int (n : Int64) : Expr := .constant (.integer n) .int32

def string (s : String) : Expr := .constant (.string s) .string

def boolean (b : Bool) : Expr := .constant (.boolean b) .boolean

def null (ty : HostType) : Expr := .constant .null ty

/-! ## Operations -/

/-- A member of an object, owned by the object's type. -/
def property (object : Expr) (name : String) (ty : HostType) : Expr :=
  .member (some object) ⟨object.ty, name⟩ ty

def compare (op : BinaryOp) (left right : Expr) : Expr := .binary op left right .boolean

def not (operand : Expr) : Expr := .unary .not operand .boolean

def convert (operand : Expr) (ty : HostType) : Expr := .unary .convert operand ty

/-- A choice, of the type of its first alternative. -/
def choose (test ifTrue ifFalse : Expr) : Expr := .conditional test ifTrue ifFalse ifTrue.ty

/-! ## Calls and lambdas -/

def methodCall (target : Expr) (method : Method) (args : List Expr) (ty : HostType) : Expr :=
  .call (some target) method args ty

/-- A call of a static or extension method. -/
def staticCall (method : Method) (args : List Expr) (ty : HostType) : Expr :=
  .call none method args ty

def ofLambda (l : Lambda) : Expr := .lambda l.params l.body

/-- A quoted lambda, as query operators take it. -/
def quote (l : Lambda) : Expr := .unary .quote (ofLambda l) .lambda

/-! ## Construction -/

def array (items : List Expr) (element : HostType) : Expr := .newArray items (.array element)

/-- An object of an anonymous type. -/
def anonymous (fields : List (String × Expr)) : Expr :=
  .construct (fields.map (·.2)) (some (fields.map fun (name, _) => ⟨.anonymous, name⟩)) .anonymous

end LambdaQuery.Expr
