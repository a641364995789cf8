import LambdaQuery.Host.HostType
import LambdaQuery.Host.Value.Basic

/-!
# Host expressions

A query is a tree of host code: calls of query operators over a root, with lambdas for their
arguments. `rows.Where(r => r.price > 100).Take(5)` is the call `Take(Where(rows, r => …), 5)`.
The root is a constant whose type is `HostType.documentQuery`.
-/

set_option autoImplicit false

namespace LambdaQuery

inductive BinaryOp where
  /-- Addition, or concatenation of strings. -/
  | add
  | subtract
  | multiply
  | divide
  | modulo
  | power
  /-- Logical operators, which may skip their right side. -/
  | andAlso
  | orElse
  | and
  | or
  | exclusiveOr
  | leftShift
  | rightShift
  | equal
  | notEqual
  | lessThan
  | lessThanOrEqual
  | greaterThan
  | greaterThanOrEqual
  | coalesce
  | arrayIndex
  deriving DecidableEq, Inhabited

namespace BinaryOp

def name : BinaryOp → String
  | .add => "Add"
  | .subtract => "Subtract"
  | .multiply => "Multiply"
  | .divide => "Divide"
  | .modulo => "Modulo"
  | .power => "Power"
  | .andAlso => "AndAlso"
  | .orElse => "OrElse"
  | .and => "And"
  | .or => "Or"
  | .exclusiveOr => "ExclusiveOr"
  | .leftShift => "LeftShift"
  | .rightShift => "RightShift"
  | .equal => "Equal"
  | .notEqual => "NotEqual"
  | .lessThan => "LessThan"
  | .lessThanOrEqual => "LessThanOrEqual"
  | .greaterThan => "GreaterThan"
  | .greaterThanOrEqual => "GreaterThanOrEqual"
  | .coalesce => "Coalesce"
  | .arrayIndex => "ArrayIndex"

def all : List BinaryOp :=
  [.add, .subtract, .multiply, .divide, .modulo, .power, .andAlso, .orElse, .and, .or,
   .exclusiveOr, .leftShift, .rightShift, .equal, .notEqual, .lessThan, .lessThanOrEqual,
   .greaterThan, .greaterThanOrEqual, .coalesce, .arrayIndex]

def ofName? (s : String) : Option BinaryOp := all.find? (·.name == s)

end BinaryOp

inductive UnaryOp where
  | negate
  | unaryPlus
  | not
  | onesComplement
  /-- A conversion, which the query does not show. -/
  | convert
  /-- A quoted lambda. -/
  | quote
  | typeAs
  | arrayLength
  deriving DecidableEq, Inhabited

namespace UnaryOp

def name : UnaryOp → String
  | .negate => "Negate"
  | .unaryPlus => "UnaryPlus"
  | .not => "Not"
  | .onesComplement => "OnesComplement"
  | .convert => "Convert"
  | .quote => "Quote"
  | .typeAs => "TypeAs"
  | .arrayLength => "ArrayLength"

def all : List UnaryOp :=
  [.negate, .unaryPlus, .not, .onesComplement, .convert, .quote, .typeAs, .arrayLength]

def ofName? (s : String) : Option UnaryOp := all.find? (·.name == s)

end UnaryOp

/-- A field or property of a host type. -/
structure Member where
  owner : HostType
  /-- The name in host code. -/
  name : String
  deriving DecidableEq

/-- Where a method is declared. -/
inductive Declaring where
  /-- Query operators over documents. -/
  | queryable
  /-- The same operators over sequences in memory and arrays in documents. -/
  | enumerable
  | list
  | string
  | math
  | typeCheck
  /-- Calls of functions that the database's user defined. -/
  | userFunction
  /-- Query text in place of operators. -/
  | queryEscape
  /-- What every object can do. -/
  | object
  /-- Any other host type. -/
  | host (qualified : String)
  deriving DecidableEq

/-- Calls that have a meaning in the query alone, and are never evaluated on the host. -/
def Declaring.isQuerySurface : Declaring → Bool
  | .queryable | .userFunction | .queryEscape | .typeCheck => true
  | _ => false

structure Method where
  declaring : Declaring
  name : String
  deriving DecidableEq

/-- Whether the method is a query operator. -/
def Method.isOperator (m : Method) : Bool :=
  match m.declaring with
  | .queryable | .enumerable => true
  | _ => false

def Method.text (m : Method) : String :=
  match m.declaring with
  | .host qualified => qualified ++ "." ++ m.name
  | _ => m.name

/-- A parameter of a lambda. -/
structure Param where
  name : String
  ty : HostType
  deriving DecidableEq

mutual

inductive Expr where
  /-- A literal or a captured value. -/
  | constant (value : Value) (ty : HostType)
  /-- A use of a lambda's parameter. -/
  | parameter (name : String) (ty : HostType)
  /-- Access to a member, which is static without an object. -/
  | member (object : Option Expr) (member : Member) (ty : HostType)
  | binary (op : BinaryOp) (left right : Expr) (ty : HostType)
  | unary (op : UnaryOp) (operand : Expr) (ty : HostType)
  | conditional (test ifTrue ifFalse : Expr) (ty : HostType)
  /-- A call, without target of a static or extension method. -/
  | call (target : Option Expr) (method : Method) (args : List Expr) (ty : HostType)
  /-- A constructor call; `members` names the member that each argument sets. -/
  | construct (args : List Expr) (members : Option (List Member)) (ty : HostType)
  /-- A constructor call with bindings of members. -/
  | memberInit (base : Expr) (bindings : List Binding) (ty : HostType)
  /-- A constructor call with the items of a collection. -/
  | listInit (base : Expr) (items : List Expr) (ty : HostType)
  | newArray (items : List Expr) (ty : HostType)
  | lambda (params : List Param) (body : Expr)
  /-- A call of a function value. -/
  | invoke (target : Expr) (args : List Expr) (ty : HostType)

inductive Binding where
  /-- The binding `member = value`. -/
  | assign (member : Member) (value : Expr)
  /-- Bindings of the members of a member. -/
  | nested (member : Member) (bindings : List Binding)
  /-- The items of a collection member. -/
  | collect (member : Member) (items : List Expr)

end

mutual

/-- The expressions in a binding, in order. -/
def Binding.children : Binding → List Expr
  | .assign _ value => [value]
  | .nested _ bindings => Binding.childrenOfAll bindings
  | .collect _ items => items

def Binding.childrenOfAll : List Binding → List Expr
  | [] => []
  | b :: bs => b.children ++ Binding.childrenOfAll bs

end

/-- Parameters and a body. -/
structure Lambda where
  params : List Param
  body : Expr

/-- The lambda with one parameter. -/
def Lambda.unary (name : String) (ty : HostType) (body : Expr) : Lambda := ⟨[⟨name, ty⟩], body⟩

namespace Expr

/-- The kind of the outermost node. -/
inductive Kind where
  | constant
  | parameter
  | memberAccess
  | binary (op : BinaryOp)
  | unary (op : UnaryOp)
  | conditional
  | call
  | construct
  | memberInit
  | listInit
  | newArray
  | lambda
  | invoke
  deriving DecidableEq

def Kind.text : Kind → String
  | .constant => "Constant"
  | .parameter => "Parameter"
  | .memberAccess => "MemberAccess"
  | .binary op => op.name
  | .unary op => op.name
  | .conditional => "Conditional"
  | .call => "Call"
  | .construct => "New"
  | .memberInit => "MemberInit"
  | .listInit => "ListInit"
  | .newArray => "NewArray"
  | .lambda => "Lambda"
  | .invoke => "Invoke"

def kind : Expr → Kind
  | .constant .. => .constant
  | .parameter .. => .parameter
  | .member .. => .memberAccess
  | .binary op .. => .binary op
  | .unary op .. => .unary op
  | .conditional .. => .conditional
  | .call .. => .call
  | .construct .. => .construct
  | .memberInit .. => .memberInit
  | .listInit .. => .listInit
  | .newArray .. => .newArray
  | .lambda .. => .lambda
  | .invoke .. => .invoke

/-- The static type of a node. -/
def ty : Expr → HostType
  | .constant _ ty | .parameter _ ty | .member _ _ ty | .binary _ _ _ ty | .unary _ _ ty
  | .conditional _ _ _ ty | .call _ _ _ ty | .construct _ _ ty | .memberInit _ _ ty
  | .listInit _ _ ty | .newArray _ ty | .invoke _ _ ty => ty
  | .lambda .. => .lambda

theorem sizeOf_pos (e : Expr) : 0 < sizeOf e := by
  cases e <;> simp +arith

/-- The lambda that an expression is, without the quotes around it. -/
def asLambda? : (e : Expr) → Option { l : Lambda // sizeOf l.body < sizeOf e }
  | .lambda params body => some ⟨⟨params, body⟩, by simp only [Expr.lambda.sizeOf_spec]; omega⟩
  | .unary .quote operand _ =>
    (asLambda? operand).map fun l => ⟨l.1, by
      have := l.2
      simp only [Expr.unary.sizeOf_spec]
      omega⟩
  | _ => none

def asConstant? : Expr → Option Value
  | .constant value _ => some value
  | _ => none

/-- Whether an expression is the query that chains of operators start from: all documents. -/
def isRoot : Expr → Bool
  | .constant _ ty => ty.isDocumentQuery
  | _ => false

/-! ## Children -/

/-- The direct parts of a node, in the order in which they are evaluated. -/
def children : Expr → List Expr
  | .constant .. | .parameter .. => []
  | .member object _ _ => object.toList
  | .binary _ left right _ => [left, right]
  | .unary _ operand _ => [operand]
  | .conditional test ifTrue ifFalse _ => [test, ifTrue, ifFalse]
  | .call target _ args _ => target.toList ++ args
  | .construct args _ _ => args
  | .memberInit base bindings _ => base :: Binding.childrenOfAll bindings
  | .listInit base items _ => base :: items
  | .newArray items _ => items
  | .lambda _ body => [body]
  | .invoke target args _ => target :: args

end Expr

mutual

theorem Binding.sizeOf_child : ∀ {b : Binding} {d : Expr}, d ∈ b.children → sizeOf d < sizeOf b
  | .assign _ value, d, h => by
    obtain rfl := List.mem_singleton.mp h
    simp only [Binding.assign.sizeOf_spec]
    omega
  | .nested _ bindings, d, h => by
    have := Binding.sizeOf_childOfAll (show d ∈ Binding.childrenOfAll bindings from h)
    simp only [Binding.nested.sizeOf_spec]
    omega
  | .collect _ items, d, h => by
    have := List.sizeOf_lt_of_mem (show d ∈ items from h)
    simp only [Binding.collect.sizeOf_spec]
    omega

theorem Binding.sizeOf_childOfAll : ∀ {bs : List Binding} {d : Expr},
    d ∈ Binding.childrenOfAll bs → sizeOf d < sizeOf bs
  | b :: bs, d, h => by
    simp only [List.cons.sizeOf_spec]
    rcases List.mem_append.mp h with h | h
    · have := Binding.sizeOf_child h
      omega
    · have := Binding.sizeOf_childOfAll h
      omega

end

theorem Expr.sizeOf_child {e d : Expr} (h : d ∈ e.children) : sizeOf d < sizeOf e := by
  cases e with
  | constant => cases h
  | parameter => cases h
  | member object m ty =>
    obtain rfl := Option.mem_toList.mp h
    simp only [Expr.member.sizeOf_spec, Option.some.sizeOf_spec]
    omega
  | memberInit base bindings ty =>
    simp only [Expr.memberInit.sizeOf_spec]
    rcases List.mem_cons.mp h with rfl | h
    · omega
    · have := Binding.sizeOf_childOfAll h
      omega
  | call target method args ty =>
    simp only [Expr.call.sizeOf_spec]
    rcases List.mem_append.mp h with h | h
    · obtain rfl := Option.mem_toList.mp h
      simp only [Option.some.sizeOf_spec]
      omega
    · have := List.sizeOf_lt_of_mem h
      omega
  | binary op left right ty =>
    simp only [children, List.mem_cons, List.not_mem_nil, or_false] at h
    simp only [Expr.binary.sizeOf_spec]
    rcases h with rfl | rfl <;> omega
  | unary op operand ty =>
    obtain rfl := List.mem_singleton.mp h
    simp only [Expr.unary.sizeOf_spec]
    omega
  | conditional test ifTrue ifFalse ty =>
    simp only [children, List.mem_cons, List.not_mem_nil, or_false] at h
    simp only [Expr.conditional.sizeOf_spec]
    rcases h with rfl | rfl | rfl <;> omega
  | construct args members ty =>
    have := List.sizeOf_lt_of_mem (show d ∈ args from h)
    simp only [Expr.construct.sizeOf_spec]
    omega
  | listInit base items ty =>
    simp only [Expr.listInit.sizeOf_spec]
    rcases List.mem_cons.mp h with rfl | h
    · omega
    · have := List.sizeOf_lt_of_mem h
      omega
  | newArray items ty =>
    have := List.sizeOf_lt_of_mem (show d ∈ items from h)
    simp only [Expr.newArray.sizeOf_spec]
    omega
  | lambda params body =>
    obtain rfl := List.mem_singleton.mp h
    simp only [Expr.lambda.sizeOf_spec]
    omega
  | invoke target args ty =>
    simp only [Expr.invoke.sizeOf_spec]
    rcases List.mem_cons.mp h with rfl | h
    · omega
    · have := List.sizeOf_lt_of_mem h
      omega

end LambdaQuery
