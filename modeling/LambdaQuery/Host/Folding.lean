import LambdaQuery.Host.Error
import LambdaQuery.Host.Expr.MapChildren

/-!
# Constant folding

Folding replaces each largest part of an expression that can be evaluated on the host by its value,
in two passes. `Expr.nominate` marks every node that can be evaluated, from the leaves up;
`Nomination.evaluate` goes down from the root, replaces the first marked node on each path and
does not look below it. What is evaluated is up to the caller: `Expr.fold` asks a function for the
value of each such part, from left to right, and stops when an answer is an error.
-/

set_option autoImplicit false

namespace LambdaQuery

universe u

/-- Whether a node whose parts can all be evaluated can be evaluated itself. Parameters and lambdas
are no values, the calls of the query surface and object initialisers are left to the query, and a
query over documents is only a reference. -/
def Expr.isLocal : Expr → Bool
  | .constant .. => true
  | .parameter .. | .lambda .. | .unary .quote .. | .memberInit .. => false
  | .call _ method _ ty => !method.declaring.isQuerySurface && !ty.isDocumentQuery
  | e => !e.ty.isDocumentQuery

/-- The marks of an expression: whether its root can be evaluated, and the marks of its parts, in
the order of `Expr.children`. -/
structure Nomination where
  candidate : Bool
  children : List Nomination

/-- The first pass. A node can be evaluated if all its parts can be and it is local itself. -/
def Expr.nominate (e : Expr) : Nomination :=
  let children := e.children.attach.map fun d => d.1.nominate
  ⟨children.all (·.candidate) && e.isLocal, children⟩
termination_by sizeOf e
decreasing_by exact sizeOf_child d.2

/-- Whether an expression can be evaluated. -/
def Expr.isFoldable (e : Expr) : Bool := e.nominate.candidate

section

variable {m : Type → Type u} [Monad m]

/-- An action on the parts of a node that is told how many parts were visited before. -/
def Expr.visit (f : Nat → Expr → m Expr) (child : Expr) : StateT Nat m Expr := do
  f (← getModify (· + 1)) child

mutual

/-- The second pass. Constants stay, a marked node becomes its value, and of any other node the
parts are visited, each with the next of the marks. -/
def Nomination.evaluate (ask : Expr → m Value) : Nomination → Expr → m Expr
  | _, .constant value ty => return .constant value ty
  | ⟨candidate, marks⟩, e =>
    if candidate then return .constant (← ask e) e.ty
    else (e.mapChildren (Expr.visit (Nomination.evaluateAt ask marks))).run' 0

/-- The second pass on the part that is visited after `i` others. Where no mark is left for it, it
stays as it is. -/
def Nomination.evaluateAt (ask : Expr → m Value) :
    List Nomination → (i : Nat) → Expr → m Expr
  | [], _, child => return child
  | mark :: _, 0, child => mark.evaluate ask child
  | _ :: marks, i + 1, child => Nomination.evaluateAt ask marks i child

end

/-- Folds an expression; `ask` answers what the value of a marked expression is. -/
def Expr.fold (ask : Expr → m Value) (e : Expr) : m Expr := e.nominate.evaluate ask e

end

/-- What answers for the values of host expressions. -/
abbrev Evaluator := Expr → Except HostError Value

end LambdaQuery
