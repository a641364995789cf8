import LambdaQuery.Host.Expr.Basic

/-!
# Rebuilding a node

`Expr.mapChildren` passes the direct parts of a node through an action, in the order of
`Expr.children`, and puts the results in their places.
-/

set_option autoImplicit false

namespace LambdaQuery

universe u

variable {m : Type → Type u} [Monad m]

mutual

def Binding.mapChildren (f : Expr → m Expr) : Binding → m Binding
  | .assign member value => return .assign member (← f value)
  | .nested member bindings => return .nested member (← Binding.mapAll f bindings)
  | .collect member items => return .collect member (← items.mapM f)

def Binding.mapAll (f : Expr → m Expr) : List Binding → m (List Binding)
  | [] => return []
  | b :: bs => return (← Binding.mapChildren f b) :: (← Binding.mapAll f bs)

end

def Expr.mapChildren (f : Expr → m Expr) : Expr → m Expr
  | .constant value ty => return .constant value ty
  | .parameter name ty => return .parameter name ty
  | .member object accessed ty => return .member (← object.mapM f) accessed ty
  | .binary op left right ty => return .binary op (← f left) (← f right) ty
  | .unary op operand ty => return .unary op (← f operand) ty
  | .conditional test ifTrue ifFalse ty =>
    return .conditional (← f test) (← f ifTrue) (← f ifFalse) ty
  | .call target method args ty => return .call (← target.mapM f) method (← args.mapM f) ty
  | .construct args members ty => return .construct (← args.mapM f) members ty
  | .memberInit base bindings ty => return .memberInit (← f base) (← Binding.mapAll f bindings) ty
  | .listInit base items ty => return .listInit (← f base) (← items.mapM f) ty
  | .newArray items ty => return .newArray (← items.mapM f) ty
  | .lambda params body => return .lambda params (← f body)
  | .invoke target args ty => return .invoke (← f target) (← args.mapM f) ty

end LambdaQuery
