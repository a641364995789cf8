import LambdaQuery.Host.Expr.Basic
import LambdaQuery.Host.Value.Basic

/-!
# Equality of expressions

Expressions are equal when their nodes are, constants being compared as values: one that holds a
number which is none differs from itself, and the order of an object's fields does not count.
-/

set_option autoImplicit false

namespace LambdaQuery

mutual

def Expr.beq : Expr → Expr → Bool
  | .constant v ty, .constant v' ty' => v == v' && ty = ty'
  | .parameter name ty, .parameter name' ty' => name == name' && ty = ty'
  | .member object accessed ty, .member object' accessed' ty' =>
    Expr.beqOption object object' && accessed = accessed' && ty = ty'
  | .binary op left right ty, .binary op' left' right' ty' =>
    op = op' && left.beq left' && right.beq right' && ty = ty'
  | .unary op operand ty, .unary op' operand' ty' =>
    op = op' && operand.beq operand' && ty = ty'
  | .conditional test ifTrue ifFalse ty, .conditional test' ifTrue' ifFalse' ty' =>
    test.beq test' && ifTrue.beq ifTrue' && ifFalse.beq ifFalse' && ty = ty'
  | .call target method args ty, .call target' method' args' ty' =>
    Expr.beqOption target target' && method = method' && Expr.beqList args args' && ty = ty'
  | .construct args members ty, .construct args' members' ty' =>
    Expr.beqList args args' && members = members' && ty = ty'
  | .memberInit base bindings ty, .memberInit base' bindings' ty' =>
    base.beq base' && Binding.beqList bindings bindings' && ty = ty'
  | .listInit base items ty, .listInit base' items' ty' =>
    base.beq base' && Expr.beqList items items' && ty = ty'
  | .newArray items ty, .newArray items' ty' => Expr.beqList items items' && ty = ty'
  | .lambda params body, .lambda params' body' => params = params' && body.beq body'
  | .invoke target args ty, .invoke target' args' ty' =>
    target.beq target' && Expr.beqList args args' && ty = ty'
  | _, _ => false

def Expr.beqOption : Option Expr → Option Expr → Bool
  | none, none => true
  | some e, some e' => e.beq e'
  | _, _ => false

def Expr.beqList : List Expr → List Expr → Bool
  | [], [] => true
  | e :: es, e' :: es' => e.beq e' && Expr.beqList es es'
  | _, _ => false

def Binding.beq : Binding → Binding → Bool
  | .assign m value, .assign m' value' => m = m' && value.beq value'
  | .nested m bindings, .nested m' bindings' => m = m' && Binding.beqList bindings bindings'
  | .collect m items, .collect m' items' => m = m' && Expr.beqList items items'
  | _, _ => false

def Binding.beqList : List Binding → List Binding → Bool
  | [], [] => true
  | b :: bs, b' :: bs' => b.beq b' && Binding.beqList bs bs'
  | _, _ => false

end

instance : BEq Expr := ⟨Expr.beq⟩

instance : BEq Binding := ⟨Binding.beq⟩

end LambdaQuery
