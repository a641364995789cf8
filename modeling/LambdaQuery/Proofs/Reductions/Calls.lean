import LambdaQuery.Proofs.Operands

/-!
# Reductions and the parts that are read

A reduction makes one value of the rows of a query, so that no operator of a query can follow it
(`Expr.followsReduction`). A compilation does not read all parts of an expression:
`Expr.readParts` are the direct parts that it reads, and `Expr.ReducesLast` says that no operator
follows a reduction in what it comes to read through them.
-/

set_option autoImplicit false

namespace LambdaQuery

/-- The operators of queries. -/
def queryOperators : List String :=
  ["Where", "Select", "SelectMany", "OrderBy", "OrderByDescending", "ThenBy", "ThenByDescending",
    "Take", "Skip", "Distinct", "GroupBy"] ++ reductions

namespace Expr

/-- A call of an operator that makes one value of the rows of a query. -/
def isReduction : Expr → Bool
  | .call _ method _ _ => method.isOperator && reductions.contains method.name
  | _ => false

/-- A call of an operator of queries, the source of which is a reduction. -/
def followsReduction : Expr → Bool
  | .call _ method args _ =>
    method.isOperator && queryOperators.contains method.name && args.head?.any isReduction
  | _ => false

/-- The direct parts of a node that a compilation reads. A spatial value is left to the evaluator as
a whole. Nothing is said of the constructor call that the bindings of an object follow, which the
interpreter evaluates and a compilation passes over. -/
def readParts : Expr → List Expr
  | .call target method args _ => readOperands target method args
  | .construct args _ ty => if ty.underlying = .geometry then [] else args
  | .memberInit _ bindings _ => Binding.childrenOfAll bindings
  | e => e.children

/-- An expression that a compilation comes to from a larger one, through the parts that it reads. -/
inductive IsRead (d : Expr) : Expr → Prop where
  | self : IsRead d d
  | part {c e : Expr} (h : IsRead d c) (hc : c ∈ e.readParts) : IsRead d e

/-- In what is read of the expression, no operator follows a reduction. -/
def ReducesLast (e : Expr) : Prop := ∀ d : Expr, d.IsRead e → d.followsReduction = false

variable {e : Expr}

theorem IsRead.trans {d c : Expr} (h : d.IsRead c) (h' : c.IsRead e) : d.IsRead e := by
  induction h' with
  | self => exact h
  | part _ hc ih => exact .part ih hc

theorem reducesLast_iff :
    e.ReducesLast ↔ e.followsReduction = false ∧ ∀ d ∈ e.readParts, d.ReducesLast := by
  constructor
  · exact fun h => ⟨h e .self, fun d hd c hc => h c (hc.trans (.part .self hd))⟩
  · rintro ⟨he, hparts⟩ d hd
    cases hd with
    | self => exact he
    | part hd hc => exact hparts _ hc d hd

/-- What is read of a node that is no call is all that counts. -/
theorem reducesLast_of_parts (hk : e.kind ≠ .call) (h : ∀ d ∈ e.readParts, d.ReducesLast) :
    e.ReducesLast := by
  refine reducesLast_iff.mpr ⟨?_, h⟩
  cases e <;> first | rfl | exact absurd rfl hk

theorem reducesLast_constant (value : Value) (ty : HostType) : (constant value ty).ReducesLast :=
  reducesLast_of_parts (by rintro ⟨⟩) (List.forall_mem_nil _)

theorem reducesLast_parameter (name : String) (ty : HostType) : (parameter name ty).ReducesLast :=
  reducesLast_of_parts (by rintro ⟨⟩) (List.forall_mem_nil _)

/-- A constant, of whatever value. -/
theorem reducesLast_of_asConstant? {value : Value} (h : e.asConstant? = some value) :
    e.ReducesLast := by
  cases e with
  | constant value ty => exact reducesLast_constant value ty
  | _ => cases h

/-- The body of a lambda is what is read of it. -/
theorem reducesLast_of_asLambda? : ∀ {e : Expr} {l : { l : Lambda // sizeOf l.body < sizeOf e }},
    e.asLambda? = some l → l.1.body.ReducesLast → e.ReducesLast
  | .lambda params body, l, hl, hbody => by
    obtain rfl := Option.some.inj hl
    exact reducesLast_of_parts (by rintro ⟨⟩) (List.forall_mem_singleton.mpr hbody)
  | .unary op operand ty, l, hl, hbody => by
    cases op with
    | quote =>
      simp only [asLambda?, Option.map_eq_some_iff] at hl
      obtain ⟨l', hl', rfl⟩ := hl
      exact reducesLast_of_parts (by rintro ⟨⟩)
        (List.forall_mem_singleton.mpr (reducesLast_of_asLambda? hl' hbody))
    | _ => cases hl
  | .constant .., _, hl, _ | .parameter .., _, hl, _ | .member .., _, hl, _ | .binary .., _, hl, _
  | .conditional .., _, hl, _ | .call .., _, hl, _ | .construct .., _, hl, _
  | .memberInit .., _, hl, _ | .listInit .., _, hl, _ | .newArray .., _, hl, _
  | .invoke .., _, hl, _ => nomatch hl

/-- A call that is no operator follows nothing. -/
theorem reducesLast_call {target : Option Expr} {method : Method} {args : List Expr} {ty : HostType}
    (hm : method.isOperator = false) (h : ∀ d ∈ readOperands target method args, d.ReducesLast) :
    (call target method args ty).ReducesLast :=
  reducesLast_iff.mpr ⟨by rw [followsReduction, hm, Bool.false_and, Bool.false_and], h⟩

theorem isReduction_eq_false (h : Compilation.isOperatorCall e = false) :
    e.isReduction = false := by
  cases e with
  | call target method args ty =>
    have hm : method.isOperator = false := h
    rw [isReduction, hm, Bool.false_and]
  | _ => rfl

end Expr

theorem Method.isStatic_of_isOperator {method : Method} (h : method.isOperator = true) :
    method.declaring.isStatic = true := by
  unfold Method.isOperator at h
  split at h
  · rename_i hd
    rw [hd]
    rfl
  · rename_i hd
    rw [hd]
    rfl
  · cases h

namespace Expr

/-- A call of an operator on what is no reduction. -/
theorem reducesLast_operator {target : Option Expr} {method : Method} {args : List Expr}
    {ty : HostType} (hm : method.isOperator = true) (hsource : args.head?.any isReduction = false)
    (h : ∀ d ∈ args, d.ReducesLast) : (call target method args ty).ReducesLast :=
  reducesLast_iff.mpr ⟨by rw [followsReduction, hsource, Bool.and_false], fun d hd =>
    h d (mem_args_of_mem_readOperands (Method.isStatic_of_isOperator hm) hd)⟩

end Expr

end LambdaQuery
