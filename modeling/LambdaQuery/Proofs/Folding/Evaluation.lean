import LambdaQuery.Host.Interpreter
import LambdaQuery.Proofs.Folding.Foldable
import Mathlib

/-!
# Folding and evaluation

Folding by an interpreter keeps what the interpreter makes of an expression, be it a value or an
error, and the type of the expression (`Interpreter.evaluate_fold`). The step is
`Interpreter.evaluate_rebuild`: a node whose parts are exchanged for parts of the same meaning and
type has the meaning that it had, also where an operator does not look at all of its parts.
-/

set_option autoImplicit false

namespace LambdaQuery.Interpreter

/-- `e'` has the type of `e`, and the value or error that `e` has. -/
def Agrees (i : Interpreter) (e e' : Expr) : Prop :=
  i.evaluate e' = i.evaluate e ∧ e'.ty = e.ty

variable {i : Interpreter}

theorem evaluateList_congr {es es' : List Expr} (h : List.Forall₂ i.Agrees es es') :
    i.evaluateList es' = i.evaluateList es := by
  induction h with
  | nil => rfl
  | cons h _ ih => simp only [evaluateList, h.1, ih]

/-- Only the bindings of members are evaluated; at the first nested one evaluation ends. -/
theorem initialized_rebuildAll {bs : List Binding} {ds : List Expr}
    (h : List.Forall₂ i.Agrees (Binding.childrenOfAll bs) ds) (fields : List (String × Value)) :
    i.initialized fields (Binding.rebuildAll bs ds) = i.initialized fields bs := by
  induction bs generalizing ds fields with
  | nil => rfl
  | cons b bs ih =>
    cases b with
    | assign member value =>
      obtain ⟨d, ds, hd, hds, rfl⟩ := List.forall₂_cons_left_iff.mp h
      simp only [Binding.rebuildAll, Binding.rebuild, Binding.children, initialized]
      simp only [List.length_singleton, List.take_succ_cons, List.headD_cons, List.drop_succ_cons,
        List.drop_zero, hd.1, ih hds]
    | nested => rfl
    | collect => rfl

theorem evaluate_rebuild {e : Expr} {ds : List Expr} (hds : List.Forall₂ i.Agrees e.children ds) :
    i.evaluate (e.rebuild ds) = i.evaluate e := by
  cases e with
  | constant => rfl
  | parameter => rfl
  | member object accessed ty =>
    cases object with
    | none => rfl
    | some object =>
      obtain ⟨d, ds, hd, -, rfl⟩ := List.forall₂_cons_left_iff.mp hds
      simp only [Expr.rebuild, evaluate, hd.1, hd.2]
  | binary op left right ty =>
    obtain ⟨l, ds, hl, h, rfl⟩ := List.forall₂_cons_left_iff.mp hds
    obtain ⟨r, ds, hr, -, rfl⟩ := List.forall₂_cons_left_iff.mp h
    cases op <;> simp only [Expr.rebuild, evaluate, hl.1, hr.1]
  | unary op operand ty =>
    obtain ⟨d, ds, hd, -, rfl⟩ := List.forall₂_cons_left_iff.mp hds
    simp only [Expr.rebuild, evaluate, hd.1]
  | conditional test ifTrue ifFalse ty =>
    obtain ⟨t, ds, ht, h, rfl⟩ := List.forall₂_cons_left_iff.mp hds
    obtain ⟨a, ds, ha, h', rfl⟩ := List.forall₂_cons_left_iff.mp h
    obtain ⟨b, ds, hb, -, rfl⟩ := List.forall₂_cons_left_iff.mp h'
    simp only [Expr.rebuild, evaluate, ht.1, ha.1, hb.1]
  | call target method args ty =>
    cases target with
    | none =>
      have hargs : List.Forall₂ i.Agrees args ds := hds
      simp only [Expr.rebuild, evaluate, evaluateOption, evaluateList_congr hargs]
    | some target =>
      obtain ⟨t, ds, ht, hargs, rfl⟩ := List.forall₂_cons_left_iff.mp hds
      have hargs : List.Forall₂ i.Agrees args ds := hargs
      simp only [Expr.rebuild, evaluate, evaluateOption, ht.1, evaluateList_congr hargs]
  | construct args members ty =>
    have hargs : List.Forall₂ i.Agrees args ds := hds
    simp only [Expr.rebuild, evaluate, evaluateList_congr hargs]
  | memberInit base bindings ty =>
    obtain ⟨b, ds, hb, hbindings, rfl⟩ := List.forall₂_cons_left_iff.mp hds
    simp only [Expr.rebuild, evaluate, hb.1, initialized_rebuildAll hbindings]
  | listInit base items ty =>
    obtain ⟨b, ds, -, hitems, rfl⟩ := List.forall₂_cons_left_iff.mp hds
    simp only [Expr.rebuild, evaluate, evaluateList_congr hitems]
  | newArray items ty =>
    have hitems : List.Forall₂ i.Agrees items ds := hds
    simp only [Expr.rebuild, evaluate, evaluateList_congr hitems]
  | lambda params body =>
    obtain ⟨d, ds, -, -, rfl⟩ := List.forall₂_cons_left_iff.mp hds
    rfl
  | invoke target args ty =>
    obtain ⟨t, ds, -, -, rfl⟩ := List.forall₂_cons_left_iff.mp hds
    rfl

/-- Folding keeps the value of an expression, or its error, and its type. -/
theorem evaluate_fold (i : Interpreter) (e e' : Expr) (h : e.fold i.evaluate = .ok e') :
    i.evaluate e' = i.evaluate e ∧ e'.ty = e.ty := by
  by_cases hc : e.kind = .constant
  · rw [Expr.fold_constant _ hc] at h
    cases h
    exact ⟨rfl, rfl⟩
  cases hf : e.isFoldable with
  | true =>
    rw [Expr.fold_foldable _ hc hf] at h
    cases hv : i.evaluate e with
    | error => simp [hv] at h
    | ok v =>
      obtain rfl : Expr.constant v e.ty = e' := by simpa [hv] using h
      exact ⟨rfl, rfl⟩
  | false =>
    rw [Expr.fold_parts _ hf] at h
    cases hds : e.children.mapM (·.fold i.evaluate) with
    | error => simp [hds] at h
    | ok ds =>
      obtain rfl : e.rebuild ds = e' := by simpa [hds] using h
      have hparts := (List.forall₂_and_left _ _).mpr ⟨fun d hd => hd, mapM_eq_ok.mp hds⟩
      exact ⟨evaluate_rebuild (hparts.imp fun d d' ⟨hd, hd'⟩ => evaluate_fold i d d' hd'),
        Expr.ty_rebuild e ds⟩
termination_by sizeOf e
decreasing_by exact Expr.sizeOf_child hd

/-- The limit of prices is folded beside a parameter that evaluation does not come to. -/
theorem evaluate_fold_orElse :
    let i := empty.withStatic "Prices.Limit" (.integer 5)
    let limit := Expr.member none ⟨.model "Prices", "Limit"⟩ .int32
    let small := Expr.binary .lessThan limit (.constant (.integer 9) .int32) .boolean
    let param := Expr.parameter "p" .boolean
    let e := Expr.binary .orElse small param .boolean
    let e' := Expr.binary .orElse (.constant (.boolean true) .boolean) param .boolean
    e.fold i.evaluate = .ok e' ∧ i.evaluate e' = i.evaluate e ∧ e'.ty = e.ty := by
  intro i limit small param e e'
  have h : e.fold i.evaluate = .ok e' := by cbv
  exact ⟨h, evaluate_fold i e e' h⟩

end LambdaQuery.Interpreter
