import LambdaQuery.Host.Interpreter
import LambdaQuery.Proofs.Renaming.Basic

/-!
# Evaluation of renamed expressions

The interpreter knows no parameters, so that their names make no difference to its values
(`Interpreter.nameless`). They do to its errors, which name them.
-/

set_option autoImplicit false

namespace LambdaQuery

theorem toOption_bind {ε α β : Type} (x : Except ε α) (f : α → Except ε β) :
    (x >>= f).toOption = x.toOption.bind fun a => (f a).toOption := by
  cases x <;> rfl

namespace Interpreter

/-- `e'` has the type of `e`, and a value if `e` does, which then is that of `e`. -/
structure SameValue (i : Interpreter) (e e' : Expr) : Prop where
  value : (i.evaluate e).toOption = (i.evaluate e').toOption
  ty : e.ty = e'.ty

variable {i : Interpreter}

theorem evaluateList_toOption {es es' : List Expr} (h : List.Forall₂ i.SameValue es es') :
    (i.evaluateList es).toOption = (i.evaluateList es').toOption := by
  induction h with
  | nil => rfl
  | cons h _ ih => simp only [evaluateList, toOption_bind, h.value, ih]

theorem initialized_toOption {bs : List Binding} {ds : List Expr}
    (h : List.Forall₂ i.SameValue (Binding.childrenOfAll bs) ds) (fields : List (String × Value)) :
    (i.initialized fields bs).toOption =
      (i.initialized fields (Binding.rebuildAll bs ds)).toOption := by
  induction bs generalizing ds fields with
  | nil => rfl
  | cons b bs ih =>
    cases b with
    | assign member value =>
      obtain ⟨d, ds, hd, hds, rfl⟩ := List.forall₂_cons_left_iff.mp h
      show _ = (i.initialized fields (.assign member d :: Binding.rebuildAll bs ds)).toOption
      simp only [initialized, toOption_bind, hd.value, ih hds]
    | nested => rfl
    | collect => rfl

/-- A node whose parts are exchanged for parts of the same values has the value that it had. -/
theorem evaluate_toOption {e : Expr} {ds : List Expr}
    (hds : List.Forall₂ i.SameValue e.children ds) :
    (i.evaluate e).toOption = (i.evaluate (e.rebuild ds)).toOption := by
  cases e with
  | constant => rfl
  | parameter => rfl
  | member object accessed ty =>
    cases object with
    | none => rfl
    | some object =>
      obtain ⟨d, ds, hd, -, rfl⟩ := List.forall₂_cons_left_iff.mp hds
      simp only [Expr.rebuild, evaluate, toOption_bind, hd.value, hd.ty]
  | binary op left right ty =>
    obtain ⟨l, ds, hl, h, rfl⟩ := List.forall₂_cons_left_iff.mp hds
    obtain ⟨r, ds, hr, -, rfl⟩ := List.forall₂_cons_left_iff.mp h
    have hif : ∀ {c : Prop} [Decidable c] (x y : Except HostError Value),
        (if c then x else y).toOption = if c then x.toOption else y.toOption := by
      intro c _ x y
      split <;> rfl
    cases op <;> simp only [Expr.rebuild, evaluate, toOption_bind, hif, hl.value, hr.value]
  | unary op operand ty =>
    obtain ⟨d, ds, hd, -, rfl⟩ := List.forall₂_cons_left_iff.mp hds
    simp only [Expr.rebuild, evaluate, toOption_bind, hd.value]
  | conditional test ifTrue ifFalse ty =>
    obtain ⟨t, ds, ht, h, rfl⟩ := List.forall₂_cons_left_iff.mp hds
    obtain ⟨a, ds, ha, h', rfl⟩ := List.forall₂_cons_left_iff.mp h
    obtain ⟨b, ds, hb, -, rfl⟩ := List.forall₂_cons_left_iff.mp h'
    simp only [Expr.rebuild, evaluate, toOption_bind, ht.value]
    congr 1
    funext v
    congr 1
    funext c
    cases c
    · exact hb.value
    · exact ha.value
  | call target method args ty =>
    cases target with
    | none =>
      have hargs : List.Forall₂ i.SameValue args ds := hds
      simp only [Expr.rebuild, evaluate, evaluateOption, toOption_bind, evaluateList_toOption hargs]
    | some target =>
      obtain ⟨t, ds, ht, hargs, rfl⟩ := List.forall₂_cons_left_iff.mp hds
      have hargs : List.Forall₂ i.SameValue args ds := hargs
      simp only [Expr.rebuild, evaluate, evaluateOption, toOption_bind, ht.value,
        evaluateList_toOption hargs]
  | construct args members ty =>
    have hargs : List.Forall₂ i.SameValue args ds := hds
    simp only [Expr.rebuild, evaluate, toOption_bind, evaluateList_toOption hargs]
  | memberInit base bindings ty =>
    obtain ⟨b, ds, hb, hbindings, rfl⟩ := List.forall₂_cons_left_iff.mp hds
    have hbindings : List.Forall₂ i.SameValue (Binding.childrenOfAll bindings) ds := hbindings
    simp only [Expr.rebuild, evaluate, toOption_bind, hb.value]
    congr 1
    funext v
    cases v with
    | object fields => simp only [toOption_bind, initialized_toOption hbindings]
    | _ => rfl
  | listInit base items ty =>
    obtain ⟨b, ds, -, hitems, rfl⟩ := List.forall₂_cons_left_iff.mp hds
    simp only [Expr.rebuild, evaluate, toOption_bind, evaluateList_toOption hitems]
  | newArray items ty =>
    have hitems : List.Forall₂ i.SameValue items ds := hds
    simp only [Expr.rebuild, evaluate, toOption_bind, evaluateList_toOption hitems]
  | lambda params body =>
    obtain ⟨d, ds, -, -, rfl⟩ := List.forall₂_cons_left_iff.mp hds
    rfl
  | invoke target args ty =>
    obtain ⟨t, ds, -, -, rfl⟩ := List.forall₂_cons_left_iff.mp hds
    rfl

/-- **The values that the interpreter gives do not depend on the names of parameters.** -/
theorem nameless (i : Interpreter) : Evaluator.Nameless i.evaluate := by
  intro names e e' v h hv
  have hsame : (i.evaluate e).toOption = (i.evaluate e').toOption := by
    clear hv
    generalize Binders.lexical names = B at h
    induction h with
    | parameter => rfl
    | lambda => rfl
    | @node B e ds _ _ hlength hds ih =>
      exact evaluate_toOption (List.forall₂_iff_zip.mpr ⟨hlength, fun hp =>
        ⟨ih _ hp, (hds _ hp).ty⟩⟩)
  rw [hv] at hsame
  cases he : i.evaluate e with
  | error =>
    rw [he] at hsame
    cases hsame
  | ok w =>
    rw [he] at hsame
    exact congrArg _ (Option.some.inj hsame)

end Interpreter

end LambdaQuery
