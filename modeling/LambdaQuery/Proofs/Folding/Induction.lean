import LambdaQuery.Proofs.Folding.Evaluation
import LambdaQuery.Proofs.Folding.Stability
import LambdaQuery.Proofs.Renaming.Basic
import LambdaQuery.Proofs.Subexpressions

/-!
# What folding makes of an expression

A fold that succeeds is a constant that stays, a value in the place of a foldable expression, or a
node over the folds of its parts: `Expr.fold_induct` is induction on which of these it is. From it
follow that an evaluator gives of a folded expression what it gives of the expression
(`Interpreter.agrees_of_folded`), that lambdas stay lambdas with folded bodies
(`Expr.asLambda?_of_folded`), and that every part of a folded expression is the fold of a part
(`Expr.part_of_folded`).
-/

set_option autoImplicit false

namespace LambdaQuery

namespace Expr

variable {ask : Evaluator} {e e' : Expr}

/-- A foldable expression that is no constant becomes its value. -/
theorem value_of_folded (h : e.fold ask = .ok e') (hc : e.kind ≠ .constant) (hf : e.isFoldable) :
    ∃ v, ask e = .ok v ∧ e' = .constant v e.ty := by
  rw [fold_foldable _ hc hf] at h
  cases hv : ask e with
  | error => simp [hv] at h
  | ok v =>
    have he' : Expr.constant v e.ty = e' := by simpa [hv] using h
    exact ⟨v, rfl, he'.symm⟩

theorem constant_of_folded (h : e.fold ask = .ok e') (hf : e.isFoldable) : e'.kind = .constant := by
  by_cases hc : e.kind = .constant
  · rw [fold_constant _ hc] at h
    rwa [← Except.ok.inj h]
  · obtain ⟨v, -, rfl⟩ := value_of_folded h hc hf
    rfl

/-- Induction on what folding makes of an expression. -/
theorem fold_induct {R : Expr → Expr → Prop} {e e' : Expr}
    (constant : ∀ {e : Expr}, e.kind = .constant → R e e)
    (value : ∀ {e : Expr} {v : Value}, e.kind ≠ .constant → e.isFoldable → ask e = .ok v →
      R e (.constant v e.ty))
    (parts : ∀ {e : Expr} {ds : List Expr}, e.isFoldable = false →
      List.Forall₂ (fun d d' => d.fold ask = .ok d' ∧ R d d') e.children ds → R e (e.rebuild ds))
    (h : e.fold ask = .ok e') : R e e' := by
  by_cases hc : e.kind = .constant
  · rw [fold_constant _ hc] at h
    cases h
    exact constant hc
  cases hf : e.isFoldable with
  | true =>
    obtain ⟨v, hv, rfl⟩ := value_of_folded h hc hf
    exact value hc hf hv
  | false =>
    obtain ⟨ds, rfl, -, hds⟩ := parts_of_folded h hf
    have hmem := (List.forall₂_and_left _ _).mpr ⟨fun d hd => hd, hds⟩
    exact parts hf (hmem.imp fun d d' ⟨hd, hd'⟩ => ⟨hd', fold_induct constant value parts hd'⟩)
termination_by sizeOf e
decreasing_by exact sizeOf_child hd

theorem ty_of_folded (h : e.fold ask = .ok e') : e'.ty = e.ty :=
  fold_induct (R := fun e e' => e'.ty = e.ty) (fun _ => rfl) (fun _ _ _ => rfl)
    (fun _ _ => ty_rebuild _ _) h

theorem kind_of_folded (h : e.fold ask = .ok e') (hf : e.isFoldable = false) :
    e'.kind = e.kind := by
  obtain ⟨ds, rfl, -⟩ := parts_of_folded h hf
  exact kind_rebuild e ds

/-- A folded expression is folded. -/
theorem refold_of_folded (h : e.fold ask = .ok e') : e'.fold ask = .ok e' :=
  fold_induct (R := fun _ e' => e'.fold ask = .ok e') (fun hc => fold_constant _ hc)
    (fun _ _ _ => fold_constant _ rfl) (fun {e ds} hf hds => by
      have hlength := hds.length_eq.symm
      have hfold : e.fold ask = .ok (e.rebuild ds) := by
        rw [fold_parts _ hf, mapM_eq_ok.mpr (hds.imp fun _ _ hd => hd.1)]
        rfl
      have hsame : ∀ d' ∈ ds, d'.fold ask = .ok d' := fun d' hd' => by
        obtain ⟨d, -, hd⟩ := exists_of_forall₂ hds.flip hd'
        exact hd.2
      have hrebuild := rebuild_children (e.rebuild ds)
      rw [children_rebuild hlength] at hrebuild
      rw [fold_parts _ (isFoldable_of_folded hfold hf), children_rebuild hlength,
        mapM_eq_pure hsame, map_pure, hrebuild]
      rfl) h

/-- Every part of a folded expression is the fold of a part. -/
theorem part_of_folded {d' : Expr} (h : e.fold ask = .ok e') (hd : d'.IsPart e') :
    ∃ d : Expr, d.IsPart e ∧ d.fold ask = .ok d' := by
  induction hd generalizing e with
  | self => exact ⟨e, .self, h⟩
  | @child c e' hd hc ih =>
    cases hf : e.isFoldable with
    | true =>
      -- a value has no parts
      have hk := constant_of_folded h hf
      cases e' <;> cases hk
      cases hc
    | false =>
      obtain ⟨ds, -, rfl, hds⟩ := parts_of_folded h hf
      obtain ⟨d, hd, hfold⟩ := exists_of_forall₂ hds.flip hc
      obtain ⟨b, hb, hbd⟩ := ih hfold
      exact ⟨b, hb.trans (.of_child hd), hbd⟩

/-! ## Forms -/

/-- Lambdas keep their parameters, and their bodies are folded. -/
theorem asLambda?_of_folded (h : e.fold ask = .ok e') :
    Option.Rel (fun l l' => l'.1.params = l.1.params ∧ l.1.body.fold ask = .ok l'.1.body)
      e.asLambda? e'.asLambda? := by
  induction e using Expr.asLambda?.induct generalizing e' with
  | case1 params body =>
    obtain ⟨ds, rfl, -, hds⟩ := parts_of_folded h (isFoldable_lambda params body)
    obtain ⟨d, _, hd, hnil, rfl⟩ := List.forall₂_cons_left_iff.mp hds
    exact .some ⟨rfl, hd⟩
  | case2 operand ty ih =>
    obtain ⟨ds, rfl, -, hds⟩ := parts_of_folded h (isFoldable_quote operand ty)
    obtain ⟨d, _, hd, hnil, rfl⟩ := List.forall₂_cons_left_iff.mp hds
    rw [asLambda?, rebuild, asLambda?]
    rcases optionRel_cases (ih hd) with ⟨h₁, h₂⟩ | ⟨l, l', h₁, h₂, hl⟩ <;> rw [h₁, h₂]
    · exact .none
    · exact .some hl
  | case3 e hl hq =>
    have hnone : e'.asLambda? = none := by
      cases hf : e.isFoldable with
      | true =>
        have hk := constant_of_folded h hf
        cases e' <;> first | rfl | cases hk
      | false =>
        have hk := kind_of_folded h hf
        refine asLambda?.eq_3 _ ?_ ?_
        · rintro params body rfl
          cases e <;> first | exact hl _ _ rfl | cases hk
        · rintro operand ty rfl
          cases e <;> cases hk
          exact hq _ _ rfl
    rw [asLambda?.eq_3 _ hl hq, hnone]
    exact .none

/-- A call that is not folded stays a call, of folded operands. -/
theorem call_of_folded {target : Option Expr} {method : Method} {args : List Expr} {ty : HostType}
    (h : (Expr.call target method args ty).fold ask = .ok e')
    (hf : (Expr.call target method args ty).isFoldable = false) :
    ∃ target' args', e' = .call target' method args' ty ∧
      List.Forall₂ (fun d d' => d.fold ask = .ok d') args args' := by
  obtain ⟨ds, rfl, -, hds⟩ := parts_of_folded h hf
  cases target with
  | none => exact ⟨none, ds, rfl, hds⟩
  | some target =>
    obtain ⟨d, args', -, hargs, rfl⟩ := List.forall₂_cons_left_iff.mp hds
    exact ⟨some d, args', rfl, hargs⟩

end Expr

/-- A folded expression has the type of the expression, and its value or error. -/
theorem Interpreter.agrees_of_folded {i : Interpreter} {e e' : Expr}
    (h : e.fold i.evaluate = .ok e') : i.Agrees e e' :=
  Expr.fold_induct (R := i.Agrees) (fun _ => ⟨rfl, rfl⟩) (fun _ _ hv => ⟨hv.symm, rfl⟩)
    (fun _ hds => ⟨evaluate_rebuild (hds.imp fun _ _ hd => hd.2), Expr.ty_rebuild _ _⟩) h

end LambdaQuery
