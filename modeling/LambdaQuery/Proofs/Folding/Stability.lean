import LambdaQuery.Proofs.Folding.Foldable
import Mathlib

/-!
# Folding again

A folded expression is its own fold, whoever answers then (`Expr.fold_of_folded`): folding puts
constants in the places of parts, and a node that was not foldable does not become so, because what
keeps it from being folded is the node itself or a part that is not folded either
(`Expr.isFoldable_of_folded`).
-/

set_option autoImplicit false

namespace LambdaQuery

universe u

theorem mapM_eq_pure {α : Type} {m : Type → Type u} [Monad m] [LawfulMonad m] {f : α → m α}
    {as : List α} (h : ∀ a ∈ as, f a = pure a) : as.mapM f = pure as := by
  induction as with
  | nil => rfl
  | cons a as ih =>
    rw [List.forall_mem_cons] at h
    simp [h.1, ih h.2]

theorem exists_of_forall₂ {α β : Type} {R : α → β → Prop} {as : List α} {bs : List β}
    (h : List.Forall₂ R as bs) {a : α} (ha : a ∈ as) : ∃ b ∈ bs, R a b := by
  induction h with
  | nil => cases ha
  | cons hr _ ih =>
    rcases List.mem_cons.mp ha with rfl | ha
    · exact ⟨_, List.mem_cons_self, hr⟩
    · obtain ⟨b, hb, hr⟩ := ih ha
      exact ⟨b, List.mem_cons_of_mem _ hb, hr⟩

namespace Expr

variable {ask : Evaluator}

/-- An expression that is not foldable is rebuilt from its folded parts. -/
theorem parts_of_folded {e e' : Expr} (h : e.fold ask = .ok e') (hf : e.isFoldable = false) :
    ∃ ds, e' = e.rebuild ds ∧ e'.children = ds ∧
      List.Forall₂ (fun d d' => d.fold ask = .ok d') e.children ds := by
  rw [fold_parts _ hf] at h
  cases hds : e.children.mapM (·.fold ask) with
  | error => simp [hds] at h
  | ok ds =>
    obtain rfl : e.rebuild ds = e' := by simpa [hds] using h
    have hparts := mapM_eq_ok.mp hds
    exact ⟨ds, rfl, children_rebuild hparts.length_eq.symm, hparts⟩

theorem isFoldable_of_folded {e e' : Expr} (h : e.fold ask = .ok e') (hf : e.isFoldable = false) :
    e'.isFoldable = false := by
  obtain ⟨ds, he', hds, hparts⟩ := parts_of_folded h hf
  rw [isFoldable_eq, Bool.and_eq_false_iff] at hf
  rw [isFoldable_eq, Bool.and_eq_false_iff, hds]
  rcases hf with hf | hlocal
  · left
    obtain ⟨d, hd, hdf⟩ := List.all_eq_false.mp hf
    obtain ⟨d', hd', hfold⟩ := exists_of_forall₂ hparts hd
    exact List.all_eq_false.mpr ⟨d', hd', by simp [isFoldable_of_folded hfold (by simpa using hdf)]⟩
  · right
    rw [he', isLocal_rebuild, hlocal]
termination_by sizeOf e
decreasing_by exact sizeOf_child hd

/-- What folding gives stays as it is when it is folded again, and nothing is asked then. -/
theorem fold_of_folded (ask : Evaluator) (e e' : Expr) (h : e.fold ask = .ok e')
    {m : Type → Type u} [Monad m] [LawfulMonad m] (ask' : Expr → m Value) :
    e'.fold ask' = pure e' := by
  cases hf : e.isFoldable with
  | true =>
    -- the fold is a constant, which no fold touches
    refine fold_constant _ ?_
    by_cases hc : e.kind = .constant
    · rw [fold_constant _ hc] at h
      cases h
      exact hc
    · rw [fold_foldable _ hc hf] at h
      cases hv : ask e with
      | error => simp [hv] at h
      | ok v =>
        obtain rfl : Expr.constant v e.ty = e' := by simpa [hv] using h
        rfl
  | false =>
    obtain ⟨ds, he', hds, hparts⟩ := parts_of_folded h hf
    have hsame : ∀ d' ∈ ds, d'.fold ask' = pure d' := fun d' hd' => by
      obtain ⟨d, hd, hfold⟩ := exists_of_forall₂ hparts.flip hd'
      exact fold_of_folded ask d d' hfold ask'
    rw [fold_parts _ (isFoldable_of_folded h hf), hds, mapM_eq_pure hsame, map_pure, ← hds,
      rebuild_children]
termination_by sizeOf e
decreasing_by exact sizeOf_child hd

/-- A text stands for the limit that a filter computes, and the folded filter asks for nothing. -/
theorem fold_of_folded_filter :
    let ask : Evaluator := fun _ => .ok (.string "limit")
    let limit := Expr.binary .add (.constant (.integer 40) .int32) (.constant (.integer 2) .int32)
      .int32
    let filter (bound : Expr) := Expr.call none ⟨.queryable, "Where"⟩
      [.constant .null (.documentQuery .object),
        .unary .quote (.lambda [⟨"r", .int32⟩]
          (.binary .lessThan (.parameter "r" .int32) bound .boolean)) .lambda]
      (.documentQuery .object)
    let folded := filter (.constant (.string "limit") .int32)
    (filter limit).fold ask = .ok folded ∧
      folded.fold (fun _ => .error .divisionByZero) = Except.ok (ε := HostError) folded := by
  intro ask limit filter folded
  have h : (filter limit).fold ask = .ok folded := by cbv
  exact ⟨h, fold_of_folded ask _ _ h _⟩

end Expr

end LambdaQuery
