import LambdaQuery.Proofs.Folding.Induction

/-!
# Closed expressions

A closed value expression uses no parameter that is free in it and mentions no query over documents
(`Expr.IsClosedValue`). What can be folded uses no parameters at all (`Expr.not_free_of_foldable`),
and folding makes neither parameters nor queries (`Expr.IsClosedValue.folded`).
-/

set_option autoImplicit false

namespace LambdaQuery.Expr

/-- The names of the parameters that a node binds in its parts. -/
def binders : Expr → List String
  | .lambda params _ => params.map (·.name)
  | _ => []

/-- A parameter is used where no lambda of the expression binds it. -/
inductive Free (x : String) : Expr → Prop where
  | parameter (ty : HostType) : Free x (.parameter x ty)
  | child {e d : Expr} (hd : d ∈ e.children) (hx : x ∉ e.binders) (h : Free x d) : Free x e

/-- No parameter is free in the expression, and no part of it is the query over all documents. -/
structure IsClosedValue (e : Expr) : Prop where
  closed : ∀ x, ¬e.Free x
  rootless : ∀ d : Expr, d.IsPart e → d.isRoot = false

/-- The construction of a spatial value, of which the evaluator is asked for the value. -/
def IsShape (e : Expr) : Prop := e.kind = .construct ∧ e.ty.underlying = .geometry

variable {ask : Evaluator} {e e' : Expr}

/-! ## Foldable expressions -/

theorem isFoldable_child {d : Expr} (h : e.isFoldable) (hd : d ∈ e.children) : d.isFoldable := by
  rw [isFoldable_eq, Bool.and_eq_true, List.all_eq_true] at h
  exact h.1 d hd

theorem not_free_of_foldable {x : String} (hf : e.isFoldable) : ¬e.Free x := fun h => by
  induction h with
  | parameter ty => simp [isFoldable_parameter] at hf
  | child hd _ _ ih => exact ih (isFoldable_child hf hd)

/-- A query over documents is folded only if it is a constant. -/
theorem ty_of_foldable (hf : e.isFoldable) (hc : e.kind ≠ .constant) :
    e.ty.isDocumentQuery = false := by
  rw [isFoldable_eq, Bool.and_eq_true] at hf
  have hlocal := hf.2
  cases e with
  | constant => exact absurd rfl hc
  | unary op operand ty => cases op <;> simp_all [isLocal, Expr.ty]
  | _ => simp_all [isLocal, Expr.ty]

/-! ## Folded expressions -/

theorem binders_rebuild (e : Expr) (ds : List Expr) : (e.rebuild ds).binders = e.binders := by
  unfold rebuild
  split <;> rfl

theorem free_iff {x : String} :
    e.Free x ↔ (∃ ty, e = .parameter x ty) ∨ x ∉ e.binders ∧ ∃ d ∈ e.children, d.Free x := by
  constructor
  · rintro (⟨ty⟩ | ⟨hd, hx, h⟩)
    · exact .inl ⟨ty, rfl⟩
    · exact .inr ⟨hx, _, hd, h⟩
  · rintro (⟨ty, rfl⟩ | ⟨hx, d, hd, h⟩)
    · exact .parameter ty
    · exact .child hd hx h

theorem free_of_folded {x : String} (h : e.fold ask = .ok e') : e'.Free x → e.Free x :=
  fold_induct (R := fun e e' => e'.Free x → e.Free x) (fun _ => id)
    (fun _ _ _ hfree => absurd hfree (not_free_of_foldable (isFoldable_of_constant rfl)))
    (fun {e ds} hf hds hfree => by
      rw [free_iff, binders_rebuild, children_rebuild hds.length_eq.symm] at hfree
      rcases hfree with ⟨ty, hp⟩ | ⟨hx, d', hd', hfree⟩
      · have hk : e.kind = .parameter := by rw [← kind_rebuild e ds, hp]; rfl
        obtain ⟨y, ty', rfl⟩ : ∃ y ty, e = .parameter y ty := by
          cases e <;> cases hk
          exact ⟨_, _, rfl⟩
        cases hp
        exact .parameter ty
      · obtain ⟨d, hd, -, hback⟩ := exists_of_forall₂ hds.flip hd'
        exact .child hd hx (hback hfree)) h

theorem isRoot_of_folded (h : e.fold ask = .ok e') : e'.isRoot = e.isRoot := by
  by_cases hc : e.kind = .constant
  · rw [fold_constant _ hc] at h
    rw [← Except.ok.inj h]
  have hroot : ∀ {d : Expr}, d.kind ≠ .constant → d.isRoot = false := fun hd => by
    rename_i d
    cases d <;> first | rfl | exact absurd rfl hd
  cases hf : e.isFoldable with
  | true =>
    obtain ⟨v, -, rfl⟩ := value_of_folded h hc hf
    rw [hroot hc]
    exact ty_of_foldable hf hc
  | false => rw [hroot hc, hroot (by rwa [kind_of_folded h hf])]

theorem isShape_of_folded (h : e.fold ask = .ok e') (hs : e'.IsShape) : e.IsShape := by
  cases hf : e.isFoldable with
  | true => cases hs.1.symm.trans (constant_of_folded h hf)
  | false => exact ⟨(kind_of_folded h hf).symm.trans hs.1, ty_of_folded h ▸ hs.2⟩

/-- Folding keeps closed expressions closed. -/
theorem IsClosedValue.folded (hv : e.IsClosedValue) (h : e.fold ask = .ok e') :
    e'.IsClosedValue where
  closed x hx := hv.closed x (free_of_folded h hx)
  rootless d' hd' := by
    obtain ⟨d, hd, hfold⟩ := part_of_folded h hd'
    rw [isRoot_of_folded hfold]
    exact hv.rootless d hd

end LambdaQuery.Expr
