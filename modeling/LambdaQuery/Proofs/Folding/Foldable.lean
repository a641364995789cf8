import LambdaQuery.Host.Folding
import LambdaQuery.Proofs.Folding.Rebuild

/-!
# One step of folding

The marks of an expression lie in step with its parts: the mark of a place is the mark of the part
in this place (`Expr.getElem?_nominate`), and the second pass visits the parts in the same order
(`Expr.run'_mapChildren`), so that each part is visited with its own marks and none is left without
(`Expr.evaluateAt_nominate`). Folding is therefore one recursion (`Expr.fold_eq`). What it does with
a node, told by its parts: a constant stays (`Expr.fold_constant`), any other foldable node becomes
its value (`Expr.fold_foldable`), and a node that is not foldable is rebuilt from its folded parts
(`Expr.fold_parts`).
-/

set_option autoImplicit false

namespace LambdaQuery

universe u

namespace Expr

/-! ## Marks -/

theorem nominate_eq (e : Expr) :
    e.nominate = ⟨e.children.all (·.isFoldable) && e.isLocal, e.children.map nominate⟩ := by
  rw [nominate, List.attach_map_val (f := nominate), List.all_map]
  rfl

/-- An expression is foldable if its parts are and its outermost node is local. -/
theorem isFoldable_eq (e : Expr) :
    e.isFoldable = (e.children.all (·.isFoldable) && e.isLocal) := by
  rw [isFoldable, nominate_eq]

theorem isFoldable_of_constant {e : Expr} (h : e.kind = .constant) : e.isFoldable := by
  cases e <;> cases h
  rw [isFoldable_eq]
  rfl

theorem isFoldable_parameter (x : String) (ty : HostType) :
    (parameter x ty).isFoldable = false := by
  rw [isFoldable_eq, isLocal, Bool.and_false]

theorem isFoldable_lambda (params : List Param) (body : Expr) :
    (lambda params body).isFoldable = false := by
  rw [isFoldable_eq, isLocal, Bool.and_false]

theorem isFoldable_quote (operand : Expr) (ty : HostType) :
    (unary .quote operand ty).isFoldable = false := by
  rw [isFoldable_eq, isLocal, Bool.and_false]

/-- The mark of a place is the mark of the part in this place. -/
theorem getElem?_nominate (e : Expr) (i : Nat) :
    e.nominate.children[i]? = e.children[i]?.map nominate := by
  rw [nominate_eq, List.getElem?_map]

/-- Whether a node is local does not depend on its parts. -/
@[simp] theorem isLocal_rebuild (e : Expr) (ds : List Expr) :
    (e.rebuild ds).isLocal = e.isLocal := by
  unfold rebuild
  split
  case h_3 op _ _ _ _ => cases op <;> rfl
  all_goals rfl

/-! ## Visits -/

section

variable {m : Type → Type u} [Monad m] [LawfulMonad m]

theorem run_visit (f : Nat → Expr → m Expr) (d : Expr) (i : Nat) :
    (visit f d).run i = (·, i + 1) <$> f i d := by
  have hnext : (getModify (· + 1) : StateT Nat m Nat).run i = pure (i, i + 1) := rfl
  simp [visit, hnext]

theorem mapM_visit {f : Nat → Expr → m Expr} {g : Expr → m Expr} (i : Nat) (ds : List Expr)
    (h : ∀ j d, ds[j]? = some d → f (i + j) d = g d) :
    (ds.mapM (visit f)).run i = (·, i + ds.length) <$> ds.mapM g := by
  induction ds generalizing i with
  | nil => simp
  | cons d ds ih =>
    have hd : f i d = g d := h 0 d rfl
    have hds := ih (i + 1) fun j c hc => by
      rw [Nat.add_assoc, Nat.add_comm 1]
      exact h (j + 1) c hc
    simp [run_visit, hd, hds, Nat.add_assoc, Nat.add_comm 1]

/-- The parts of a node are visited in the order of `Expr.children`. -/
theorem run'_mapChildren {e : Expr} {f : Nat → Expr → m Expr} {g : Expr → m Expr}
    (h : ∀ i d, e.children[i]? = some d → f i d = g d) :
    (e.mapChildren (visit f)).run' 0 = e.mapChildren g := by
  rw [mapChildren_eq, mapChildren_eq, StateT.run'_eq, StateT.run_map,
    mapM_visit 0 e.children (g := g) (by simpa using h)]
  simp

end

/-! ## The step -/

section

variable {m : Type → Type u} [Monad m] (ask : Expr → m Value)

/-- A part that has marks is folded by its own. -/
theorem evaluateAt_nominate {ds : List Expr} {i : Nat} {d : Expr} (h : ds[i]? = some d) :
    Nomination.evaluateAt ask (ds.map nominate) i d = d.fold ask := by
  induction ds generalizing i with
  | nil => cases h
  | cons c ds ih =>
    cases i with
    | zero =>
      obtain rfl : c = d := by simpa using h
      rw [List.map_cons, Nomination.evaluateAt, fold]
    | succ i =>
      rw [List.map_cons, Nomination.evaluateAt]
      exact ih (by simpa using h)

theorem fold_constant {e : Expr} (h : e.kind = .constant) : e.fold ask = pure e := by
  cases e <;> cases h
  rw [fold, nominate_eq, Nomination.evaluate]

variable [LawfulMonad m]

/-- Each part of a node is visited with its own marks. -/
theorem fold_visited (e : Expr) :
    (e.mapChildren (visit (Nomination.evaluateAt ask e.nominate.children))).run' 0 =
      e.mapChildren (·.fold ask) := by
  rw [nominate_eq]
  exact run'_mapChildren fun i d hd => evaluateAt_nominate ask hd

theorem fold_eq {e : Expr} (h : e.kind ≠ .constant) :
    e.fold ask = if e.isFoldable then (fun v => .constant v e.ty) <$> ask e
      else e.mapChildren (·.fold ask) := by
  rw [← fold_visited, fold, isFoldable, map_eq_pure_bind]
  cases e.nominate
  rw [Nomination.evaluate]
  rintro value ty rfl
  exact h rfl

theorem fold_foldable {e : Expr} (h : e.kind ≠ .constant) (hf : e.isFoldable) :
    e.fold ask = (fun v => .constant v e.ty) <$> ask e := by
  rw [fold_eq ask h, if_pos hf]

theorem fold_parts {e : Expr} (h : e.isFoldable = false) :
    e.fold ask = e.rebuild <$> e.children.mapM (·.fold ask) := by
  have hc : e.kind ≠ .constant := fun hc => by simp [isFoldable_of_constant hc] at h
  rw [fold_eq ask hc, h, if_neg Bool.false_ne_true, mapChildren_eq]

theorem fold_parameter (x : String) (ty : HostType) :
    (parameter x ty).fold ask = pure (.parameter x ty) := by
  simp [fold_parts ask (isFoldable_parameter x ty), children, rebuild]

end

end Expr

end LambdaQuery
