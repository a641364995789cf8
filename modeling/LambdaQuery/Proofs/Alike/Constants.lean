import LambdaQuery.Proofs.Alike.Builtins
import LambdaQuery.Proofs.Alike.Data

/-!
# Two runs of the compilation of constants

`Compilation.bindConstant` takes a parameter into use or changes nothing. Where both sides have the
same options, constants come out related by every congruence of the parameters of the query with
themselves (`Setting.Same`).
-/

set_option autoImplicit false

namespace LambdaQuery

theorem Scope.keeps_useParameter (s : Scope) {p : QueryParameter}
    (hp : isParameterName p.name = true) : s.Keeps (s.useParameter p) := by
  refine ⟨s.grows_useParameter hp, ?_, ?_⟩
  · unfold Scope.useParameter
    split <;> exact id
  · unfold Scope.useParameter
    split <;> exact List.Subset.refl _

theorem Scope.names_useParameter (s : Scope) (p : QueryParameter) :
    (s.useParameter p).names = s.names := by
  unfold Scope.useParameter
  split <;> rfl

theorem Scope.forall_useParameter (s : Scope) {p : QueryParameter} {r : QueryParameter → Prop}
    (hp : r p) (h : ∀ q ∈ s.parameters, r q) : ∀ q ∈ (s.useParameter p).parameters, r q := by
  unfold Scope.useParameter
  split
  · exact h
  · exact List.forall_mem_append.mpr ⟨h, List.forall_mem_singleton.mpr hp⟩

namespace Setting

variable (κ : Setting) (Q : Scope → Scope → Scalar → Scalar → Prop)

/-- Both sides have the same options, and their parameters stand for themselves. -/
structure Same : Prop where
  options : κ.left.options = κ.right.options
  parameter : κ.right.options.parameters = [] ∨
    ∀ t t' name, Q t t' (.parameter name) (.parameter name)
  reports : ∀ p, κ.reports p

variable {κ Q} {s s' : Scope}

theorem step_useParameter (s s' : Scope) {p : QueryParameter}
    (hn : isParameterName p.name = true) (hp : κ.reports p) :
    κ.Step s s' (s.useParameter p) (s'.useParameter p) where
  left := s.keeps_useParameter hn
  right := s'.grows_useParameter hn
  named _ h := by rw [s.names_useParameter, s'.names_useParameter, h]
  reported := s'.forall_useParameter hp

/-- A constant that is bound to no parameter. -/
theorem Congruence.inlined (hQ : κ.Congruence Q) (naming : Naming) (ty : HostType) (v : Value) :
    κ.Runs s s' (Compilation.inlined naming ty v) (Compilation.inlined naming ty v) Q := by
  have hvalue : ∀ {t t' : Scope} (v : Value),
      κ.Runs t t' (ofExcept v.toScalar) (ofExcept v.toScalar) Q := fun v =>
    (Runs.same v.toScalar).imp fun _ _ _ _ _ ⟨hab, ha⟩ => hab ▸ hQ.data (Value.toScalar_data ha)
  unfold Compilation.inlined
  split
  · refine .bind (.same _) fun t t' j j' _ hj => ?_
    obtain ⟨rfl, -⟩ := hj
    exact (Runs.same j.toScalar).imp fun _ _ _ _ _ ⟨hab, ha⟩ =>
      hab ▸ hQ.data (Json.toScalar_data ha)
  · exact .throw _ _
  · exact hvalue v

namespace Same

variable (h : κ.Same Q)

include h

theorem bindConstant (v : Value) :
    κ.Runs s s' (Compilation.bindConstant κ.left.options v)
      (Compilation.bindConstant κ.right.options v) fun _ _ x y =>
        x = y ∧ ∀ name, y = some name → ∀ t t', Q t t' (.parameter name) (.parameter name) := by
  intro y u' hy
  rw [h.options, Compilation.bindConstant_eq] at *
  cases hf : κ.right.options.parameters.find? (·.value == v) with
  | none =>
    rw [hf] at hy
    cases hy
    exact .inl ⟨none, s, rfl, .refl κ s s', rfl, fun _ hn => nomatch hn⟩
  | some bound =>
    rw [hf] at hy
    dsimp only at hy ⊢
    by_cases hn : isParameterName bound.queryName = true
    · rw [if_pos hn] at hy ⊢
      cases hy
      refine .inl ⟨_, _, rfl, step_useParameter s s' hn (h.reports _), rfl, fun name _ => ?_⟩
      rcases h.parameter with hnone | hleaf
      · rw [hnone] at hf
        cases hf
      · exact fun t t' => hleaf t t' name
    · rw [if_neg hn] at hy
      cases hy

theorem counts (hcount : ∀ qs n, κ.count qs n n) (method : String) (arg : Expr) :
    κ.Runs s s' (Compilation.count κ.left.options method arg)
      (Compilation.count κ.right.options method arg)
      fun _ t' n m => κ.count t'.parameters n m := by
  unfold Compilation.count
  cases (Compilation.stripConversions arg).asConstant? with
  | none => exact .throw _ _
  | some v =>
    refine .bind (h.bindConstant v) fun t t' x y _ hxy => ?_
    obtain ⟨rfl, -⟩ := hxy
    cases x with
    | some name => exact .pure (hcount _ _)
    | none =>
      dsimp only
      split
      · split
        · exact .pure (hcount _ _)
        · exact .throw _ _
      · exact .throw _ _

/-- The array of constants that come out related, if it is not bound. -/
theorem array {ty : HostType} {items : List Value}
    (hitems : ∀ {t t'},
      κ.Runs t t' (Compilation.constants κ.left.options (ty.element?.getD .object) items)
        (Compilation.constants κ.right.options (ty.element?.getD .object) items)
          fun t t' => List.Forall₂ (Q t t')) :
    κ.Runs s s' (Compilation.constant κ.left.options ty (.array items))
      (Compilation.constant κ.right.options ty (.array items)) (κ.Listed Q) := by
  rw [Compilation.constant, Compilation.constant]
  by_cases hq : ty.isDocumentQuery = true
  · rw [if_pos hq, if_pos hq]
    exact Runs.throw _ _
  rw [if_neg hq, if_neg hq]
  refine .bind (h.bindConstant _) fun t t' x y _ hxy => ?_
  obtain ⟨rfl, hleaf⟩ := hxy
  cases x with
  | some name =>
    exact .pure (.inr ⟨hleaf name rfl t t', nofun, nofun⟩)
  | none =>
    refine .bind hitems fun u u' as bs _ has => ?_
    exact .pure (.inl ⟨as, bs, rfl, rfl, has⟩)

variable (hQ : κ.Congruence Q)

include hQ

/-- A constant that is no array. -/
theorem plain {ty : HostType} {v : Value} (hv : ∀ items, v ≠ .array items) :
    κ.Runs s s' (Compilation.constant κ.left.options ty v)
      (Compilation.constant κ.right.options ty v) Q := by
  rw [Compilation.constant.eq_2 _ _ _ fun items he => hv items he,
    Compilation.constant.eq_2 _ _ _ fun items he => hv items he]
  by_cases hq : ty.isDocumentQuery = true
  · rw [if_pos hq, if_pos hq]
    exact Runs.throw _ _
  rw [if_neg hq, if_neg hq]
  refine .bind (h.bindConstant _) fun t t' x y hst hxy => ?_
  obtain ⟨rfl, hleaf⟩ := hxy
  cases x with
  | some name => exact .pure (hleaf name rfl _ _)
  | none =>
    rw [h.options]
    exact hQ.inlined _ ty v

omit h hQ

mutual

theorem constant (h : κ.Same Q) (hQ : κ.Congruence Q) (ty : HostType) :
    ∀ (v : Value) {s s' : Scope}, κ.Runs s s' (Compilation.constant κ.left.options ty v)
      (Compilation.constant κ.right.options ty v) Q
  | .array items, _, _ =>
    (h.array (constants h hQ _ items)).imp fun _ _ _ _ _ hab => hab.related hQ
  | .null, _, _ | .boolean _, _, _ | .integer _, _, _ | .unsigned _, _, _ | .float _, _, _
  | .decimal _, _, _ | .char _, _, _ | .string _, _, _ | .guid _, _, _ | .geometry _, _, _
  | .object _, _, _ | .query _, _, _ => h.plain hQ fun _ he => nomatch he

theorem constants (h : κ.Same Q) (hQ : κ.Congruence Q) (ty : HostType) :
    ∀ (vs : List Value) {s s' : Scope}, κ.Runs s s' (Compilation.constants κ.left.options ty vs)
      (Compilation.constants κ.right.options ty vs) fun t t' => List.Forall₂ (Q t t')
  | [], s, s' => by
    rw [Compilation.constants, Compilation.constants]
    exact .pure .nil
  | v :: vs, s, s' => by
    rw [Compilation.constants, Compilation.constants]
    refine .bind (constant h hQ ty v) fun t t' a b _ hab => ?_
    refine .bind (constants h hQ ty vs) fun u u' as bs hsu has => ?_
    exact .pure (.cons (hQ.step hab hsu) has)

end

theorem listed (h : κ.Same Q) (hQ : κ.Congruence Q) (ty : HostType) (items : List Value) :
    κ.Runs s s' (Compilation.constant κ.left.options ty (.array items))
      (Compilation.constant κ.right.options ty (.array items)) (κ.Listed Q) :=
  h.array (constants h hQ _ items)

end Same

end Setting

end LambdaQuery
