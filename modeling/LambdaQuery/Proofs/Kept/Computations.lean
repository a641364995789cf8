import LambdaQuery.Proofs.Alike.Runs

/-!
# What computations ensure

`Compilation.Ensures` says three things of a computation from one scope: it takes nothing back, also
when it fails; its result satisfies a condition; and none of its errors is internal, that is, of a
clause or a request that is set twice. One rule for each combinator.
-/

set_option autoImplicit false

namespace LambdaQuery

/-- A selection, a group or a request of the caller is set where one is set already. -/
def CompileError.isInternal : CompileError → Bool
  | .structural .selectSet | .structural .groupBySet | .structural .operationSet => true
  | _ => false

namespace Compilation

variable {α β : Type}

structure Ensures (x : Compilation α) (s : Scope) (Q : Scope → α → Prop) : Prop where
  grows : s.Grows (x s).2
  result : ∀ {a t}, x s = (.ok a, t) → Q t a
  external : s.operation ≠ some .none → ∀ {e t}, x s = (.error e, t) → e.isInternal = false

namespace Ensures

variable {x : Compilation α} {s : Scope} {P Q : Scope → α → Prop}

theorem of_ok {a : α} {t : Scope} (h : x s = (.ok a, t)) (hg : s.Grows t) (hq : Q t a) :
    x.Ensures s Q where
  grows := by rwa [h]
  result h' := by
    cases h.symm.trans h'
    exact hq
  external _ _ _ h' := by cases h.symm.trans h'

theorem of_error {e : CompileError} (h : x s = (.error e, s)) (he : e.isInternal = false) :
    x.Ensures s Q where
  grows := by
    rw [h]
    exact .refl s
  result h' := by cases h.symm.trans h'
  external _ _ _ h' := by
    cases h.symm.trans h'
    exact he

theorem congr {y : Compilation α} (hy : x s = y s) (h : y.Ensures s Q) : x.Ensures s Q where
  grows := hy ▸ h.grows
  result h' := h.result (hy ▸ h')
  external ho _ _ h' := h.external ho (hy ▸ h')

protected theorem pure {a : α} (h : Q s a) : (pure a : Compilation α).Ensures s Q :=
  .of_ok rfl (.refl s) h

protected theorem throw {e : CompileError} (he : e.isInternal = false) :
    (throw e : Compilation α).Ensures s Q := .of_error rfl he

protected theorem bind {f : α → Compilation β} {R : Scope → β → Prop} (h : x.Ensures s P)
    (hf : ∀ t a, s.Grows t → P t a → (f a).Ensures t R) : (x >>= f).Ensures s R := by
  have heq := Compilation.run_bind x f s
  rcases hx : x s with ⟨e | a, t⟩
  · rw [hx] at heq
    exact {
      grows := by rw [heq]; simpa only [hx] using h.grows
      result := fun h' => by cases heq.symm.trans h'
      external := fun ho _ _ h' => by
        cases heq.symm.trans h'
        exact h.external ho hx }
  · rw [hx] at heq
    have hg : s.Grows t := by simpa only [hx] using h.grows
    have hfa := hf t a hg (h.result hx)
    replace heq : (x >>= f) s = f a t := heq
    exact {
      grows := by rw [heq]; exact hg.trans hfa.grows
      result := fun h' => hfa.result (heq ▸ h')
      external := fun ho _ _ h' => hfa.external (hg.operation ho) (heq ▸ h') }

/-- A weaker conclusion. -/
theorem imp (h : x.Ensures s P) (hq : ∀ t a, s.Grows t → P t a → Q t a) : x.Ensures s Q where
  grows := h.grows
  result {a t} hx := hq t a (by simpa only [hx] using h.grows) (h.result hx)
  external := h.external

theorem get_bind {f : Scope → Compilation β} {R : Scope → β → Prop} (h : (f s).Ensures s R) :
    (get >>= f).Ensures s R := h.congr (Compilation.run_bind get f s)

protected theorem ofExcept {x : Except CompileError α} (hok : ∀ a, x = .ok a → Q s a)
    (he : ∀ e, x = .error e → e.isInternal = false) :
    (ofExcept x : Compilation α).Ensures s Q := by
  cases x with
  | ok a => exact .of_ok rfl (.refl s) (hok a rfl)
  | error e => exact .of_error rfl (he e rfl)

protected theorem ofHost {x : Except HostError α} (hok : ∀ a, x = .ok a → Q s a) :
    (ofHost x).Ensures s Q := by
  cases x with
  | ok a => exact .of_ok rfl (.refl s) (hok a rfl)
  | error e => exact .of_error rfl rfl

/-- Surroundings that are left as they were found. -/
theorem within {enter : Scope → Scope} {leave : Scope → Scope → Scope}
    (h : x.Ensures (enter s) P)
    (hl : ∀ t, (enter s).Grows t → s.Grows (leave s t) ∧ ∀ a, P t a → Q (leave s t) a)
    (ho : (enter s).operation = s.operation) :
    (Compilation.within enter leave x).Ensures s Q where
  grows := (hl _ h.grows).1
  result {a u} h' := by
    unfold Compilation.within at h'
    rcases hx : x (enter s) with ⟨r, t⟩
    rw [hx] at h'
    cases h'
    exact (hl t (by simpa only [hx] using h.grows)).2 a (h.result hx)
  external hs {e u} h' := by
    unfold Compilation.within at h'
    rcases hx : x (enter s) with ⟨r, t⟩
    rw [hx] at h'
    cases h'
    exact h.external (ho ▸ hs) hx

theorem withMethod {method : String} (h : x.Ensures (s.pushMethod method) P)
    (hq : ∀ t a, (s.pushMethod method).Grows t → P t a → Q { t with methods := s.methods } a) :
    (Compilation.withMethod method x).Ensures s Q :=
  h.within (fun t hg => ⟨hg.afterMethod, fun a ha => hg.popMethod ▸ hq t a hg ha⟩) rfl

theorem withCollection {c : Collection} (h : x.Ensures (s.pushCollection c) P)
    (hq : ∀ t a, (s.pushCollection c).Grows t → P t a →
      Q { t with collections := s.collections } a) :
    (Compilation.withCollection c x).Ensures s Q :=
  h.within (fun t hg => ⟨hg.afterCollection, fun a ha => hg.popCollection ▸ hq t a hg ha⟩) rfl

theorem withParameter {name : String} {target : Scalar} (h : x.Ensures (s.bindTo name target) P)
    (hq : ∀ t a, (s.bindTo name target).Grows t → P t a → Q { t with bindings := s.bindings } a) :
    (Compilation.withParameter name target x).Ensures s Q :=
  h.within (fun t hg => ⟨hg.afterLambda, fun a ha => hg.unbind ▸ hq t a hg ha⟩) rfl

theorem withGroup {g : GroupScope} (h : x.Ensures (s.setGroup (some g)) P)
    (hq : ∀ t a, (s.setGroup (some g)).Grows t → P t a → Q { t with group := s.group } a) :
    (Compilation.withGroup g x).Ensures s Q :=
  h.within (fun t hg => ⟨{ hg with group := rfl }, fun a => hq t a hg⟩) rfl

theorem nested (h : x.Ensures s.enterSubquery P)
    (hq : ∀ t a, s.enterSubquery.Grows t → P t a →
      Q { t with depth := s.depth, methods := s.methods } a) :
    (Compilation.nested x).Ensures s Q :=
  h.within (fun t hg => by
    rw [hg.exitSubquery]
    exact ⟨{ hg with
      depth := rfl, methods := rfl, silent := fun _ => hg.silent (Nat.succ_ne_zero _) },
      fun a => hq t a hg⟩) rfl

section

variable {name : String} {stage : Stage} {act : Stage → Compilation α}

/-- The parameter of a lambda over the rows of the stage. -/
theorem withRow_outer {n : String} {cs : List Collection} (hc : s.collections = .outer n :: cs)
    (h : (act stage).Ensures (s.bindTo name stage.layer.row) P)
    (hq : ∀ t a, (s.bindTo name stage.layer.row).Grows t → P t a →
      Q { t with bindings := s.bindings } a) :
    (Compilation.withRow name stage act).Ensures s Q := by
  refine .congr (y := Compilation.withParameter name stage.layer.row (act stage)) ?_
    (h.withParameter hq)
  unfold Compilation.withRow Compilation.withParameter Compilation.within Scope.bind
  rw [hc]

/-- The parameter of a lambda over the items of an array, which the stage then iterates. -/
theorem withRow_inner {path : Scalar} {cs : List Collection}
    (hc : s.collections = .inner path :: cs)
    (h : (act (stage.addJoin (s.fresh name).1 path)).Ensures
      ((s.fresh name).2.bindTo name (.ref (s.fresh name).1)) P)
    (hq : ∀ t a, s.Grows { t with bindings := s.bindings } → P t a →
      Q { t with bindings := s.bindings } a) :
    (Compilation.withRow name stage act).Ensures s Q := by
  have hf := s.grows_fresh name
  refine .congr (y := Compilation.within
    (fun s => (s.fresh name).2.bindTo name (.ref (s.fresh name).1)) (fun _ t => t.unbind)
    (act (stage.addJoin (s.fresh name).1 path))) ?_ (h.within (fun t hg => ?_) ?_)
  · unfold Compilation.withRow Compilation.within Scope.bind
    rw [hc]
  · rw [hg.unbind, hf.bindings]
    have hs : s.Grows { t with bindings := s.bindings } :=
      hf.trans { hg with bindings := hf.bindings.symm }
    exact ⟨hs, fun a => hq t a hs⟩
  · rw [s.fresh_eq]
    rfl

end

theorem modify {f : Scope → Scope} {Q : Scope → Unit → Prop} (hg : s.Grows (f s))
    (h : Q (f s) ()) : (modify f : Compilation Unit).Ensures s Q := .of_ok rfl hg h

theorem edit {stage : Stage} {change : Stage.Edit Unit} {Q : Scope → Stage → Prop}
    (hok : ∀ u, change stage = (.ok (), u) → Q s u)
    (he : ∀ e u, change stage = (.error e, u) → e.isInternal = false) :
    (Compilation.edit stage change).Ensures s Q := by
  rcases hc : change stage with ⟨e | _, u⟩
  · refine .of_error ?_ (he e u hc)
    unfold Compilation.edit
    rw [hc]
    rfl
  · refine .of_ok ?_ (.refl s) (hok u hc)
    unfold Compilation.edit
    rw [hc]
    rfl

theorem fresh {base : String} {Q : Scope → String → Prop}
    (h : Q (s.fresh base).2 (s.fresh base).1) : (Compilation.fresh base).Ensures s Q :=
  .of_ok rfl (Scope.grows_fresh s base) h

theorem flattened {stage : Stage} {Q : Scope → Query → Prop}
    (hok : ∀ q, stage.toQuery = .ok q → Q { s with merged := stage.merged ++ s.merged } q)
    (he : ∀ e, stage.toQuery = .error e → e.isInternal = false) :
    (Compilation.flattened stage).Ensures s Q := by
  cases hq : stage.toQuery with
  | error e =>
    refine .of_error ?_ (he e hq)
    unfold Compilation.flattened
    rw [hq]
    rfl
  | ok q =>
    refine .of_ok (t := { s with merged := stage.merged ++ s.merged }) ?_
      { Scope.Grows.refl s with } (hok q hq)
    unfold Compilation.flattened
    rw [hq]
    rfl

theorem setOperation {Q : Scope → Unit → Prop} (h : ∀ t, s.Grows t → Q t ()) :
    (Compilation.setOperation .firstOrDefault).Ensures s Q := by
  refine get_bind ?_
  split
  · exact .pure (h s (.refl s))
  rename_i hdepth
  split
  · rename_i op hop
    split
    · exact .pure (h s (.refl s))
    · rename_i hne
      refine ⟨.refl s, fun h' => (nomatch h'), fun ho => ?_⟩
      cases op with
      | none => exact absurd hop ho
      | firstOrDefault => exact absurd rfl hne
  · have hg : s.Grows { s with operation := some .firstOrDefault } :=
      { Scope.Grows.refl s with
        operation := fun _ => by simp
        silent := fun h => absurd (bne_iff_ne.mpr h) hdepth }
    exact .of_ok rfl hg (h _ hg)

theorem requireLast {method : String} {Q : Scope → Unit → Prop}
    (h : s.methods.length = 1 → Q s ()) : (Compilation.requireLast method).Ensures s Q := by
  refine get_bind ?_
  cases hl : s.isOutermost with
  | false => exact .throw rfl
  | true => exact .pure (h (of_decide_eq_true hl))

end Ensures

end Compilation

end LambdaQuery
