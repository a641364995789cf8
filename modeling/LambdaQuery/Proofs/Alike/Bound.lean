import LambdaQuery.Proofs.Alike.Bindable
import LambdaQuery.Proofs.Alike.Expressions

/-!
# A compilation beside the one without parameters

On the right side constants may be bound to parameters, on the left side none is. What comes out is
alike up to the parameters that are used, each of which stands for the scalar of its value
(`Setting.bound`), if the expressions are bindable. Where a literal of the left side is a parameter
on the right one, the member that it is compared with has no converter
(`Setting.bound_matched`).
-/

set_option autoImplicit false

namespace LambdaQuery

/-- The surroundings without parameters. -/
def Environment.unbound (env : Environment) : Environment :=
  { env with options := { env.options with parameters := [] } }

theorem Environment.parameters_unbound (env : Environment) :
    env.unbound.options.parameters = [] :=
  rfl

namespace Setting

/-- Some parameter in use has the name. -/
def Used (qs : List QueryParameter) (name : String) : Prop := ∃ p ∈ qs, p.name = name

theorem Used.mono {qs rs : List QueryParameter} {name : String} (h : Used qs name)
    (hq : qs <+: rs) :
    Used rs name :=
  let ⟨p, hp, hn⟩ := h
  ⟨p, hq.subset hp, hn⟩

/-- A scalar, and the one that has parameters in the place of some literals. -/
structure Shows (a b : Scalar) : Prop where
  index : a.isIndex = b.isIndex
  literal : ∀ value, b = .literal value → a = .literal value
  parameter : ∀ value, a = .literal value → b = .literal value ∨ b.isParameter = true

theorem Shows.same {a b : Scalar} (h : Shows a b) (hb : b.isParameter = false) : a.SameShape b where
  index := h.index
  literal value := ⟨fun ha => (h.parameter value ha).resolve_right (by rw [hb]; exact nofun),
    h.literal value⟩

/-- The compilation without parameters beside the one with them. -/
def bound (env : Environment) : Setting where
  left := env.unbound
  right := env
  leaf qs a b := ∃ p ∈ env.options.parameters, b = .parameter p.queryName ∧
    p.value.toJson.toScalar = .ok a ∧ Used qs p.queryName
  count qs a b := (∃ n, a = .literal n ∧ b = .literal n) ∨
    ∃ p ∈ env.options.parameters, ∃ n, b = .parameter p.queryName ∧
      p.value.toJson.toInt64? = some n ∧ a = .literal n ∧ Used qs p.queryName
  shape := Shows
  negation := False
  named := True
  lax := True
  lists := False
  exact := True
  admits e := e.Bindable env.options
  apart := Expr.Apart env.options
  reports p := ∃ b ∈ env.options.parameters, p = ⟨b.queryName, b.value.toJson⟩
  evaluator := rfl
  naming := rfl
  nameless := nameless_of_exact env
  named_exact := fun _ => trivial
  leaf_right := fun ⟨p, _, hb, _⟩ => ⟨p.queryName, hb⟩
  leaf_left := fun ⟨_, _, _, ha, _⟩ =>
    have hdata := Json.toScalar_data ha
    ⟨hdata.names, hdata.isAggregate, hdata.isMembership, fun _ => trivial, False.elim⟩
  leaf_shape := fun ⟨_, _, hb, ha, _⟩ => by
    subst hb
    exact ⟨(Json.toScalar_data ha).isIndex, fun _ h => (nomatch h), fun _ _ => .inr rfl⟩
  leaf_mono := fun hq ⟨p, hp, hb, ha, hused⟩ => ⟨p, hp, hb, ha, hused.mono hq⟩
  count_mono := fun hq h => h.imp_right fun ⟨p, hp, n, hb, hn, ha, hused⟩ =>
    ⟨p, hp, n, hb, hn, ha, hused.mono hq⟩
  count_literal := fun _ _ n => by
    constructor
    · rintro (⟨m, rfl, h⟩ | ⟨p, _, m, h, _⟩)
      · rw [h]
      · cases h
    · rintro rfl
      exact .inl ⟨n, rfl, rfl⟩
  shape_literal := fun _ => ⟨rfl, fun _ => id, fun _ => .inl⟩
  shape_of := fun hindex ha hb => by
    refine ⟨hindex, fun value h => ?_, fun value h => ?_⟩
    · subst h
      cases hb
    · subst h
      cases ha
  admits_child := fun h hd => h.child hd
  admits_contains := fun h hname => (h _ .self).1 hname
  admits_binary := fun h => h _ .self
  admits_compared := fun h hp => h.compared hp

variable {env : Environment} {F : Frame} {s s' : Scope}

/-- Taking a parameter into use on the right side alone. -/
theorem step_bound {ty : HostType} {v : Value} (hv : v.Agrees env.options ty)
    {p : BoundParameter} (h : env.options.parameters.find? (·.value == v) = some p)
    (hn : isParameterName p.queryName = true) :
    (bound env).Step s s' s (s'.useParameter ⟨p.queryName, v.toJson⟩) where
  left := .refl s
  right := s'.grows_useParameter hn
  named _ h := by rw [s'.names_useParameter, h]
  reported := by
    obtain ⟨hmem, hjson, -⟩ := hv.of_find? h
    exact s'.forall_useParameter ⟨p, hmem, by rw [hjson]⟩

theorem used_useParameter (s : Scope) (p : QueryParameter) :
    Used (s.useParameter p).parameters p.name := by
  unfold Scope.useParameter
  split
  · rename_i h
    obtain ⟨q, hq, hn⟩ := List.any_eq_true.mp h
    exact ⟨q, hq, beq_iff_eq.mp hn⟩
  · exact ⟨p, List.mem_append_right _ (List.mem_singleton_self p), rfl⟩

/-- A constant that is bound stands for its literal. -/
theorem Runs.constant_bound {ty : HostType} {v : Value} (hv : v.Agrees env.options ty)
    {p : BoundParameter} (h : env.options.parameters.find? (·.value == v) = some p) :
    (bound env).Runs s s' (Compilation.constant env.unbound.options ty v)
      (Compilation.constant env.options ty v) fun _ t' => (bound env).leaf t'.parameters := by
  intro b t' hy
  obtain ⟨hmem, hjson, hplain⟩ := hv.of_find? h
  rw [Compilation.constant_bound s' h] at hy
  rcases hx : Compilation.constant env.unbound.options ty v s with ⟨error | a, t⟩
  · exact .inr ⟨trivial, error, t, rfl⟩
  obtain ⟨ha, rfl⟩ :=
    Compilation.toScalar_toJson_of_constant env.parameters_unbound hplain hx
  have hy := Compilation.eq_ok_of_ite (x := fun s' => if isParameterName p.queryName then
    (.ok (.parameter p.queryName), s'.useParameter ⟨p.queryName, v.toJson⟩)
    else (.error (.unsupported (.parameterName p.name)), s')) hy
  split at hy
  · rename_i hn
    cases hy
    exact .inl ⟨a, t, rfl, step_bound hv h hn, p, hmem, rfl, hjson ▸ ha,
      used_useParameter s' _⟩
  · cases hy

/-- An array that is not bound has items that come out alike. -/
theorem Runs.constant_items {ty : HostType} {items : List Value}
    (h : env.options.parameters.find? (·.value == .array items) = none)
    (hitems : (bound env).Runs s s'
      (Compilation.constants env.unbound.options (ty.element?.getD .object) items)
      (Compilation.constants env.options (ty.element?.getD .object) items)
      ((bound env).Outcomes F)) :
    (bound env).Runs s s' (Compilation.constant env.unbound.options ty (.array items))
      (Compilation.constant env.options ty (.array items)) (Arrays ((bound env).Outcome F)) := by
  have hfree := Compilation.find?_unbound env.parameters_unbound (.array items)
  by_cases hq : ty.isDocumentQuery = true
  · intro b t' hy
    rw [Compilation.constant_items s' h, if_pos hq] at hy
    cases hy
  · refine Runs.congr (by rw [Compilation.constant_items s hfree, if_neg hq, ← bind_pure_comp])
      (by rw [Compilation.constant_items s' h, if_neg hq, ← bind_pure_comp]) ?_
    exact .bind hitems fun t t' as bs _ has => .pure ⟨as, bs, rfl, rfl, has⟩

/-- Any other constant that is not bound is the same on both sides. -/
theorem Runs.constant_free {ty : HostType} {v : Value}
    (h : env.options.parameters.find? (·.value == v) = none) (hv : ∀ items, v ≠ .array items) :
    (bound env).Runs s s' (Compilation.constant env.unbound.options ty v)
      (Compilation.constant env.options ty v) ((bound env).Outcome F) := by
  have hfree := Compilation.find?_unbound env.parameters_unbound v
  by_cases hq : ty.isDocumentQuery = true
  · intro b t' hy
    rw [Compilation.constant_inlined s' h hv, if_pos hq] at hy
    cases hy
  · exact Runs.congr (by rw [Compilation.constant_inlined s hfree hv, if_neg hq]; rfl)
      (by rw [Compilation.constant_inlined s' h hv, if_neg hq])
      ((Outcome.congruence (bound env) F).inlined env.options.naming ty v)

mutual

theorem bound_constant (ty : HostType) :
    ∀ (v : Value) {s s' : Scope}, v.Agrees env.options ty →
      (bound env).Runs s s' (Compilation.constant env.unbound.options ty v)
        (Compilation.constant env.options ty v) ((bound env).Outcome F)
  | v, s, s', hv => by
    cases hfind : env.options.parameters.find? (·.value == v) with
    | some p =>
      exact (Runs.constant_bound hv hfind).imp fun _ _ _ _ _ hab => .leaf hab
    | none =>
      cases v with
      | array items =>
        exact (Runs.constant_items hfind (bound_constants _ items hv.2)).imp
          fun _ _ _ _ _ ⟨_, _, ha, hb, has⟩ => ha ▸ hb ▸ .array has
      | _ => exact Runs.constant_free hfind fun _ h => nomatch h

theorem bound_constants (ty : HostType) :
    ∀ (vs : List Value) {s s' : Scope}, Value.AllAgree env.options ty vs →
        (bound env).Runs s s' (Compilation.constants env.unbound.options ty vs)
          (Compilation.constants env.options ty vs) ((bound env).Outcomes F)
  | [], s, s', _ => by
    rw [Compilation.constants, Compilation.constants]
    exact .pure .nil
  | v :: vs, s, s', hv => by
    rw [Compilation.constants, Compilation.constants]
    refine .bind (bound_constant ty v hv.1) fun t t' a b hst hab => ?_
    refine .bind (bound_constants ty vs hv.2) fun u u' as bs hsu has => ?_
    exact .pure (.cons (hab.step hsu) has)

end

/-- A count is a parameter for the integer that the other side has, or the same literal. -/
theorem bound_counts (method : String) {arg : Expr}
    (hadm : arg.Bindable env.options) :
    (bound env).Runs s s' (Compilation.count env.unbound.options method arg)
      (Compilation.count env.options method arg)
      fun _ t' n m => (bound env).count t'.parameters n m := by
  unfold Compilation.count
  cases harg : (Compilation.stripConversions arg).asConstant? with
  | none => exact .throw _ _
  | some v =>
    dsimp only
    obtain ⟨ty, hv⟩ := hadm.constant harg
    have hleft : Compilation.bindConstant env.unbound.options v s = (.ok none, s) :=
      Compilation.bindConstant_eq _ v s
    cases hfind : env.options.parameters.find? (·.value == v) with
    | none =>
      have hright : Compilation.bindConstant env.options v s' = (.ok none, s') := by
        rw [Compilation.bindConstant_eq, hfind]
      refine Runs.congr (by rw [Compilation.run_bind, hleft]) (by rw [Compilation.run_bind, hright])
        ?_
      split
      · split
        · rename_i n _ _
          exact .pure (.inl ⟨n, rfl, rfl⟩)
        · exact .throw _ _
      · exact .throw _ _
    | some p =>
      intro b t' hy
      rw [Compilation.run_bind, Compilation.bindConstant_eq, hfind] at hy
      rw [Compilation.run_bind, hleft]
      by_cases hname : isParameterName p.queryName = true
      · obtain ⟨hmem, hjson, -⟩ := hv.of_find? hfind
        dsimp only at hy ⊢
        rw [if_pos hname] at hy
        cases hy
        cases hn : v.toInt64? with
        | none => exact .inr ⟨trivial, _, s, rfl⟩
        | some n =>
          dsimp only
          split
          · exact .inl ⟨.literal n, s, rfl, step_bound hv hfind hname, .inr ⟨p, hmem, n, rfl,
              hjson ▸ Value.toInt64?_toJson hn, rfl, used_useParameter s' _⟩⟩
          · exact .inr ⟨trivial, _, s, rfl⟩
      · dsimp only at hy
        rw [if_neg hname] at hy
        cases hy

/-- No literal is encoded where no converter applies. -/
theorem matched_eq {naming : Naming} {left right : Expr} {a b : Scalar}
    (hleft : a.isIndex = true → (Compilation.accessed? left).bind naming.converter? = none)
    (hright : b.isIndex = true → (Compilation.accessed? right).bind naming.converter? = none) :
    Compilation.matched naming left right a b = pure (a, b) := by
  have hencoded : ∀ {e : Expr} (s : Scalar),
      (Compilation.accessed? e).bind naming.converter? = none →
        Compilation.encoded naming e s = pure s := by
    intro e s he
    unfold Compilation.encoded
    rw [he]
  unfold Compilation.matched
  split
  · rename_i h
    rw [hencoded b (hleft (Bool.and_eq_true_iff.mp h).1)]
    rfl
  split
  · rename_i h
    rw [hencoded a (hright (Bool.and_eq_true_iff.mp h).1)]
    rfl
  · rfl

theorem isIndex_of_isParameter {s : Scalar} (h : s.isParameter = true) : s.isIndex = false := by
  cases s with
  | parameter => rfl
  | _ => cases h

/-- The sides of a comparison come out alike: where one of them is a parameter on the right side,
the other one has no converter. -/
theorem bound_matched {left right : Expr} (hapart : Expr.Apart env.options left right)
    {a a' b b' : Scalar} (ha : (bound env).Outcome F s s' a a')
    (hb : (bound env).Outcome F s s' b b')
    (hleft : a'.isParameter = true → left.MayBeBound env.options)
    (hright : b'.isParameter = true → right.MayBeBound env.options) :
    (bound env).Runs s s' (Compilation.matched env.options.naming left right a b)
      (Compilation.matched env.options.naming left right a' b')
      fun t t' p q => (bound env).Outcome F t t' p.1 q.1 ∧ (bound env).Outcome F t t' p.2 q.2 := by
  have hindex := ha.facts.shape.index
  have hindex' := hb.facts.shape.index
  -- A parameter is nothing that is read, so that only the other side may be a member.
  have hnever : ∀ {x x' : Scalar} {p : Prop}, x'.isParameter = true → x.isIndex = x'.isIndex →
      x.isIndex = true → p := by
    intro x x' p hx' hx h
    rw [hx, isIndex_of_isParameter hx'] at h
    cases h
  cases hpa : a'.isParameter with
  | true =>
    have hnone := hapart.2.resolve_right fun h => h (hleft hpa)
    rw [matched_eq (fun h => hnever hpa hindex h) fun _ => hnone,
      matched_eq (fun h => hnever hpa rfl h) fun _ => hnone]
    exact .pure ⟨ha, hb⟩
  | false =>
    cases hpb : b'.isParameter with
    | true =>
      have hnone := hapart.1.resolve_right fun h => h (hright hpb)
      rw [matched_eq (fun _ => hnone) fun h => hnever hpb hindex' h,
        matched_eq (fun _ => hnone) fun h => hnever hpb rfl h]
      exact .pure ⟨ha, hb⟩
    | false => exact .matched _ _ _ ha hb (ha.facts.shape.same hpa) (hb.facts.shape.same hpb)

/-- **With parameters and without, constants come out alike.** -/
theorem bound_sound : (bound env).Sound where
  constant _ hadm := bound_constant _ _ (hadm _ .self)
  listed := by
    intro F s s' items ty _ hadm
    have hv := hadm _ .self
    cases hfind : env.options.parameters.find? (·.value == .array items) with
    | some p => exact (Runs.constant_bound hv hfind).imp fun _ _ _ _ _ hab => .leaf hab
    | none =>
      exact (Runs.constant_items hfind (bound_constants _ items hv.2)).imp
        fun _ _ _ _ _ hab => .inl hab
  arguments := by
    intro F s s' items ty _ hadm
    exact bound_constants .object items (hadm _ .self).2.object
  count method _ hadm := bound_counts method hadm
  matched := by
    intro F s s' left left' right right' a a' b b' hs hl hr hapart ha hb hleft hright
    obtain rfl := hl.eq_of_exact trivial (hs.exact trivial)
    obtain rfl := hr.eq_of_exact trivial (hs.exact trivial)
    exact bound_matched hapart ha hb (Compilation.gives_mayBeBound env left |>.of_reaches hleft)
      (Compilation.gives_mayBeBound env right |>.of_reaches hright)

end Setting

end LambdaQuery
