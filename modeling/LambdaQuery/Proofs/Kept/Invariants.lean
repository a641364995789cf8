import LambdaQuery.Proofs.Alike.Clauses
import LambdaQuery.Proofs.Alike.Constants
import LambdaQuery.Proofs.Kept.Computations
import LambdaQuery.Proofs.Kept.Stages

/-!
# Invariants of compilations

A `ScalarInvariant` is a property of scalars that holds of literals and is kept by all that is built
of scalars; constants satisfy it (`ScalarInvariant.constant`). An `Invariant` is one that holds of
references and nested queries too, beside a property of counts. The rows of a stage satisfy it if
the clauses do (`Stage.Built.row`).
-/

set_option autoImplicit false

namespace LambdaQuery

/-! ## Errors of data -/

theorem Scalar.double?_external {x : Float} {e : CompileError} (h : Scalar.double? x = .error e) :
    e.isInternal = false := by
  unfold Scalar.double? at h
  split at h
  · cases h
  · cases h
    rfl

theorem bind_external {α β : Type} {x : Except CompileError α} {f : α → Except CompileError β}
    (hx : ∀ e, x = .error e → e.isInternal = false)
    (hf : ∀ a e, x = .ok a → f a = .error e → e.isInternal = false) {e : CompileError}
    (h : x >>= f = .error e) : e.isInternal = false := by
  cases x with
  | error e' =>
    cases h
    exact hx e rfl
  | ok a => exact hf a e rfl h

mutual

theorem Json.toScalar_external : ∀ {j : Json} {e : CompileError}, j.toScalar = .error e →
    e.isInternal = false
  | .null, _, h | .bool _, _, h | .str _, _, h => nomatch h
  | .num n, _, h => by
    simp only [Json.toScalar] at h
    split at h
    · cases h
    · exact Scalar.double?_external h
  | .arr items, _, h =>
    bind_external (fun _ h => Json.toScalars_external h) (fun _ _ _ h => by cases h) h
  | .obj members, _, h =>
    bind_external (fun _ h => Json.toProperties_external h) (fun _ _ _ h => by cases h) h

theorem Json.toScalars_external : ∀ {js : List Json} {e : CompileError},
    Json.toScalars js = .error e → e.isInternal = false
  | [], _, h => nomatch h
  | j :: js, _, h =>
    bind_external (fun _ h => Json.toScalar_external h) (fun _ _ _ h =>
      bind_external (fun _ h => Json.toScalars_external h) (fun _ _ _ h => by cases h) h) h

theorem Json.toProperties_external : ∀ {ms : List (String × Json)} {e : CompileError},
    Json.toProperties ms = .error e → e.isInternal = false
  | [], _, h => nomatch h
  | (name, j) :: ms, _, h =>
    bind_external (fun _ h => Json.toScalar_external h) (fun _ _ _ h =>
      bind_external (fun _ h => Json.toProperties_external h) (fun _ _ _ h => by cases h) h) h

end

mutual

theorem Value.toScalar_external : ∀ {v : Value} {e : CompileError}, v.toScalar = .error e →
    e.isInternal = false
  | .null, _, h | .boolean _, _, h | .integer _, _, h | .char _, _, h | .string _, _, h
  | .guid _, _, h => nomatch h
  | .unsigned n, _, h => by
    simp only [Value.toScalar] at h
    split at h
    · cases h
    · exact Scalar.double?_external h
  | .float x, _, h => Scalar.double?_external h
  | .decimal d, _, h => by
    simp only [Value.toScalar] at h
    split at h
    · split at h
      · cases h
      · exact Scalar.double?_external h
    · exact Scalar.double?_external h
  | .geometry shape, _, h => Json.toScalar_external h
  | .array items, _, h =>
    bind_external (fun _ h => Value.toScalars_external h) (fun _ _ _ h => by cases h) h
  | .object fields, _, h => Json.toScalar_external h
  | .query q, _, h => Json.toScalar_external h

theorem Value.toScalars_external : ∀ {vs : List Value} {e : CompileError},
    Value.toScalars vs = .error e → e.isInternal = false
  | [], _, h => nomatch h
  | v :: vs, _, h =>
    bind_external (fun _ h => Value.toScalar_external h) (fun _ _ _ h =>
      bind_external (fun _ h => Value.toScalars_external h) (fun _ _ _ h => by cases h) h) h

end

/-! ## Invariants -/

/-- `t` knows the names and parameters of `s`, and more; they agree on whether rows are grouped. -/
structure Scope.Knows (t s : Scope) : Prop where
  names : s.names ⊆ t.names
  parameters : s.parameters <+: t.parameters
  group : t.group = s.group

theorem Scope.Grows.knows {s t : Scope} (h : s.Grows t) : t.Knows s :=
  ⟨h.names, h.parameters, h.group⟩

theorem Scope.Knows.same {s t : Scope} (hn : t.names = s.names) (hp : t.parameters = s.parameters)
    (hg : t.group = s.group) : t.Knows s :=
  ⟨fun _ h => hn ▸ h, hp ▸ List.prefix_rfl, hg⟩

/-- What a chain of operators builds in a scope, from scalars `P` and counts `C`; the result of a
group is a scalar for the grouped rows. -/
abbrev Scope.Chain (P : Scope → Scalar → Prop) (C : Scope → Count → Prop) (last : Prop) (s : Scope)
    (st : Stage) : Prop :=
  st.Ended (P s) (fun v => ∃ g, P (s.setGroup (some g)) v) (C s) last

/-- A property of scalars that holds of data and of what is built of scalars that have it. -/
structure ScalarInvariant where
  holds : Scope → Scalar → Prop
  mono : ∀ {s t a}, t.Knows s → holds s a → holds t a
  data : ∀ {s a}, a.Data → holds s a
  parameter : ∀ {s} {p : QueryParameter}, p ∈ s.parameters → holds s (.parameter p.name)
  index : ∀ {s a b}, holds s a → holds s b → holds s (.index a b)
  binary : ∀ {s a b} (op : QueryBinaryOp), holds s a → holds s b → holds s (.binary op a b)
  unary : ∀ {s a} (op : QueryUnaryOp), holds s a → holds s (.unary op a)
  conditional : ∀ {s a b c}, holds s a → holds s b → holds s c → holds s (.conditional a b c)
  /-- Aggregates are called where rows are grouped. -/
  call : ∀ {s args} (name : String) (udf : Bool), (∀ a ∈ args, holds s a) →
    (udf = true ∨ Scalar.aggregates.contains name = false ∨ s.group ≠ none) →
      holds s (.call name args udf)
  array : ∀ {s items}, (∀ a ∈ items, holds s a) → holds s (.array items)
  object : ∀ {s properties}, (∀ p ∈ properties, holds s p.2) → holds s (.object properties)
  /-- The items of an array that is written out become those of a call. -/
  spread : ∀ {s items} (name : String), Scalar.aggregates.contains name = false →
    holds s (.array items) → holds s (.builtin name items)
  isIn : ∀ {s a items} (negated : Bool), holds s a → holds s (.array items) →
    holds s (.isIn a items negated)
  negated : ∀ {s a items negated}, holds s (.isIn a items negated) →
    holds s (.isIn a items !negated)

/-- A property of scalars, and one of counts, that compilations keep. -/
structure Invariant extends ScalarInvariant where
  count : Scope → Count → Prop
  count_mono : ∀ {s t c}, t.Knows s → count s c → count t c
  /-- What is known of rows is known of grouped rows. -/
  grouped : ∀ {s a} (g : GroupScope), holds s a → holds (s.setGroup (some g)) a
  ref : ∀ {s} (n : String), holds s (.ref n)
  nested : ∀ {s st q} (method : String), s.Chain holds count True st → st.toQuery = .ok q →
    holds s (Compilation.nestedScalar method q)
  literal_count : ∀ {s} {n : Int64}, 0 ≤ n.toInt → count s (.literal n)
  parameter_count : ∀ {s} {p : QueryParameter}, p ∈ s.parameters → count s (.parameter p.name)

namespace ScalarInvariant

variable {I : ScalarInvariant} {s t : Scope}

theorem holds_same {a : Scalar} (h : I.holds s a) (hn : t.names = s.names)
    (hp : t.parameters = s.parameters) (hg : t.group = s.group) : I.holds t a :=
  I.mono (.same hn hp hg) h

/-- It holds of what a parameter stands for if it does so of what all parameters stand for. -/
theorem lookup? (h : ∀ b ∈ s.bindings, I.holds s b.2) {name : String} {a : Scalar}
    (ha : s.lookup? name = some a) : I.holds s a := by
  unfold Scope.lookup? at ha
  have hmem : ∀ {r : Record Scalar}, Record.get? r name = some a → ∃ b ∈ r, b.2 = a := by
    intro r hr
    induction r with
    | nil => cases hr
    | cons b r ih =>
      rw [Record.get?] at hr
      split at hr
      · exact ⟨b, List.mem_cons_self, Option.some.inj hr⟩
      · obtain ⟨b', hb', rfl⟩ := ih hr
        exact ⟨b', List.mem_cons_of_mem _ hb', rfl⟩
  obtain ⟨b, hb, rfl⟩ := hmem ha
  exact h b hb

variable (I)

theorem literal (value : Literal) : I.holds s (.literal value) := I.data (.literal value)

theorem function {args : List Scalar} {name : String} (h : ∀ a ∈ args, I.holds s a)
    (hname : Scalar.aggregates.contains name = false) : I.holds s (.builtin name args) :=
  I.call name false h (.inr (.inl hname))

theorem equal {a b : Scalar} (ha : I.holds s a) (hb : I.holds s b) : I.holds s (.equal a b) :=
  I.binary .equal ha hb

end ScalarInvariant

namespace Invariant

variable (I : Invariant)

/-- The invariant holds of what the parameters of lambdas stand for. -/
structure Scopes (s : Scope) : Prop where
  bindings : ∀ b ∈ s.bindings, I.holds s b.2
  group : ∀ g, s.group = some g → I.holds s g.row

/-- What a chain builds in the middle. -/
abbrev Built (s : Scope) (st : Stage) : Prop := st.Built (I.holds s) (I.count s)

/-- What a chain builds. -/
abbrev Ended (last : Prop) (s : Scope) (st : Stage) : Prop := s.Chain I.holds I.count last st

variable {I} {s t : Scope}

theorem Scopes.knows (h : I.Scopes s) (hk : t.Knows s) (hb : t.bindings = s.bindings) :
    I.Scopes t where
  bindings b hm := I.mono hk (h.bindings b (hb ▸ hm))
  group g hg := I.mono hk (h.group g (hk.group ▸ hg))

theorem Scopes.grows (h : I.Scopes s) (hg : s.Grows t) : I.Scopes t := h.knows hg.knows hg.bindings

theorem Scopes.bindTo (h : I.Scopes s) {a : Scalar} (ha : I.holds s a) (name : String) :
    I.Scopes (s.bindTo name a) where
  bindings b hm := by
    rcases List.mem_cons.mp hm with rfl | hm
    · exact ScalarInvariant.holds_same ha rfl rfl rfl
    · exact ScalarInvariant.holds_same (h.bindings b hm) rfl rfl rfl
  group g hg := ScalarInvariant.holds_same (h.group g hg) rfl rfl rfl

theorem Scopes.setGroup (h : I.Scopes s) {name : String} {row : Scalar} (hrow : I.holds s row) :
    I.Scopes (s.setGroup (some ⟨name, row⟩)) where
  bindings b hm := I.grouped _ (h.bindings b hm)
  group g hg := by
    obtain rfl := Option.some.inj hg
    exact I.grouped _ hrow

theorem Scopes.groupRow? (h : I.Scopes s) {name : String} {a : Scalar}
    (ha : s.groupRow? name = some a) : I.holds s a ∧ s.group ≠ none := by
  unfold Scope.groupRow? at ha
  split at ha
  · rename_i g hg
    split at ha
    · obtain rfl := Option.some.inj ha
      exact ⟨h.group g hg, by rw [hg]; simp⟩
    · cases ha
  · cases ha

theorem built_knows {st : Stage} (hk : t.Knows s) (h : I.Built s st) : I.Built t st :=
  h.mono (fun _ => I.mono hk) fun _ => I.count_mono hk

theorem ended_knows {last : Prop} {st : Stage} (hk : t.Knows s) (h : I.Ended last s st) :
    I.Ended last t st := by
  refine h.mono (fun _ => I.mono hk) ?_ (fun _ => I.count_mono hk) id
  rintro v ⟨g, hv⟩
  exact ⟨g, I.mono (s := s.setGroup (some g)) ⟨hk.names, hk.parameters, rfl⟩ hv⟩

theorem ended_same {last last' : Prop} {st : Stage} (h : I.Ended last s st) (hl : last → last')
    (hn : t.names = s.names) (hp : t.parameters = s.parameters) (hg : t.group = s.group) :
    I.Ended last' t st :=
  (ended_knows (.same hn hp hg) h).mono (fun _ => id) (fun _ => id) (fun _ => id) hl

end Invariant

/-! ## Rows -/

namespace Stage

variable {P : Scalar → Prop} {C : Count → Prop} {st : Stage}

theorem row_replaceSelect (st : Stage) (value : Scalar) :
    (st.replaceSelect value).layer.row = value := by
  refine Layer.row_of_value ?_
  unfold replaceSelect mapLayer
  cases h : st.layer.selection <;> simp only [h] <;> rfl

theorem row_setDistinct (hs : ∀ sel ∈ st.layer.selection, sel.value?.isSome) :
    st.setDistinct.layer.row = st.layer.row := by
  refine Layer.row_of_value ?_
  unfold setDistinct mapLayer
  cases h : st.layer.selection with
  | none =>
    simp only [h]
    rfl
  | some sel =>
    obtain ⟨v, hv⟩ := Option.isSome_iff_exists.mp (hs sel h)
    have hrow : st.layer.row = v := Layer.row_of_value (by rw [h]; exact hv)
    simp only [h, hrow]
    exact hv

/-- Every selection selects a value. -/
theorem Built.selects (h : Built P C st) : ∀ sel ∈ st.layer.selection, sel.value?.isSome := by
  induction h with
  | root | overItems | package => exact fun _ hs => nomatch hs
  | join _ _ _ _ _ ih | filter _ _ _ ih | orderBy _ _ _ ih => exact ih
  | select _ _ _ _ =>
    rintro _ ⟨⟩
    rfl
  | @replaceSelect value st _ _ _ _ =>
    rintro _ ⟨⟩
    cases st.layer.selection <;> rfl
  | @distinct st _ _ ih =>
    rintro _ ⟨⟩
    cases h : st.layer.selection with
    | none => rfl
    | some sel => exact ih sel h
  | thenBy _ _ _ hok ih =>
    obtain ⟨-, rfl⟩ := thenBy_eq_ok.mp hok
    exact ih
  | top _ _ hok ih =>
    obtain ⟨_, _, rfl⟩ := addTop_ok hok
    exact ih
  | offset _ _ _ hok ih =>
    obtain ⟨_, -, rfl⟩ := addOffset_eq_ok.mp hok
    exact ih

/-- The rows of a stage satisfy what its scalars do. -/
theorem Built.row (href : ∀ n, P (.ref n)) (h : Built P C st) : P st.layer.row := by
  induction h with
  | root => exact href _
  | overItems name _ => exact href _
  | package name _ _ => exact href _
  | join name _ _ hs _ _ =>
    rw [addJoin, mapLayer, Layer.row_addJoin, hs]
    exact href _
  | filter _ _ _ ih => exact ih
  | select _ _ hp _ => exact hp
  | replaceSelect _ _ hp _ => rwa [row_replaceSelect]
  | distinct h _ ih => rwa [row_setDistinct h.selects]
  | orderBy _ _ _ ih => exact ih
  | thenBy _ _ _ hok ih =>
    obtain ⟨-, rfl⟩ := thenBy_eq_ok.mp hok
    exact ih
  | top _ _ hok ih =>
    obtain ⟨_, _, rfl⟩ := addTop_ok hok
    exact ih
  | offset _ _ _ hok ih =>
    obtain ⟨_, -, rfl⟩ := addOffset_eq_ok.mp hok
    exact ih

end Stage

/-! ## Constants -/

namespace Compilation

variable {s : Scope}

/-- A constant that is bound to a parameter of the query. -/
theorem Ensures.bindConstant (options : Options) (v : Value) :
    (Compilation.bindConstant options v).Ensures s fun t name =>
      ∀ n ∈ name, ∃ p ∈ t.parameters, p.name = n := by
  have heq := bindConstant_eq options v s
  cases hf : options.parameters.find? (·.value == v) with
  | none =>
    rw [hf] at heq
    exact .of_ok heq (.refl s) fun n hn => nomatch hn
  | some bound =>
    rw [hf] at heq
    dsimp only at heq
    split at heq
    · rename_i hvalid
      refine .of_ok heq (s.grows_useParameter hvalid) fun n hn => ?_
      obtain rfl := Option.some.inj hn
      unfold Scope.useParameter
      split
      · rename_i hused
        obtain ⟨p, hp, hname⟩ := List.any_eq_true.mp hused
        exact ⟨p, hp, eq_of_beq hname⟩
      · exact ⟨_, List.mem_append_right _ List.mem_cons_self, rfl⟩
    · exact .of_error heq rfl

end Compilation

namespace ScalarInvariant

variable (I : ScalarInvariant)

theorem inlined (naming : Naming) (ty : HostType) (v : Value) (s : Scope) :
    (Compilation.inlined naming ty v).Ensures s I.holds := by
  unfold Compilation.inlined
  split
  · refine .bind (.ofHost (Q := fun _ _ => True) fun _ _ => trivial) fun t j _ _ => ?_
    exact .ofExcept (fun a ha => I.data (Json.toScalar_data ha)) fun _ => Json.toScalar_external
  · exact .throw rfl
  · exact .ofExcept (fun a ha => I.data (Value.toScalar_data ha)) fun _ => Value.toScalar_external

/-- A constant that may be bound to a parameter. -/
theorem bound (options : Options) (v : Value) {s : Scope} {x : Compilation Scalar}
    (h : ∀ t, s.Grows t → x.Ensures t I.holds) :
    (do
      match ← Compilation.bindConstant options v with
      | some name => return .parameter name
      | none => x : Compilation Scalar).Ensures s I.holds := by
  refine .bind (.bindConstant options v) fun t name hg hname => ?_
  cases name with
  | none => exact h t hg
  | some name =>
    obtain ⟨p, hp, rfl⟩ := hname name rfl
    exact .pure (I.parameter hp)

theorem plain (options : Options) (ty : HostType) {v : Value} (hv : ∀ items, v ≠ .array items)
    (s : Scope) : (Compilation.constant options ty v).Ensures s I.holds := by
  rw [Compilation.constant.eq_2 _ _ _ fun items he => hv items he]
  by_cases hq : ty.isDocumentQuery = true
  · rw [if_pos hq]
    exact .bind (P := fun _ _ => False) (.throw rfl) fun _ _ _ h => h.elim
  · rw [if_neg hq]
    exact I.bound options v fun t _ => I.inlined options.naming ty v t

mutual

theorem constant (options : Options) (ty : HostType) : ∀ (v : Value) (s : Scope),
    (Compilation.constant options ty v).Ensures s I.holds
  | .array items, s => by
    rw [Compilation.constant]
    by_cases hq : ty.isDocumentQuery = true
    · rw [if_pos hq]
      exact .bind (P := fun _ _ => False) (.throw rfl) fun _ _ _ h => h.elim
    · rw [if_neg hq]
      refine I.bound options (.array items) fun t _ => ?_
      exact .bind (constants options _ items t) fun u as _ has => .pure (I.array has)
  | .null, s | .boolean _, s | .integer _, s | .unsigned _, s | .float _, s | .decimal _, s
  | .char _, s | .string _, s | .guid _, s | .geometry _, s | .object _, s | .query _, s =>
    I.plain options ty (by rintro _ ⟨⟩) s

theorem constants (options : Options) (ty : HostType) : ∀ (vs : List Value) (s : Scope),
    (Compilation.constants options ty vs).Ensures s fun t as => ∀ a ∈ as, I.holds t a
  | [], s => by
    rw [Compilation.constants]
    exact .pure fun a ha => nomatch ha
  | v :: vs, s => by
    rw [Compilation.constants]
    refine .bind (constant options ty v s) fun t a _ ha => ?_
    refine .bind (constants options ty vs t) fun u as hg has => ?_
    exact .pure (List.forall_mem_cons.mpr ⟨I.mono hg.knows ha, has⟩)

end

end ScalarInvariant

/-- The number of rows that an operator takes or skips. -/
theorem Invariant.counts (I : Invariant) (options : Options) (method : String) (arg : Expr)
    (s : Scope) : (Compilation.count options method arg).Ensures s I.count := by
  unfold Compilation.count
  cases (Compilation.stripConversions arg).asConstant? with
  | none => exact .throw rfl
  | some v =>
    refine .bind (.bindConstant options v) fun t name _ hname => ?_
    cases name with
    | some name =>
      obtain ⟨p, hp, rfl⟩ := hname name rfl
      exact .pure (I.parameter_count hp)
    | none =>
      dsimp only
      split
      · split
        · rename_i hn
          exact .pure (I.literal_count hn)
        · exact .throw rfl
      · exact .throw rfl

end LambdaQuery
