import LambdaQuery.Proofs.Alike.Flatten
import LambdaQuery.Proofs.Renaming.Shapes
import LambdaQuery.Proofs.Surroundings

/-!
# Two runs of a compilation

A `Setting` has the surroundings of two compilations and says what the scalars that come out of them
may differ in. `Runs κ s s' x y P`: when `y` succeeds from the scope `s'`, so does `x` from `s`,
the scopes have only grown (`Step`), and `P` holds of what came out. The rules for the ways in
which computations are put together are proved here once.
-/

set_option autoImplicit false

namespace LambdaQuery

def Scalar.isMembership : Scalar → Bool
  | .isIn .. => true
  | _ => false

def Scalar.isLiteral : Scalar → Bool
  | .literal _ => true
  | _ => false

/-- What a comparison with a member sees is the same: whether a scalar is read from another one, and
a literal. -/
structure Scalar.SameShape (a b : Scalar) : Prop where
  index : a.isIndex = b.isIndex
  literal : ∀ value, a = .literal value ↔ b = .literal value

theorem Scalar.SameShape.of_form {a b : Scalar} (hindex : a.isIndex = b.isIndex)
    (ha : a.isLiteral = false) (hb : b.isLiteral = false) : a.SameShape b := by
  refine ⟨hindex, fun value => ⟨fun h => ?_, fun h => ?_⟩⟩
  · subst h
    cases ha
  · subst h
    cases hb

theorem Scalar.SameShape.isNonNullLiteral {a b : Scalar} (h : a.SameShape b) :
    a.isNonNullLiteral = b.isNonNullLiteral := by
  cases a with
  | literal value => rw [(h.literal value).mp rfl]
  | _ =>
    cases b with
    | literal value => cases (h.literal value).mpr rfl
    | _ => rfl

structure Setting where
  left : Environment
  right : Environment
  /-- Scalars that stand for each other where the right side uses the given parameters. -/
  leaf : List QueryParameter → Scalar → Scalar → Prop
  count : List QueryParameter → Count → Count → Prop
  /-- What a comparison with a member tells apart. -/
  shape : Scalar → Scalar → Prop
  negation : Prop
  named : Prop
  /-- Whether the left side may fail where the right one succeeds. -/
  lax : Prop
  /-- Whether the items of a listed array are told apart. -/
  lists : Prop
  /-- Whether lambdas have parameters of the same names. -/
  exact : Prop
  /-- The expressions that are compiled. -/
  admits : Expr → Prop
  /-- Sides of a binary operation that is compiled. -/
  apart : Expr → Expr → Prop
  /-- What the right side knows of the parameters that it uses. -/
  reports : QueryParameter → Prop
  evaluator : left.evaluator = right.evaluator
  naming : left.options.naming = right.options.naming
  nameless : exact ∨ right.evaluator.Nameless
  named_exact : named → exact
  leaf_right : ∀ {qs a b}, leaf qs a b → ∃ name, b = .parameter name
  leaf_left : ∀ {qs a b}, leaf qs a b → a.names = [] ∧ a.isAggregate = false ∧
    a.isMembership = false ∧ (Compilation.isObject a = true → lax) ∧
      (lists → ∀ items, a ≠ .array items)
  leaf_shape : ∀ {qs a b}, leaf qs a b → shape a b
  leaf_mono : ∀ {qs rs a b}, qs <+: rs → leaf qs a b → leaf rs a b
  count_mono : ∀ {qs rs a b}, qs <+: rs → count qs a b → count rs a b
  count_literal : ∀ qs a n, count qs a (.literal n) ↔ a = .literal n
  shape_literal : ∀ value, shape (.literal value) (.literal value)
  shape_of : ∀ {a b}, a.isIndex = b.isIndex → a.isLiteral = false → b.isLiteral = false →
    shape a b
  admits_child : ∀ {e d}, admits e → d ∈ e.children → admits d
  admits_contains : ∀ {target method args ty}, admits (.call target method args ty) →
    method.name = "Contains" → lists
  admits_binary : ∀ {op left right ty}, admits (.binary op left right ty) → apart left right
  admits_compared : ∀ {e p}, admits e → Compilation.comparedStrings? e = some p →
    apart p.1.1 p.1.2

/-- What the lambda parameters in scope stand for on both sides, the names that no source may bind,
and which parameters stand for each other. -/
structure Frame where
  pairs : List (Scalar × Scalar)
  left : List String
  right : List String
  binders : Binders

namespace Setting

/-! ## Settings with one environment -/

/-- Where lambda parameters have the same names, the evaluator may look at them. -/
theorem nameless_of_exact (env : Environment) : True ∨ env.evaluator.Nameless := .inl trivial

/-- Parameters stand for parameters of the query on the left side and for scalars of rows on the
right one. -/
def reading (env : Environment) : Setting where
  left := env
  right := env
  leaf _ _ _ := False
  count _ := Eq
  shape _ _ := True
  negation := True
  named := False
  lax := False
  lists := True
  exact := True
  admits _ := True
  apart _ _ := True
  reports _ := True
  evaluator := rfl
  naming := rfl
  nameless := nameless_of_exact env
  named_exact := fun _ => trivial
  leaf_right := False.elim
  leaf_left := False.elim
  leaf_shape := False.elim
  leaf_mono := fun _ h => h
  count_mono := fun _ h => h
  count_literal := fun _ _ _ => Iff.rfl
  shape_literal := fun _ => trivial
  shape_of := fun _ _ _ => trivial
  admits_child := fun _ _ => trivial
  admits_contains := fun _ _ => trivial
  admits_binary := fun _ => trivial
  admits_compared := fun _ _ => trivial

/-- Both sides are compilations with one environment, of expressions that may differ in the names of
parameters where these are not exact. -/
def beside (env : Environment) (exact : Prop) (h : exact ∨ env.evaluator.Nameless) : Setting where
  left := env
  right := env
  leaf _ a b := ∃ name, a = .parameter name ∧ b = .parameter name
  count _ a b := a = b
  shape := Scalar.SameShape
  negation := False
  named := exact
  lax := False
  lists := True
  exact := exact
  admits _ := True
  apart _ _ := True
  reports _ := True
  evaluator := rfl
  naming := rfl
  nameless := h
  named_exact := id
  leaf_right := fun ⟨name, _, hb⟩ => ⟨name, hb⟩
  leaf_left := fun ⟨_, ha, _⟩ => by
    subst ha
    exact ⟨rfl, rfl, rfl, fun h => (nomatch h), fun _ _ h => (nomatch h)⟩
  leaf_shape := fun ⟨_, ha, hb⟩ => by
    subst ha hb
    exact ⟨rfl, fun _ => Iff.rfl⟩
  leaf_mono := fun _ h => h
  count_mono := fun _ h => h
  count_literal := fun _ _ _ => Iff.rfl
  shape_literal := fun _ => ⟨rfl, fun _ => Iff.rfl⟩
  shape_of := .of_form
  admits_child := fun _ _ => trivial
  admits_contains := fun _ _ => trivial
  admits_binary := fun _ => trivial
  admits_compared := fun _ _ => trivial

/-- Both sides are one compilation. -/
abbrev self (env : Environment) : Setting := beside env True (nameless_of_exact env)

/-! ## What may differ -/

variable (κ : Setting)

/-- Alike up to the pairs of the frame. -/
def likeness (qs : List QueryParameter) (F : Frame) : Likeness where
  leaf a b := κ.leaf qs a b ∨ (a, b) ∈ F.pairs ∧ a.names ⊆ F.left ∧ b.names ⊆ F.right
  count := κ.count qs
  negation := κ.negation
  named := κ.named
  left := F.left
  right := F.right
  leaf_names a b h := by
    rcases h with h | ⟨-, ha, hb⟩
    · obtain ⟨name, rfl⟩ := κ.leaf_right h
      rw [(κ.leaf_left h).1]
      exact ⟨List.nil_subset _, List.nil_subset _⟩
    · exact ⟨ha, hb⟩
  count_literal := κ.count_literal qs

variable {κ} in
/-- Renamed expressions have the same value. -/
theorem evaluated {B : Binders} {e e' : Expr} {v : Value}
    (hB : κ.exact → ∀ x y, B.names x y → x = y) (h : e.Renamed κ.exact B e')
    (hv : κ.right.evaluator e' = .ok v) : κ.left.evaluator e = .ok v := by
  rw [κ.evaluator]
  rcases κ.nameless with he | hn
  · rwa [h.eq_of_exact he (hB he)]
  · exact hn B.names e e' v (h.inexact.mono B.le_lexical) hv

/-- What the compilation sees of a scalar. -/
structure Facts (a b : Scalar) : Prop where
  shape : κ.shape a b
  aggregate : a.isAggregate = b.isAggregate
  object : Compilation.isObject a = true → Compilation.isObject b = true ∨ κ.lax
  membership : a.isMembership = true → b.isMembership = true
  negation : b.isMembership = true → a.isMembership = true ∨ κ.negation

end Setting

/-! ## Scopes -/

/-- The names in use that are not those of merged layers. -/
def Scope.live (s : Scope) : List String := s.names.filter (!s.merged.contains ·)

theorem Scope.mem_live {s : Scope} {n : String} : n ∈ s.live ↔ n ∈ s.names ∧ n ∉ s.merged := by
  simp [live]

theorem Scope.live_subset (s : Scope) : s.live ⊆ s.names := List.filter_subset_self _

/-- Besides, no live name is that of a merged layer. -/
structure Scope.Keeps (s t : Scope) : Prop extends s.Grows t where
  merged : s.merged ⊆ s.names → t.merged ⊆ t.names
  live : s.live ⊆ t.live

theorem Scope.Keeps.refl (s : Scope) : s.Keeps s := ⟨.refl s, id, List.Subset.refl _⟩

theorem Scope.Keeps.trans {s t u : Scope} (h : s.Keeps t) (h' : t.Keeps u) : s.Keeps u where
  toGrows := h.toGrows.trans h'.toGrows
  merged hs := h'.merged (h.merged hs)
  live := List.Subset.trans h.live h'.live

/-- From some scope the computation comes to the result. -/
def Compilation.Reaches {α : Type} (x : Compilation α) (a : α) : Prop :=
  ∃ s t, x s = (.ok a, t)

namespace Setting

variable (κ : Setting)

/-- Both scopes have grown, by the same names if names are the same. -/
structure Step (s s' t t' : Scope) : Prop where
  left : s.Keeps t
  right : s'.Grows t'
  named : κ.named → s.names = s'.names → t.names = t'.names
  reported : (∀ p ∈ s'.parameters, κ.reports p) → ∀ p ∈ t'.parameters, κ.reports p

theorem Step.refl (s s' : Scope) : κ.Step s s' s s' :=
  ⟨.refl s, .refl s', fun _ h => h, id⟩

variable {κ}

theorem Step.trans {s s' t t' u u' : Scope} (h : κ.Step s s' t t') (h' : κ.Step t t' u u') :
    κ.Step s s' u u' :=
  ⟨h.left.trans h'.left, h.right.trans h'.right, fun hn hs => h'.named hn (h.named hn hs),
    fun hr => h'.reported (h.reported hr)⟩

variable (κ)

/-- Scopes that bind the pairs of a frame: corresponding parameters stand for something on both
sides or on none. -/
structure Scopes (F : Frame) (s s' : Scope) : Prop where
  lookup? : ∀ {x y}, F.binders.names x y →
    Option.Rel (fun a b => (a, b) ∈ F.pairs) (s.lookup? x) (s'.lookup? y)
  groupRow? : ∀ {x y}, F.binders.sources x y →
    Option.Rel (fun a b => (a, b) ∈ F.pairs ∧ s'.group ≠ none) (s.groupRow? x) (s'.groupRow? y)
  exact : κ.exact → ∀ x y, F.binders.names x y → x = y
  strict : F.binders.strict
  facts : ∀ p ∈ F.pairs, κ.Facts p.1 p.2
  single : s'.group = none → ∀ p ∈ F.pairs, p.2.isAggregate = false
  names : ∀ p ∈ F.pairs, p.1.names ⊆ F.left ∧ p.2.names ⊆ F.right
  live : ∀ p ∈ F.pairs, p.1.names ⊆ s.live
  left : F.left ⊆ s.names
  right : F.right ⊆ s'.names
  depth : s.depth = s'.depth
  named : κ.named → s.names = s'.names
  operation : s.operation ≠ some .none
  operation' : s'.operation ≠ some .none
  merged : s.merged ⊆ s.names

variable {κ} {F : Frame} {s s' t t' : Scope}

theorem Scopes.step (h : κ.Scopes F s s') (hs : κ.Step s s' t t') : κ.Scopes F t t' where
  lookup? hxy := by
    rw [Scope.lookup?, Scope.lookup?, hs.left.bindings, hs.right.bindings]
    exact h.lookup? hxy
  groupRow? hxy := by
    rw [Scope.groupRow?, Scope.groupRow?, hs.left.group, hs.right.group]
    exact h.groupRow? hxy
  exact := h.exact
  strict := h.strict
  facts := h.facts
  single := by
    rw [hs.right.group]
    exact h.single
  names := h.names
  live p hp := List.Subset.trans (h.live p hp) hs.left.live
  left := List.Subset.trans h.left hs.left.names
  right := List.Subset.trans h.right hs.right.names
  depth := by rw [hs.left.depth, hs.right.depth, h.depth]
  named hn := hs.named hn (h.named hn)
  operation := hs.left.operation h.operation
  operation' := hs.right.operation h.operation'
  merged := hs.left.merged h.merged

/-! ## Runs -/

variable (κ)

/-- When `y` succeeds from `s'`, so does `x` from `s`, unless it may fail, and `P` holds of the
scopes and results. -/
def Runs {α β : Type} (s s' : Scope) (x : Compilation α) (y : Compilation β)
    (P : Scope → Scope → α → β → Prop) : Prop :=
  ∀ b t', y s' = (.ok b, t') →
    (∃ a t, x s = (.ok a, t) ∧ κ.Step s s' t t' ∧ P t t' a b) ∨
      κ.lax ∧ ∃ e t, x s = (.error e, t)

variable {κ}

namespace Runs

variable {α β γ δ : Type} {x : Compilation α} {y : Compilation β}
  {P : Scope → Scope → α → β → Prop}

protected theorem pure {a : α} {b : β} (h : P s s' a b) :
    κ.Runs s s' (pure a) (pure b) P := by
  intro b' t' hy
  cases hy
  exact .inl ⟨a, s, rfl, .refl κ s s', h⟩

protected theorem throw (x : Compilation α) (e : CompileError) :
    κ.Runs s s' x (throw e : Compilation β) P := by
  intro b t' hy
  cases hy

protected theorem bind {f : α → Compilation γ} {g : β → Compilation δ}
    {Q : Scope → Scope → γ → δ → Prop} (h : κ.Runs s s' x y P)
    (hf : ∀ t t' a b, κ.Step s s' t t' → P t t' a b → κ.Runs t t' (f a) (g b) Q) :
    κ.Runs s s' (x >>= f) (y >>= g) Q := by
  intro d u' hy
  rw [Compilation.run_bind] at hy
  rcases hys : y s' with ⟨r, t'⟩
  rw [hys] at hy
  cases r with
  | error e => cases hy
  | ok b =>
    rcases h b t' hys with ⟨a, t, hx, hst, hp⟩ | ⟨hl, e, t, hx⟩
    · rcases hf t t' a b hst hp d u' hy with ⟨c, u, hxu, hst', hp'⟩ | ⟨hl, e, u, hxu⟩
      · exact .inl ⟨c, u, by rw [Compilation.run_bind, hx]; exact hxu, hst.trans hst', hp'⟩
      · exact .inr ⟨hl, e, u, by rw [Compilation.run_bind, hx]; exact hxu⟩
    · exact .inr ⟨hl, e, t, by rw [Compilation.run_bind, hx]⟩

/-- A weaker conclusion. -/
theorem imp {Q : Scope → Scope → α → β → Prop} (h : κ.Runs s s' x y P)
    (hp : ∀ t t' a b, κ.Step s s' t t' → P t t' a b → Q t t' a b) :
    κ.Runs s s' x y Q := by
  intro b t' hy
  rcases h b t' hy with ⟨a, t, hx, hst, hpost⟩ | h
  · exact .inl ⟨a, t, hx, hst, hp t t' a b hst hpost⟩
  · exact .inr h

/-- The right result is one that the right computation comes to. -/
theorem reached (h : κ.Runs s s' x y P) :
    κ.Runs s s' x y fun t t' a b => P t t' a b ∧ y.Reaches b := by
  intro b t' hy
  rcases h b t' hy with ⟨a, t, hx, hst, hp⟩ | h
  · exact .inl ⟨a, t, hx, hst, hp, s', t', hy⟩
  · exact .inr h

theorem congr {x' : Compilation α} {y' : Compilation β} (hx : x s = x' s) (hy : y s' = y' s')
    (h : κ.Runs s s' x' y' P) : κ.Runs s s' x y P := by
  intro b t' hb
  rw [hx]
  exact h b t' (hy ▸ hb)

theorem get_bind {f : Scope → Compilation α} {g : Scope → Compilation β}
    (h : κ.Runs s s' (f s) (g s') P) : κ.Runs s s' (get >>= f) (get >>= g) P :=
  h.congr (Compilation.run_bind get f s) (Compilation.run_bind get g s')

protected theorem ofExcept {x : Except CompileError α} {y : Except CompileError β}
    (h : ∀ b, y = .ok b → (∃ a, x = .ok a ∧ P s s' a b) ∨ κ.lax ∧ ∃ e, x = .error e) :
    κ.Runs s s' (ofExcept x) (ofExcept y) P := by
  intro b t' hy
  cases y with
  | error e => cases hy
  | ok b' =>
    cases hy
    rcases h b rfl with ⟨a, rfl, hp⟩ | ⟨hl, e, rfl⟩
    · exact .inl ⟨a, s, rfl, .refl κ s s', hp⟩
    · exact .inr ⟨hl, e, s, rfl⟩

/-- The same result on both sides. -/
theorem same (x : Except CompileError α) :
    κ.Runs s s' (ofExcept x) (ofExcept x) fun _ _ a b => a = b ∧ x = .ok a :=
  Runs.ofExcept fun b hb => .inl ⟨b, hb, rfl, hb⟩

/-! ### Renamed expressions -/

section

variable {e e' : Expr} (h : e.Renamed κ.exact F.binders e')

include h

/-- What an evaluated expression is. -/
theorem evaluated (hs : κ.Scopes F s s') :
    κ.Runs s s' (Compilation.ofHost (κ.left.evaluator e))
      (Compilation.ofHost (κ.right.evaluator e')) fun _ _ v v' => v = v' := by
  refine .ofExcept fun v hv => .inl ⟨v, ?_, rfl⟩
  cases hv' : κ.right.evaluator e' with
  | error error =>
    rw [hv'] at hv
    cases hv
  | ok v' =>
    rw [hv'] at hv
    cases hv
    rw [Setting.evaluated hs.exact h hv']
    rfl

/-- The lambda of an operator. -/
theorem selector (method : String) :
    κ.Runs s s' (ofExcept (Compilation.selector? method e))
      (ofExcept (Compilation.selector? method e'))
      fun _ _ l l' => (κ.exact → l.param = l'.param) ∧
        l.body.Renamed κ.exact (F.binders.bind l.param l'.param) l'.body ∧
          Compilation.selector? method e = .ok l :=
  .ofExcept fun _ hl' =>
    have ⟨l, hl, hname, hbody⟩ := h.selector? hl'
    .inl ⟨l, hl, hname, hbody, hl⟩

/-- The lambda of a group's result. -/
theorem resultSelector :
    κ.Runs s s' (ofExcept (Compilation.resultSelector? e))
      (ofExcept (Compilation.resultSelector? e'))
      fun _ _ r r' => (κ.exact → r.key = r'.key ∧ r.group = r'.group) ∧
        r.body.Renamed κ.exact (((F.binders.bind r.group r'.group).bind r.key r'.key).group
          r.group r'.group) r'.body ∧ Compilation.resultSelector? e = .ok r :=
  .ofExcept fun _ hr' =>
    have ⟨r, hr, hname, hbody⟩ := h.resultSelector? hr'
    .inl ⟨r, hr, hname, hbody, hr⟩

end

/-! ### Surroundings -/

/-- Surroundings that are left as they were found. -/
theorem within {enter enter' : Scope → Scope} {leave leave' : Scope → Scope → Scope}
    {Q : Scope → Scope → α → β → Prop} (h : κ.Runs (enter s) (enter' s') x y P)
    (hs : ∀ t t', κ.Step (enter s) (enter' s') t t' →
      κ.Step s s' (leave s t) (leave' s' t') ∧
        ∀ a b, P t t' a b → Q (leave s t) (leave' s' t') a b) :
    κ.Runs s s' (Compilation.within enter leave x) (Compilation.within enter' leave' y) Q := by
  intro b u' hy
  simp only [Compilation.within] at hy ⊢
  rcases hys : y (enter' s') with ⟨r, t'⟩
  rw [hys] at hy
  cases hy
  rcases h b t' hys with ⟨a, t, hx, hst, hp⟩ | ⟨hl, e, t, hx⟩
  · rw [hx]
    exact .inl ⟨a, _, rfl, (hs t t' hst).1, (hs t t' hst).2 a b hp⟩
  · rw [hx]
    exact .inr ⟨hl, e, _, rfl⟩

theorem withMethod {Q : Scope → Scope → α → β → Prop} (method : String)
    (h : κ.Runs (s.pushMethod method) (s'.pushMethod method) x y P)
    (hp : ∀ t t' a b, P t t' a b →
      Q { t with methods := s.methods } { t' with methods := s'.methods } a b) :
    κ.Runs s s' (Compilation.withMethod method x) (Compilation.withMethod method y) Q :=
  h.within fun t t' hs => by
    rw [hs.left.popMethod, hs.right.popMethod]
    exact ⟨⟨{ hs.left with methods := rfl }, { hs.right with methods := rfl }, hs.named,
      hs.reported⟩, hp t t'⟩

theorem withCollection {Q : Scope → Scope → α → β → Prop} (c c' : Collection)
    (h : κ.Runs (s.pushCollection c) (s'.pushCollection c') x y P)
    (hp : ∀ t t' a b, P t t' a b →
      Q { t with collections := s.collections } { t' with collections := s'.collections } a b) :
    κ.Runs s s' (Compilation.withCollection c x) (Compilation.withCollection c' y) Q :=
  h.within fun t t' hs => by
    rw [hs.left.popCollection, hs.right.popCollection]
    exact ⟨⟨{ hs.left with collections := rfl }, { hs.right with collections := rfl }, hs.named,
      hs.reported⟩, hp t t'⟩

theorem withParameter {Q : Scope → Scope → α → β → Prop} {name name' : String} (a a' : Scalar)
    (h : κ.Runs (s.bindTo name a) (s'.bindTo name' a') x y P)
    (hp : ∀ t t' a b, P t t' a b →
      Q { t with bindings := s.bindings } { t' with bindings := s'.bindings } a b) :
    κ.Runs s s' (Compilation.withParameter name a x) (Compilation.withParameter name' a' y) Q :=
  h.within fun t t' hs => by
    rw [hs.left.unbind, hs.right.unbind]
    exact ⟨⟨{ hs.left with bindings := rfl }, { hs.right with bindings := rfl }, hs.named,
      hs.reported⟩, hp t t'⟩

theorem withGroup {Q : Scope → Scope → α → β → Prop} (g g' : GroupScope)
    (h : κ.Runs (s.setGroup (some g)) (s'.setGroup (some g')) x y P)
    (hp : ∀ t t' a b, P t t' a b →
      Q { t with group := s.group } { t' with group := s'.group } a b) :
    κ.Runs s s' (Compilation.withGroup g x) (Compilation.withGroup g' y) Q :=
  h.within fun t t' hs =>
    ⟨⟨{ hs.left with group := rfl }, { hs.right with group := rfl }, hs.named, hs.reported⟩,
      hp t t'⟩

theorem nested {Q : Scope → Scope → α → β → Prop}
    (h : κ.Runs s.enterSubquery s'.enterSubquery x y P)
    (hp : ∀ t t' a b, P t t' a b →
      Q { t with depth := s.depth, methods := s.methods }
        { t' with depth := s'.depth, methods := s'.methods } a b) :
    κ.Runs s s' (Compilation.nested x) (Compilation.nested y) Q :=
  h.within fun t t' hs => by
    rw [hs.left.exitSubquery, hs.right.exitSubquery]
    exact ⟨⟨{ hs.left with
        depth := rfl, methods := rfl, silent := fun _ => hs.left.silent (Nat.succ_ne_zero _) },
      { hs.right with
        depth := rfl, methods := rfl, silent := fun _ => hs.right.silent (Nat.succ_ne_zero _) },
      hs.named, hs.reported⟩, hp t t'⟩

end Runs

/-! ## Fresh names -/

/-- Names that were not in use and now are. -/
structure Fresh (s s' t t' : Scope) (n m : String) : Prop where
  left : n ∉ s.names
  right : m ∉ s'.names
  mem_left : n ∈ t.live
  mem_right : m ∈ t'.names
  named : κ.named → n = m

theorem Fresh.notLive {n m : String} (h : κ.Fresh s s' t t' n m) : n ∉ s.live :=
  fun hn => h.left (s.live_subset hn)

theorem keeps_fresh (s : Scope) (base : String) : s.Keeps (s.fresh base).2 := by
  refine ⟨s.grows_fresh base, ?_, fun n hn => ?_⟩
  · rw [s.fresh_eq]
    exact fun h => List.Subset.trans h (List.subset_cons_self ..)
  · obtain ⟨hn, hm⟩ := Scope.mem_live.mp hn
    rw [s.fresh_eq]
    exact Scope.mem_live.mpr ⟨List.mem_cons_of_mem _ hn, hm⟩

theorem step_fresh {base base' : String} (h : κ.named → base = base') :
    κ.Step s s' (s.fresh base).2 (s'.fresh base').2 := by
  refine ⟨keeps_fresh s base, s'.grows_fresh base', fun hn hs => ?_, fun h => ?_⟩
  · rw [h hn, s.fresh_eq, s'.fresh_eq]
    simp only [Scope.fresh_name hs, hs]
  · rw [s'.fresh_eq]
    exact h

theorem fresh_live {s : Scope} (h : s.merged ⊆ s.names) (base : String) :
    (s.fresh base).1 ∈ (s.fresh base).2.live := by
  have hnew := s.fresh_notMem base
  rw [Scope.mem_live, s.fresh_eq]
  exact ⟨List.mem_cons_self, fun hm => hnew (h hm)⟩

theorem fresh_fresh (h : κ.Scopes F s s') {base base' : String} (hb : κ.named → base = base') :
    κ.Fresh s s' (s.fresh base).2 (s'.fresh base').2 (s.fresh base).1 (s'.fresh base').1 where
  left := s.fresh_notMem base
  right := s'.fresh_notMem base'
  mem_left := fresh_live h.merged base
  mem_right := by
    rw [s'.fresh_eq]
    exact List.mem_cons_self
  named hn := hb hn ▸ Scope.fresh_name (h.named hn) base

theorem Runs.fresh (h : κ.Scopes F s s') (base : String) :
    κ.Runs s s' (Compilation.fresh base) (Compilation.fresh base) (κ.Fresh s s') := by
  intro b t' hy
  cases hy
  exact .inl ⟨_, _, rfl, κ.step_fresh fun _ => rfl, fresh_fresh h fun _ => rfl⟩

/-! ## Requests of the caller -/

theorem Runs.setOperation (h : κ.Scopes F s s') :
    κ.Runs s s' (Compilation.setOperation .firstOrDefault)
      (Compilation.setOperation .firstOrDefault) fun _ _ _ _ => True := by
  have hset : ∀ s : Scope, s.operation ≠ some .none →
      ∃ t, Compilation.setOperation .firstOrDefault s = (.ok (), t) ∧ s.Keeps t ∧
        t.names = s.names ∧ t.parameters = s.parameters := by
    intro s hs
    unfold Compilation.setOperation
    rw [Compilation.run_bind]
    show ∃ t, (if s.inSubquery = true then _ else _ : Compilation Unit) s = _ ∧ _
    by_cases hd : s.inSubquery = true
    · exact ⟨s, by rw [if_pos hd]; rfl, .refl s, rfl, rfl⟩
    · rw [if_neg hd]
      cases ho : s.operation with
      | none =>
        exact ⟨_, rfl, { Scope.Keeps.refl s with
          operation := fun _ => by simp
          silent := fun h => absurd (bne_iff_ne.mpr h) hd }, rfl, rfl⟩
      | some op =>
        cases op with
        | none => exact absurd ho hs
        | firstOrDefault => exact ⟨s, rfl, .refl s, rfl, rfl⟩
  intro b u' hy
  obtain ⟨t, ht, hg, hn, -⟩ := hset s h.operation
  obtain ⟨t', ht', hg', hn', hp'⟩ := hset s' h.operation'
  rw [ht'] at hy
  cases hy
  exact .inl ⟨(), t, ht, ⟨hg, hg'.toGrows, fun _ he => by rw [hn, hn', he], fun hr => hp' ▸ hr⟩,
    trivial⟩

theorem Runs.requireLast (h : s.methods = s'.methods) (method : String) :
    κ.Runs s s' (Compilation.requireLast method) (Compilation.requireLast method)
      fun _ _ _ _ => s'.methods.length = 1 := by
  refine .get_bind ?_
  have ho : s.isOutermost = s'.isOutermost := by rw [Scope.isOutermost, Scope.isOutermost, h]
  rw [ho]
  cases hl : s'.isOutermost with
  | false => exact .throw _ _
  | true => exact .pure (of_decide_eq_true hl)

/-! ## Stages -/

theorem Runs.edit {stage stage' : Stage} {change change' : Stage.Edit Unit}
    {P : Scope → Scope → Stage → Stage → Prop}
    (h : ∀ u', change' stage' = (.ok (), u') →
      ∃ u, change stage = (.ok (), u) ∧ P s s' u u') :
    κ.Runs s s' (Compilation.edit stage change) (Compilation.edit stage' change') P := by
  intro b t' hy
  unfold Compilation.edit at hy ⊢
  rcases hc : change' stage' with ⟨r, u'⟩
  rw [hc] at hy
  cases r with
  | error e => cases hy
  | ok r =>
    cases hy
    obtain ⟨u, hu, hp⟩ := h _ hc
    rw [hu]
    exact .inl ⟨u, s, rfl, .refl κ s s', hp⟩

end Setting

end LambdaQuery
