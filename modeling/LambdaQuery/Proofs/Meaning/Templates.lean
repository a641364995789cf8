import LambdaQuery.Proofs.Alike.Nodes
import LambdaQuery.Proofs.Meaning.Lambdas

/-!
# Templates of results

The result of a group aggregates the rows of the group at some of its nodes. Apart from these nodes
it is an expression by itself, a template in which parameters stand for the aggregates
(`Expr.Filled`). Where the parameters and what is filled in come out related by a congruence of
scalars, so do template and result (`Expr.Filled.runs`). Every result whose nested queries are
aggregates of the group has a template (`Expr.exists_filled`).
-/

set_option autoImplicit false

namespace LambdaQuery

open Compilation

/-! ## Aggregates of groups -/

inductive GroupAggregate where
  | count
  /-- Of the rows of the group or of what a lambda makes of them. -/
  | of (a : Aggregate) (selector : Option RowLambda)

/-- The expressions of an aggregate of the group `g`, which its lambda does not aggregate again. -/
def GroupAggregate.IsExpr (g : String) : GroupAggregate → Expr → Prop
  | .count, e => ∃ ty, e.Calls "Count" [.parameter g ty]
  | .of a selector, e => ∃ ty args, e.Calls a.method (.parameter g ty :: args) ∧
    RowLambda.AreArgs selector args ∧
      ∀ l ∈ selector, ∀ d : Expr, d.IsPart l.body → d.source? ≠ some g

/-- A nested query, or an operator over the group `g`. -/
def Expr.Queries (g : String) (e : Expr) : Prop :=
  e.source? = some g ∨
    ∃ target method args ty, e = .call target method args ty ∧ isNestedQuery target method args

theorem Expr.Queries.kind {g : String} {e : Expr} (h : e.Queries g) : e.kind = .call := by
  rcases h with h | ⟨_, _, _, _, rfl, -⟩
  · cases e with
    | call => rfl
    | _ => cases h
  · rfl

/-- What the parts of a node satisfy that are queries, where the node is none. -/
theorem Expr.forall_queries {g : String} {P : Expr → Prop} {e : Expr} (he : e.kind ≠ .call)
    (h : ∀ c ∈ e.children, ∀ d : Expr, d.IsPart c → d.Queries g → P d) :
    ∀ d : Expr, d.IsPart e → d.Queries g → P d :=
  Expr.forall_isPart.mpr ⟨fun hq => absurd hq.kind he, h⟩

theorem Expr.forall_queries_parameter {g : String} {P : Expr → Prop} (x : String) (ty : HostType) :
    ∀ d : Expr, d.IsPart (.parameter x ty) → d.Queries g → P d :=
  forall_queries (show Kind.parameter ≠ .call by decide) (List.forall_mem_nil _)

theorem Expr.forall_queries_member {g : String} {P : Expr → Prop} {e : Expr}
    (h : ∀ d : Expr, d.IsPart e → d.Queries g → P d) (m : Member) (ty : HostType) :
    ∀ d : Expr, d.IsPart (.member (some e) m ty) → d.Queries g → P d :=
  forall_queries (show Kind.memberAccess ≠ .call by decide) (List.forall_mem_singleton.mpr h)

/-- An expression that is not compiled by its parts: a lambda is for an operator to compile, a
geometry for the evaluator to construct. -/
def Expr.isWhole : Expr → Bool
  | .lambda .. => true
  | .construct _ _ ty => ty.underlying = .geometry
  | _ => false

/-- A template and what becomes of it when parameters in it are filled in with the aggregates of the
group `g` that they stand for. -/
inductive Expr.Filled (aggregates : Record GroupAggregate) (g : String) : Expr → Expr → Prop where
  | aggregate {x : String} {a : GroupAggregate} {e : Expr} (hx : aggregates.get? x = some a)
    (he : a.IsExpr g e) : Expr.Filled aggregates g (.parameter x e.ty) e
  | parameter {x : String} (ty : HostType) (hx : aggregates.get? x = none) :
    Expr.Filled aggregates g (.parameter x ty) (.parameter x ty)
  | whole {e : Expr} (h : e.isWhole = true) : Expr.Filled aggregates g e e
  | node {e : Expr} {ds : List Expr} (hp : e.hasParams = false) (hw : e.isWhole = false)
    (hq : ¬(e.rebuild ds).Queries g) (hlength : e.children.length = ds.length)
    (h : ∀ p ∈ e.children.zip ds, Expr.Filled aggregates g p.1 p.2) :
    Expr.Filled aggregates g e (e.rebuild ds)

namespace Expr

variable {aggregates : Record GroupAggregate} {g : String} {e e' : Expr}

theorem isWhole_rebuild (e : Expr) (ds : List Expr) : (e.rebuild ds).isWhole = e.isWhole := by
  unfold rebuild
  split <;> rfl

theorem Filled.parts (h : Filled aggregates g e e') (hp : e.hasParams = false)
    (hw : e.isWhole = false) :
    ∃ ds, e' = e.rebuild ds ∧ List.Forall₂ (Filled aggregates g) e.children ds ∧ ¬e'.Queries g := by
  cases h with
  | aggregate | parameter => cases hp
  | whole h => cases hw.symm.trans h
  | node _ _ hq hlength h =>
    exact ⟨_, rfl, List.forall₂_iff_zip.mpr ⟨hlength, fun hp => h _ hp⟩, hq⟩

/-- A node whose parts are filled in. -/
theorem Filled.rebuild {ds : List Expr} (hp : e.hasParams = false) (hw : e.isWhole = false)
    (hq : ¬(e.rebuild ds).Queries g) (h : List.Forall₂ (Filled aggregates g) e.children ds) :
    Filled aggregates g e (e.rebuild ds) :=
  have ⟨hlength, hzip⟩ := List.forall₂_iff_zip.mp h
  .node hp hw hq hlength fun _ hp => hzip hp

end Expr

/-- An aggregate is a call of an operator on the group. -/
theorem GroupAggregate.IsExpr.exists_call {g : String} {a : GroupAggregate} {e : Expr}
    (h : a.IsExpr g e) : ∃ target method ty args ty', method.isOperator = true ∧
      e = .call target method (.parameter g ty :: args) ty' := by
  cases a with
  | count =>
    obtain ⟨ty, target, method, ty', rfl, hop, -⟩ := h
    exact ⟨target, method, ty, [], ty', hop, rfl⟩
  | of a selector =>
    obtain ⟨ty, args, ⟨target, method, ty', rfl, hop, -⟩, -⟩ := h
    exact ⟨target, method, ty, args, ty', hop, rfl⟩

/-! ## What the compilation sees of templates -/

namespace Expr.Filled

variable {aggregates : Record GroupAggregate} {g : String} {e e' : Expr}

theorem ty (h : Filled aggregates g e e') : e.ty = e'.ty := by
  cases h with
  | aggregate | parameter | whole => rfl
  | node => rw [ty_rebuild]

theorem looks (h : Filled aggregates g e e') : Setting.LooksAlike e e' := by
  cases h with
  | parameter | whole => exact ⟨rfl, .rfl, rfl⟩
  | aggregate hx he =>
    obtain ⟨target, method, ty, args, ty', -, rfl⟩ := he.exists_call
    exact ⟨rfl, by simp, rfl⟩
  | @node e ds =>
    have hk := kind_rebuild e ds
    cases e with
    | constant => exact ⟨rfl, .rfl, rfl⟩
    | newArray => exact ⟨rfl, ⟨fun _ => ⟨_, _, rfl⟩, fun _ => ⟨_, _, rfl⟩⟩, rfl⟩
    | _ =>
      generalize Expr.rebuild _ ds = e' at hk
      cases e' <;> cases hk
      exact ⟨rfl, by simp, rfl⟩

theorem items {items items' : List Expr} {ty ty' : HostType}
    (h : Filled aggregates g (.newArray items ty) (.newArray items' ty')) :
    List.Forall₂ (Filled aggregates g) items items' := by
  obtain ⟨ds, he, hds, -⟩ := h.parts rfl rfl
  cases he
  exact hds

/-- The parts of a call in a template. -/
theorem call {target : Option Expr} {method : Method} {args : List Expr} {ty : HostType}
    (h : Filled aggregates g (.call target method args ty) e') :
    ∃ target' args', e' = .call target' method args' ty ∧
      Option.Rel (Filled aggregates g) target target' ∧
      List.Forall₂ (Filled aggregates g) args args' ∧ ¬e'.Queries g := by
  obtain ⟨ds, rfl, hds, hq⟩ := h.parts rfl rfl
  cases target with
  | none => exact ⟨none, ds, rfl, .none, hds, hq⟩
  | some target =>
    obtain ⟨d, ds, hd, hrest, rfl⟩ := List.forall₂_cons_left_iff.mp hds
    exact ⟨some d, ds, rfl, .some hd, hrest, hq⟩

theorem comparedStrings? (h : Filled aggregates g e e') :
    Option.Rel (fun p q => Filled aggregates g p.1.1 q.1.1 ∧ Filled aggregates g p.1.2 q.1.2)
      (Compilation.comparedStrings? e) (Compilation.comparedStrings? e') := by
  have hnone : ∀ {e : Expr}, e.kind ≠ .call → Compilation.comparedStrings? e = none := by
    intro e he
    cases e with
    | call => exact absurd rfl he
    | _ => rfl
  cases h with
  | parameter => exact .none
  | whole hw =>
    rw [hnone fun he => by
      obtain ⟨_, _, _, _, rfl⟩ := exists_call he
      cases hw]
    exact .none
  | aggregate hx he =>
    -- What compares strings is no operator.
    obtain ⟨target, method, ty, args, ty', hop, rfl⟩ := he.exists_call
    have hcompared : Compilation.comparedStrings?
        (.call target method (.parameter g ty :: args) ty') = none := by
      refine Compilation.comparedStrings?.eq_3 _ ?_ ?_ <;>
      · rintro _ _ _ h
        cases h
        cases hop
    rw [hcompared]
    exact .none
  | @node _ ds hp hw hq hlength hds =>
    by_cases he : e.kind = .call
    · obtain ⟨target, method, args, ty, rfl⟩ := exists_call he
      obtain ⟨target', args', he', ht, hargs, -⟩ := (Filled.node hp hw hq hlength hds).call
      rw [he']
      exact comparedStrings?_call ht hargs method ty
    · rw [hnone he, hnone (kind_rebuild e ds ▸ he)]
      exact .none

/-- Templates of what is no nested query are none. -/
theorem isNestedQuery {target target' : Option Expr} {args args' : List Expr} {method : Method}
    (ht : Option.Rel (Filled aggregates g) target target')
    (h : List.Forall₂ (Filled aggregates g) args args')
    (hnot : Compilation.isNestedQuery target' method args' = false) :
    Compilation.isNestedQuery target method args = false := by
  have hcall : ∀ {e e' : Expr}, Filled aggregates g e e' → isOperatorCall e = true →
      isOperatorCall e' = true := by
    intro e e' h he
    cases e with
    | call =>
      obtain ⟨target', args', rfl, -⟩ := h.call
      exact he
    | _ => cases he
  have hhead : args.head?.any isOperatorCall = true → args'.head?.any isOperatorCall = true := by
    cases h with
    | nil => exact id
    | cons hd _ => exact hcall hd
  have hnone : target.isNone = target'.isNone := by cases ht <;> rfl
  unfold Compilation.isNestedQuery at hnot ⊢
  rw [hnone, h.length_eq]
  cases hany : args.head?.any isOperatorCall with
  | true =>
    rw [hhead hany] at hnot
    exact hnot
  | false =>
    cases hany' : args'.head?.any isOperatorCall with
    | false =>
      rw [hany'] at hnot
      exact hnot
    | true =>
      rw [hany', Bool.not_true, Bool.and_false, Bool.not_false, Bool.and_true] at hnot
      rw [hnot, Bool.false_and]

end Expr.Filled

/-! ## Runs of templates -/

/-- What the parameters of a template come out as is related to what comes out of what they are
filled in with. -/
structure Setting.Fills (κ : Setting) (Q : Scope → Scope → Scalar → Scalar → Prop)
    (aggregates : Record GroupAggregate) (g : String) (s s' : Scope) : Prop where
  left : s.group = none
  right : ∀ x, x ≠ g → s'.groupRow? x = none
  aggregate : ∀ {x a e}, aggregates.get? x = some a → a.IsExpr g e → ∀ {t t'}, κ.Step s s' t t' →
    κ.Runs t t' (scalar κ.left (.parameter x e.ty)) (scalar κ.right e) Q
  parameter : ∀ {x}, aggregates.get? x = none → ∀ ty {t t'}, κ.Step s s' t t' →
    κ.Runs t t' (scalar κ.left (.parameter x ty)) (scalar κ.right (.parameter x ty)) Q

namespace Setting.Fills

variable {env : Environment} {Q : Scope → Scope → Scalar → Scalar → Prop}
  {aggregates : Record GroupAggregate} {g : String} {s s' t t' : Scope} {e e' : Expr}

/-- Parts of templates correspond where they come out related. -/
theorem parts (henv : env.Plain) (hQ : (reading env).Congruence Q) {size : Nat}
    (h : ∀ e, sizeOf e < size → ∀ {e'}, e.Filled aggregates g e' → ∀ {t t'},
      (reading env).Step s s' t t' → (reading env).Runs t t' (scalar env e) (scalar env e') Q) :
    (reading env).Parts Q (Expr.Filled aggregates g) size s s' := by
  have hsame : (reading env).Same Q := ⟨rfl, .inl henv.parameters, fun _ => trivial⟩
  constructor
  case ty => exact Expr.Filled.ty
  case looks => exact Expr.Filled.looks
  case items => exact Expr.Filled.items
  case compared => exact fun h => optionRel_mono (fun _ _ hp => ⟨hp, trivial⟩) h.comparedStrings?
  case runs => exact fun he hsize _ _ ht => h _ hsize he ht
  case listed => exact fun _ _ _ _ => hsame.listed hQ _ _
  case arguments => exact fun _ _ _ _ => hsame.constants hQ _ _
  case matched =>
    intro left left' right right' a a' b b' _ _ _ t t' _ ha hb _ _
    show (reading env).Runs t t' (matched env.options.naming left right a b)
      (matched env.options.naming left' right' a' b') _
    rw [henv.matched_eq, henv.matched_eq]
    exact .pure ⟨ha, hb⟩

/-- **A template comes out related to what becomes of it** where its parameters do, by induction on
the template. -/
theorem runs (hfills : (reading env).Fills Q aggregates g s s') (henv : env.Plain)
    (hQ : (reading env).Congruence Q) (h : e.Filled aggregates g e')
    (hstep : (reading env).Step s s' t t') :
    (reading env).Runs t t' (scalar env e) (scalar env e') Q := by
  induction hn : sizeOf e using Nat.strongRecOn generalizing e e' t t' with
  | ind n ih =>
    subst hn
    have hparts : (reading env).Parts Q (Expr.Filled aggregates g) (sizeOf e) t t' :=
      parts henv hQ fun d hd _ hde _ _ hu => ih _ hd hde (hstep.trans hu) rfl
    cases h with
    | aggregate hx ha => exact hfills.aggregate hx ha hstep
    | parameter ty hx => exact hfills.parameter hx ty hstep
    | whole hw =>
      cases e with
      | lambda =>
        rw [Compilation.scalar]
        exact .throw _ _
      | construct args members ty =>
        -- Both sides ask the evaluator for the same geometry.
        have hty : ty.underlying = .geometry := of_decide_eq_true hw
        have hscalar : scalar env (.construct args members ty) = (do
            ofExcept (← ofHost (env.evaluator (.construct args members ty))).toScalar) := by
          cases members <;> rw [Compilation.scalar, if_pos hty]
        rw [hscalar]
        refine .bind (P := fun _ _ => Eq) ?_ fun u u' v v' _ hv => ?_
        · exact (Runs.same _).imp fun _ _ _ _ _ h => h.1
        · subst hv
          exact (Runs.same _).imp fun _ _ _ _ _ h => h.1 ▸ hQ.data (Value.toScalar_data h.2)
      | _ => cases hw
    | @node _ ds hp hw hq hlength hds =>
      have hfilled : e.Filled aggregates g (e.rebuild ds) := .node hp hw hq hlength hds
      cases e with
      | constant v ty =>
        have hsame : (reading env).Same Q := ⟨rfl, .inl henv.parameters, fun _ => trivial⟩
        show (reading env).Runs t t' (scalar env (.constant v ty)) (scalar env (.constant v ty)) Q
        rw [Compilation.scalar]
        exact hsame.constant hQ ty v
      | parameter => cases hp
      | lambda => cases hp
      | call target method args ty =>
        obtain ⟨target', args', he, ht, hargs, hnot⟩ := hfilled.call
        rw [he] at hnot ⊢
        obtain ⟨hsource, hnested⟩ := not_or.mp hnot
        have hnested : isNestedQuery target' method args' = false :=
          Bool.eq_false_iff.mpr fun h => hnested ⟨_, _, _, _, rfl, h⟩
        have hgroup : groupSource? t' method args' = none := by
          rw [groupSource?_eq t' target' method args' ty]
          cases hs : Expr.source? (.call target' method args' ty) with
          | none => rfl
          | some x =>
            have hx : x ≠ g := fun he => hsource (he ▸ hs)
            rw [Option.bind_some, Scope.groupRow?, hstep.right.group]
            exact hfills.right x hx
        have hgroup' : groupSource? t method args = none := by
          have hno : t.groupRow? = fun _ => none := by
            funext x
            rw [Scope.groupRow?, hstep.left.group, hfills.left]
          rw [groupSource?_eq t target method args ty, hno]
          cases Expr.source? (.call target method args ty) <;> rfl
        exact hparts.call hQ ty ht hargs (fun d hd => Expr.sizeOf_child hd) (fun _ => trivial)
          hgroup' hgroup (Expr.Filled.isNestedQuery ht hargs hnested) hnested
      | construct args members ty =>
        exact hparts.node hQ (of_decide_eq_false hw) trivial (List.forall₂_iff_zip.mpr
          ⟨hlength, fun hp => hds _ hp⟩)
      | _ =>
        exact hparts.node hQ trivial trivial (List.forall₂_iff_zip.mpr
          ⟨hlength, fun hp => hds _ hp⟩)

end Setting.Fills

/-! ## Templates of results -/

namespace Expr

variable {g : String}

/-- Names can be given to aggregates. -/
theorem exists_aggregates (as : List GroupAggregate) (names : List String) :
    ∃ aggregates : Record GroupAggregate, (∀ a ∈ as, ∃ x, aggregates.get? x = some a) ∧
      ∀ x ∈ names, aggregates.get? x = none := by
  induction as generalizing names with
  | nil => exact ⟨[], nofun, fun _ _ => rfl⟩
  | cons a as ih =>
    obtain ⟨k, -, hx⟩ := Scope.exists_number names "" 0
    generalize "" ++ toString (0 + k) = x at hx
    obtain ⟨aggregates, has, hnames⟩ := ih (x :: names)
    obtain ⟨hnone, hnames⟩ := List.forall_mem_cons.mp hnames
    refine ⟨(x, a) :: aggregates, List.forall_mem_cons.mpr ⟨⟨x, if_pos rfl⟩, fun b hb => ?_⟩,
      fun y hy => ?_⟩
    · obtain ⟨y, hy⟩ := has b hb
      refine ⟨y, (if_neg ?_).trans hy⟩
      rintro rfl
      rw [hnone] at hy
      cases hy
    · refine (if_neg ?_).trans (hnames y hy)
      rintro rfl
      exact hx hy

/-- What is a template where the aggregates `as` have names other than `names`. -/
def Templated (g : String) (e : Expr) (as : List GroupAggregate) (names : List String) : Prop :=
  ∀ aggregates : Record GroupAggregate, (∀ a ∈ as, ∃ x, aggregates.get? x = some a) →
    (∀ x ∈ names, aggregates.get? x = none) → ∃ template : Expr, template.Filled aggregates g e

theorem exists_templated_all {es : List Expr} (h : ∀ e ∈ es, ∃ as names, e.Templated g as names) :
    ∃ (as : List GroupAggregate) (names : List String), ∀ aggregates : Record GroupAggregate,
      (∀ a ∈ as, ∃ x, aggregates.get? x = some a) → (∀ x ∈ names, aggregates.get? x = none) →
        ∃ templates, List.Forall₂ (Filled aggregates g) templates es := by
  induction es with
  | nil => exact ⟨[], [], fun _ _ _ => ⟨[], .nil⟩⟩
  | cons e es ih =>
    obtain ⟨he, hes⟩ := List.forall_mem_cons.mp h
    obtain ⟨as, names, he⟩ := he
    obtain ⟨bs, names', hes⟩ := ih hes
    refine ⟨as ++ bs, names ++ names', fun aggregates has hnames => ?_⟩
    obtain ⟨has, hbs⟩ := List.forall_mem_append.mp has
    obtain ⟨hnames, hnames'⟩ := List.forall_mem_append.mp hnames
    obtain ⟨template, ht⟩ := he aggregates has hnames
    obtain ⟨templates, hts⟩ := hes aggregates hbs hnames'
    exact ⟨template :: templates, .cons ht hts⟩

/-- By induction on the expression, whose parts that are aggregates get names. -/
theorem exists_templated {e : Expr}
    (h : ∀ d : Expr, d.IsPart e → d.Queries g → ∃ a : GroupAggregate, a.IsExpr g d) :
    ∃ as names, e.Templated g as names := by
  induction hn : sizeOf e using Nat.strongRecOn generalizing e with
  | ind n ih =>
    subst hn
    by_cases hq : e.Queries g
    · obtain ⟨a, ha⟩ := h e .self hq
      refine ⟨[a], [], fun aggregates has _ => ?_⟩
      obtain ⟨x, hx⟩ := has a (List.mem_singleton_self a)
      exact ⟨_, .aggregate hx ha⟩
    cases hw : e.isWhole with
    | true => exact ⟨[], [], fun _ _ _ => ⟨e, .whole hw⟩⟩
    | false =>
      cases hp : e.hasParams with
      | true =>
        cases e with
        | parameter x ty =>
          exact ⟨[], [x], fun _ _ hnames =>
            ⟨_, .parameter ty (hnames x (List.mem_singleton_self x))⟩⟩
        | lambda => cases hw
        | _ => cases hp
      | false =>
        obtain ⟨as, names, hall⟩ := exists_templated_all fun c hc =>
          ih _ (sizeOf_child hc) (fun d hd => h d (hd.child hc)) rfl
        refine ⟨as, names, fun aggregates has hnames => ?_⟩
        obtain ⟨templates, hts⟩ := hall aggregates has hnames
        have hback : (e.rebuild templates).rebuild e.children = e := by
          rw [rebuild_rebuild hts.length_eq.symm rfl, rebuild_children]
        refine ⟨e.rebuild templates, ?_⟩
        have hfilled : Filled aggregates g (e.rebuild templates)
            ((e.rebuild templates).rebuild e.children) :=
          .rebuild ((hasParams_rebuild e _).trans hp) ((isWhole_rebuild e _).trans hw)
            (hback.symm ▸ hq) (by rwa [children_rebuild hts.length_eq])
        rwa [hback] at hfilled

/-- **Results that query nothing but aggregates of the group have templates.** -/
theorem exists_filled {e : Expr}
    (h : ∀ d : Expr, d.IsPart e → d.Queries g → ∃ a : GroupAggregate, a.IsExpr g d) :
    ∃ (aggregates : Record GroupAggregate) (template : Expr), template.Filled aggregates g e := by
  obtain ⟨as, names, htemplated⟩ := exists_templated h
  obtain ⟨aggregates, has, hnames⟩ := exists_aggregates as names
  exact ⟨aggregates, htemplated aggregates has hnames⟩

end Expr

end LambdaQuery
