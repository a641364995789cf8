import LambdaQuery.Proofs.Meaning.Atoms
import LambdaQuery.Proofs.Meaning.Inversion
import LambdaQuery.Proofs.Meaning.Templates

/-!
# Results of groups

What the result of a group makes of a key and of the rows that have it (`GroupLambda.ofGroup`): its
template is read by itself, with the key for one parameter and the aggregates of the rows
(`GroupAggregate.value`) for others. In a query, where the key is read on a row of the group, the
result has the same value on all of them (`Scope.Around.ofGroup`).
-/

set_option autoImplicit false

namespace LambdaQuery

open Compilation

/-! ## Results of groups -/

/-- A lambda over a key and the rows that have it, of which parameters of the body stand for
aggregates. -/
structure GroupLambda where
  key : String
  group : String
  aggregates : Record GroupAggregate
  /-- The template of the result. -/
  body : Expr

def GroupLambda.IsArg (r : GroupLambda) (arg : Expr) : Prop :=
  ∃ ty ty' body, arg.asLambda?.map Subtype.val = some ⟨[⟨r.key, ty⟩, ⟨r.group, ty'⟩], body⟩ ∧
    r.body.Filled r.aggregates r.group body

/-- The lambda that is taken for the result, of a key and the rows that have it. -/
theorem Expr.resultSelector? {arg : Expr} {k g : Param} {body : Expr}
    (h : arg.asLambda?.map Subtype.val = some ⟨[k, g], body⟩) :
    ∃ hsize, Compilation.resultSelector? arg = .ok ⟨k.name, g.name, body, hsize⟩ := by
  obtain ⟨⟨_, hsize⟩, h, rfl⟩ := Option.map_eq_some_iff.mp h
  refine ⟨hsize, ?_⟩
  unfold Compilation.resultSelector?
  rw [h]

theorem GroupLambda.IsArg.filled {r : GroupLambda} {arg : Expr} (hr : r.IsArg arg) {k g : Param}
    {body : Expr} (h : arg.asLambda?.map Subtype.val = some ⟨[k, g], body⟩) :
    r.key = k.name ∧ r.group = g.name ∧ r.body.Filled r.aggregates r.group body := by
  obtain ⟨ty, ty', body', h', hfilled⟩ := hr
  cases h.symm.trans h'
  exact ⟨rfl, rfl, hfilled⟩

/-- Lambdas whose bodies query nothing but aggregates of their group are such arguments. -/
theorem GroupLambda.exists_isArg {arg : Expr} {k g : Param} {body : Expr}
    (h : arg.asLambda?.map Subtype.val = some ⟨[k, g], body⟩)
    (hqueries : ∀ d : Expr, d.IsPart body → d.Queries g.name →
      ∃ a : GroupAggregate, a.IsExpr g.name d) : ∃ r : GroupLambda, r.IsArg arg := by
  obtain ⟨aggregates, template, hfilled⟩ := Expr.exists_filled hqueries
  exact ⟨⟨k.name, g.name, aggregates, template⟩, k.ty, g.ty, body, h, hfilled⟩

section

variable {V : Type} [DecidableEq V] (env : Environment) (D : Database V) (L : Locals V)

/-- The value of an aggregate of the rows that have the key `k`, which `key` stands for. There is
none where a lambda cannot be read. -/
def GroupAggregate.value (key : String) (k : V) (rows : List V) : GroupAggregate → V
  | .count => D.count rows.length
  | .of a none => (D.aggregate a.function (rows.map ([·]))).getD (D.literal .undefined)
  | .of a (some l) =>
    match l.ofItem env D L key with
    | .ok f => (D.aggregate a.function (rows.map fun v => [f k v])).getD (D.literal .undefined)
    | .error _ => D.literal .undefined

/-- What the parameters of a result stand for. -/
def GroupLambda.values (r : GroupLambda) (k : V) (rows : List V) : Valuation V := fun x =>
  match r.aggregates.get? x with
  | some a => a.value env D L r.key k rows
  | none => Function.update L.values r.key k x

def GroupLambda.params (r : GroupLambda) : List String :=
  r.aggregates.map (·.1) ++ r.key :: L.params

/-- **What a result makes of a key and the rows that have it.** -/
def GroupLambda.ofGroup (r : GroupLambda) : Except CompileError (V → List V → V) := do
  let f ← r.body.meaning env D L.depth (r.params L)
  return fun k rows => f (r.values env D L k rows)

end

/-- On any row of a group with one key, a scalar has the value that a result makes of the key and
the rows. -/
def Scalar.Results {V : Type} [DecidableEq V] (D : Database V) (row key value : Scalar)
    (result : V → List V → V) : Prop :=
  ∀ k group, (∀ ρ ∈ group, key.eval D ρ none = k) → ∀ ρ ∈ group,
    value.evalOver D group ρ = result k (group.map (row.eval D · none))

/-! ## Scopes of results -/

variable {V : Type} {L : Locals V}

namespace Scope

theorem Around.grows {s t : Scope} (h : s.Around L) (hg : s.Grows t) : t.Around L :=
  ⟨hg.bindings.trans h.bindings, hg.depth.trans h.depth, hg.group.trans h.group,
    hg.operation h.operation⟩

theorem Valid.grows {s t : Scope} (h : s.Valid) (hg : s.Grows t) : t.Valid where
  names b hb := List.Subset.trans (h.names b (hg.bindings ▸ hb)) hg.names
  single b hb := h.single b (hg.bindings ▸ hb)
  operation := hg.operation h.operation

/-- The scope of a result, where its key and the rows of its group stand for scalars. -/
abbrev grouping (t : Scope) (r : GroupLambda) (key row : Scalar) : Scope :=
  (t.bindTo r.key key).setGroup (some ⟨r.group, row⟩)

namespace Around

variable {t : Scope} {r : GroupLambda} {row key : Scalar}

theorem grouping_valid (h : t.Around L) (hkey : key.IsRow t) : (t.grouping r key row).Valid :=
  have hvalid := h.valid.bindTo hkey r.key
  ⟨hvalid.names, hvalid.single, hvalid.operation⟩

end Around

end Scope

/-! ## Aggregates in results -/

/-- An operator over the group in scope is an aggregate of it. -/
theorem Compilation.scalar_aggregate {env : Environment} {s : Scope} {row : Scalar} {g : String}
    (hgroup : s.group = some ⟨g, row⟩) (target : Option Expr) {method : Method}
    (hop : method.isOperator = true) (ty ty' : HostType) (rest : List Expr) :
    scalar env (.call target method (.parameter g ty :: rest) ty') s =
      groupAggregate env method.name (.parameter g ty :: rest) row s := by
  have huser : method.declaring ≠ .userFunction := by
    intro h
    rw [Method.isOperator, h] at hop
    cases hop
  have hrow : s.groupRow? g = some row := by
    rw [Scope.groupRow?, hgroup]
    exact if_pos rfl
  have hsource : groupSource? s method (.parameter g ty :: rest) = some row := by
    rw [groupSource?, if_pos hop, hrow]
  have hget : (get : Compilation Scope) s = (.ok s, s) := rfl
  rw [Compilation.scalar, if_neg huser, Compilation.run_bind, hget]
  dsimp only
  rw [hsource]

variable [DecidableEq V] {D : Database V} {env : Environment} {t : Scope} {r : GroupLambda}
  {row key : Scalar}

namespace Scope.Around

variable (h : t.Around L) (hL : D.parameter = L.values) (hkey : key.IsRow t) {k : V}
  {group : List (Valuation V)} (hk : ∀ ρ ∈ group, key.eval D ρ none = k)

include h hL hkey hk

/-- What a lambda of an aggregate is worth on the rows of a group. -/
theorem aggregated_lambda (hD : D.Lawful) (henv : env.Plain) (hrow : row.IsRow t) {l : RowLambda}
    (hapart : ∀ d : Expr, d.IsPart l.body → d.source? ≠ some r.group) {u u' : Scope}
    (hu : (t.grouping r key row).Grows u) {b : Scalar}
    (hrun : scalar env l.body (u.bindTo l.param row) = (.ok b, u')) :
    ∃ f, l.ofItem env D L r.key = .ok f ∧
      ∀ ρ ∈ group, b.eval D ρ none = f k (row.eval D ρ none) := by
  have hvalid : (u.bindTo l.param row).Valid :=
    ((h.grouping_valid hkey).grows hu).bindTo (hrow.mono hu.names) l.param
  have hsources : ∀ x, x ≠ r.group → (u.bindTo l.param row).outside.sources x x := by
    intro x hx
    refine ⟨rfl, ?_⟩
    show u.groupRow? x = none
    rw [Scope.groupRow?, hu.group]
    exact if_neg (Ne.symm hx)
  have hrenamed : l.body.Renamed True (u.bindTo l.param row).outside l.body :=
    .refl_of_sources ⟨fun _ => rfl, hsources⟩ fun d hd x hx he => hapart d hd (he ▸ hx)
  obtain ⟨f, hmeaning, hvalue, -⟩ := hvalid.meaning hD henv hrenamed hrun
  have hparams : (u.bindTo l.param row).params = l.param :: r.key :: L.params := by
    have hbound : u.params = r.key :: L.params :=
      (congrArg _ hu.bindings).trans (congrArg (List.cons r.key) h.params)
    exact congrArg (List.cons l.param) hbound
  have hdepth : (u.bindTo l.param row).depth = L.depth := hu.depth.trans h.depth
  rw [hparams, hdepth] at hmeaning
  refine ⟨fun k v => f (Function.update (Function.update L.values r.key k) l.param v),
    by rw [RowLambda.ofItem, hmeaning]; rfl, fun ρ hρ => hvalue ρ _ ?_⟩
  have hbound : u.Values D ρ (Function.update L.values r.key k) := by
    intro x a ha
    rw [Scope.lookup?, hu.bindings] at ha
    rw [← hk ρ hρ]
    exact (h.values hL ρ).bindTo r.key key x a ha
  exact hbound.bindTo l.param row

/-- **An aggregate of the group has the value that it has on the rows of the group.** -/
theorem aggregated (hD : D.Lawful) (henv : env.Plain) (hrow : row.IsRow t) {a : GroupAggregate}
    {e : Expr} (ha : a.IsExpr r.group e) {u u' : Scope} (hu : (t.grouping r key row).Grows u)
    {b : Scalar} (hrun : scalar env e u = (.ok b, u')) (ρ : Valuation V) :
    b.evalOver D group ρ = a.value env D L r.key k (group.map (row.eval D · none)) := by
  have hgroup : u.group = some ⟨r.group, row⟩ := hu.group
  cases a with
  | count =>
    obtain ⟨ty, target, method, ty', rfl, hop, hname⟩ := ha
    rw [scalar_aggregate hgroup target hop, hname, groupAggregate_count] at hrun
    obtain ⟨rfl, -⟩ := pure_eq_ok.mp hrun
    rw [countAll, Scalar.evalOver_aggregate (by decide), Database.aggregated, if_pos rfl,
      List.length_map, GroupAggregate.value, List.length_map]
    rfl
  | of a selector =>
    obtain ⟨ty, args, ⟨target, method, ty', rfl, hop, hname⟩, hargs, hapart⟩ := ha
    obtain ⟨haggregate, hcount⟩ := contains_of_aggregate? a.aggregate?_method
    rw [scalar_aggregate hgroup target hop, hname] at hrun
    cases selector with
    | none =>
      obtain rfl := hargs
      rw [groupAggregate_rows _ a.aggregate?_method] at hrun
      obtain ⟨rfl, -⟩ := pure_eq_ok.mp hrun
      rw [Scalar.evalOver_aggregate haggregate, Database.aggregated, if_neg hcount,
        GroupAggregate.value, List.map_map]
      rfl
    | some l =>
      obtain ⟨arg, rfl, hl⟩ := hargs
      obtain ⟨hsize, hselector⟩ := hl.selector? a.method
      rw [groupAggregate_lambda _ a.aggregate?_method, hselector] at hrun
      obtain ⟨c, w, hwithin, hbuilt⟩ := Compilation.bind_eq_ok.mp (bind_ofExcept_ok hrun)
      obtain ⟨rfl, -⟩ := pure_eq_ok.mp hbuilt
      obtain ⟨w', hscalar, -⟩ := within_eq_ok hwithin
      obtain ⟨f, hf, hvalue⟩ := h.aggregated_lambda hL hkey hk hD henv hrow
        (hapart l rfl) hu hscalar
      rw [Scalar.evalOver_aggregate haggregate, Database.aggregated, if_neg hcount,
        GroupAggregate.value, hf]
      dsimp only
      rw [List.map_map]
      refine congrArg (fun rows => (D.aggregate a.function rows).getD (D.literal .undefined)) ?_
      exact List.map_congr_left fun ρ hρ => congrArg ([·]) (hvalue ρ hρ)

end Scope.Around

/-! ## Templates of results beside results in queries -/

namespace GroupLambda

omit [DecidableEq V] in
/-- By itself a parameter of the template is a parameter of the query. -/
theorem lookup?_params {x : String} (hx : x ∈ r.params L) :
    (Scope.reading L.depth (r.params L)).lookup? x = some (.parameter x) := by
  show Record.get? ((r.params L).map fun p => (p, Scalar.parameter p)) x = _
  generalize r.params L = params at hx
  induction params with
  | nil => cases hx
  | cons p params ih =>
    rw [List.map_cons, Record.get?]
    split
    · rename_i he
      exact congrArg (some ∘ Scalar.parameter) he
    · rename_i hne
      exact ih ((List.mem_cons.mp hx).resolve_left (Ne.symm hne))

omit [DecidableEq V] in
theorem mem_params {x : String} {a : GroupAggregate} (hx : r.aggregates.get? x = some a) :
    x ∈ r.params L :=
  List.mem_append_left _ (List.mem_map_of_mem (Record.mem_of_get? hx))

end GroupLambda

/-- The scalar of a parameter is what it stands for. -/
theorem Compilation.scalar_parameter (x : String) (ty : HostType) (s : Scope) :
    scalar env (.parameter x ty) s =
      ((s.lookup? x).elim (.error (.unsupported (.unboundParameter x))) .ok, s) := by
  have hget : (get : Compilation Scope) s = (.ok s, s) := rfl
  rw [Compilation.scalar, Compilation.run_bind, hget]
  dsimp only
  cases s.lookup? x <;> rfl

namespace Scope.Around

variable (h : t.Around L) (hL : D.parameter = L.values) (hkey : key.IsRow t)
  (hatoms : ∀ x ∈ key.atoms, x.isAggregate = false) {k : V} {group : List (Valuation V)}
  (hk : ∀ ρ ∈ group, key.eval D ρ none = k)

include h hL hkey hatoms hk

/-- Parameters of the template have the values of what they stand for in the query. -/
theorem fills (hD : D.Lawful) (henv : env.Plain) (hrow : row.IsRow t) {ρ : Valuation V}
    (hρ : ρ ∈ group) :
    (Setting.reading env).Fills (fun _ _ a b =>
        a.eval (D.withParameters (r.values env D L k (group.map (row.eval D · none)))) D.nothing
          none = b.evalOver D group ρ)
      r.aggregates r.group (.reading L.depth (r.params L)) (t.grouping r key row) where
  left := rfl
  right x hx := if_neg (Ne.symm hx)
  aggregate := by
    intro x a e hx ha u u' hstep b w hrun
    have hleft : u.lookup? x = some (.parameter x) := by
      rw [Scope.lookup?, hstep.left.bindings]
      exact GroupLambda.lookup?_params (GroupLambda.mem_params hx)
    have hgrows : u'.Grows w := ((leaves env e).1.run hrun).toGrows
    refine .inl ⟨.parameter x, u, ?_, ⟨.refl u, hgrows, False.elim, fun _ _ _ => trivial⟩, ?_⟩
    · rw [scalar_parameter, hleft]
      rfl
    show r.values env D L k (group.map (row.eval D · none)) x = b.evalOver D group ρ
    rw [h.aggregated hL hkey hk hD henv hrow ha hstep.right hrun ρ, GroupLambda.values, hx]
  parameter := by
    intro x hx ty u u' hstep b w hrun
    have hvalue : r.values env D L k (group.map (row.eval D · none)) x =
        Function.update L.values r.key k x := by
      rw [GroupLambda.values, hx]
    have hlook : u'.lookup? x = if r.key = x then some key else t.lookup? x := by
      rw [Scope.lookup?, hstep.right.bindings]
      rfl
    obtain ⟨hb, rfl⟩ : u'.lookup? x = some b ∧ u' = w := by
      rw [scalar_parameter] at hrun
      cases hl : u'.lookup? x with
      | none =>
        rw [hl] at hrun
        cases hrun
      | some a =>
        rw [hl] at hrun
        cases hrun
        exact ⟨rfl, rfl⟩
    rw [hlook] at hb
    have hrest : x ∈ r.key :: L.params ∧
        r.values env D L k (group.map (row.eval D · none)) x = b.evalOver D group ρ := by
      rw [hvalue]
      split at hb
      · rename_i he
        obtain rfl := Option.some.inj hb
        subst he
        rw [Function.update_self, Scalar.evalOver_single hatoms, hk ρ hρ]
        exact ⟨List.mem_cons_self, rfl⟩
      · rename_i hne
        have hmem := Record.mem_of_get? hb
        rw [h.bindings] at hmem
        obtain ⟨p, hp, he⟩ := List.mem_map.mp hmem
        cases he
        rw [Function.update_of_ne (Ne.symm hne), Scalar.evalOver]
        exact ⟨List.mem_cons_of_mem _ hp, (congrFun hL x).symm⟩
    have hleft : u.lookup? x = some (.parameter x) := by
      rw [Scope.lookup?, hstep.left.bindings]
      exact GroupLambda.lookup?_params (List.mem_append_right _ hrest.1)
    refine .inl ⟨.parameter x, u, ?_, .refl _ u u', hrest.2⟩
    rw [scalar_parameter, hleft]
    rfl

end Scope.Around

/-- **A result has the value that it makes of the key and the rows of a group**, on any row of the
group. -/
theorem Scope.Around.ofGroup (h : t.Around L) (hD : D.Lawful) (henv : env.Plain)
    (hL : D.parameter = L.values) (hrow : row.IsRow t) (hkey : key.IsRow t)
    (hatoms : ∀ x ∈ key.atoms, x.isAggregate = false) {body : Expr}
    (hbody : r.body.Filled r.aggregates r.group body) {value : Scalar} {t' : Scope}
    (hrun : scalar env body (t.grouping r key row) = (.ok value, t')) :
    ∃ result, r.ofGroup env D L = .ok result ∧ Scalar.Results D row key value result := by
  have hruns : ∀ (k : V) (group : List (Valuation V)), (∀ ρ ∈ group, key.eval D ρ none = k) →
      ∀ ρ ∈ group, ∃ a, (scalar env r.body (.reading L.depth (r.params L))).1 = .ok a ∧
        a.eval (D.withParameters (r.values env D L k (group.map (row.eval D · none)))) D.nothing
          none = value.evalOver D group ρ := by
    intro k group hk ρ hρ
    have hQ := (Database.homomorphic_eval (D := D)
      (r.values env D L k (group.map (row.eval D · none))) D.nothing).congruence
        (Database.homomorphic_evalOver group ρ) hD (Setting.reading env)
    rcases (h.fills hL hkey hatoms hk hD henv hrow hρ).runs henv hQ hbody (.refl _ _ _) value t'
      hrun with ⟨a, u, hleft, -, hab⟩ | ⟨hlax, -⟩
    · exact ⟨a, congrArg Prod.fst hleft, hab⟩
    · exact hlax.elim
  -- The template can be read since some row makes a group.
  obtain ⟨a, ha, -⟩ := hruns _ [D.nothing] (List.forall_mem_singleton.mpr rfl) _
    (List.mem_singleton_self _)
  refine ⟨_, by rw [GroupLambda.ofGroup, Expr.meaning, ha]; rfl, fun k group hk ρ hρ => ?_⟩
  obtain ⟨a', ha', hvalue⟩ := hruns k group hk ρ hρ
  obtain rfl : a = a' := Except.ok.inj (ha.symm.trans ha')
  exact hvalue.symm

end LambdaQuery
