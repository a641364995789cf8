import LambdaQuery.Proofs.Denotation.Basic
import LambdaQuery.Proofs.Meaning.Groups
import LambdaQuery.Proofs.Meaning.Queries

/-!
# The rows of groups

A chain of operators that ends in a group has one row for each key of its rows: what the result
makes of the key and of the rows that have it (`Expr.toQuery_groupBy`). The layer that groups keeps
what is below it as a subquery (`Layer.flattenAll_groups`); its query may read the selected value on
any row of a group (`Query.GroupRows`).
-/

set_option autoImplicit false

namespace LambdaQuery

open Compilation

variable {V : Type} [DecidableEq V] {D : Database V} {env : Environment} {L : Locals V}

/-! ## The operator that groups -/

namespace Applies

variable {args : List Expr} {input x st : Stage} {v : Scope} {l : RowLambda}
  {keyArg resultArg : Expr} {method : String}

omit [DecidableEq V] in
theorem ready (h : Applies env L method args input x v st) : x.Ready method (args.length + 1) := by
  cases h.layered with
  | same hl => exact .of_checkOrder h.check hl
  | packaged name _ => exact .package h.check name

/-- Grouping sets a key and a value on a layer that only filters and joins. -/
theorem groupBy (h : Applies env L "GroupBy" [keyArg, resultArg] input x v st) (hD : D.Lawful)
    (henv : env.Plain) (hL : D.parameter = L.values) (hl : l.IsArg keyArg) {k g : Param}
    {body : Expr} (hlambda : resultArg.asLambda?.map Subtype.val = some ⟨[k, g], body⟩) :
    ∃ key value f,
      st = x.mapLayer ({ · with groupBy := [key], selection := some (.ofValue value) }) ∧
        l.ofRow env D L = .ok f ∧ x.layer.Reads D key f ∧
          ((∀ a ∈ key.atoms, a.isAggregate = false) → ∀ r : GroupLambda, r.IsArg resultArg →
            ∃ result, r.ofGroup env D L = .ok result ∧
              Scalar.Results D x.layer.row key value result) := by
  obtain ⟨w, hrun⟩ := h.run
  obtain ⟨hlsize, hselector⟩ := hl.selector? "GroupBy"
  obtain ⟨hrsize, hresult⟩ := Expr.resultSelector? hlambda
  obtain ⟨name, cs, hcs⟩ := h.outer
  rw [apply.eq_17, Compilation.grouped.eq_def] at hrun
  dsimp only at hrun
  rw [hselector, hresult] at hrun
  replace hrun := bind_ofExcept_ok (bind_ofExcept_ok hrun)
  obtain ⟨⟨key, x'⟩, u, hkeyed, hrun⟩ := Compilation.bind_eq_ok.mp hrun
  obtain ⟨rfl, hkey, hgrows, f, hf, hreads⟩ :=
    h.top.ranged hD henv hL hcs h.isRow hkeyed
  dsimp only at hrun
  by_cases hobject : isObject key = true
  · rw [if_pos hobject] at hrun
    cases hrun
  rw [if_neg hobject] at hrun
  obtain ⟨value, u', hvalue, hrun⟩ := Compilation.bind_eq_ok.mp hrun
  obtain ⟨u₁, hvalue, -⟩ := within_eq_ok hvalue
  obtain ⟨u₂, hvalue, -⟩ := within_eq_ok hvalue
  obtain ⟨y, u₃, hgrouped, hrun⟩ := Compilation.bind_eq_ok.mp hrun
  obtain ⟨-, rfl⟩ := Stage.addGroupBy_eq_ok.mp (edit_eq_ok hgrouped).1
  obtain ⟨-, rfl⟩ := Stage.addSelect_eq_ok.mp (edit_eq_ok hrun).1
  refine ⟨key, value, f, rfl, hf, hreads, fun hatoms r hr => ?_⟩
  obtain ⟨hk, hg, hfilled⟩ := hr.filled hlambda
  rw [← hk, ← hg] at hvalue
  exact (h.top.toAround.grows hgrows).ofGroup hD henv hL (h.isRow.mono hgrows.names) hkey hatoms
    hfilled hvalue

end Applies

/-! ## Stages that group -/

/-- One value for each group, where any row of a group gives the same. -/
theorem Rows.forall₂_groups_iff {α β κ : Type} [DecidableEq κ] {key : α → κ} {P : List α → β → Prop}
    {f : κ → List α → β}
    (h : ∀ k group, group ≠ [] → (∀ a ∈ group, key a = k) → ∀ b, P group b ↔ b = f k group)
    (rows : List α) (vs : List β) :
    List.Forall₂ P (groups key rows) vs ↔
      vs = (distinct (rows.map key)).map fun k => f k (rows.filter (key · = k)) := by
  have hgroup : ∀ k ∈ rows.map key, ∀ b,
      P (rows.filter (key · = k)) b ↔ b = f k (rows.filter (key · = k)) := by
    intro k hk
    obtain ⟨a, ha, rfl⟩ := List.mem_map.mp hk
    refine h _ _ (List.ne_nil_of_mem (List.mem_filter.mpr ⟨ha, by simp⟩)) fun a ha => ?_
    simpa using (List.mem_filter.mp ha).2
  have hkeys : ∀ k ∈ distinct (rows.map key), k ∈ rows.map key := fun k => mem_distinct.mp
  rw [groups]
  generalize distinct (rows.map key) = ks at hkeys
  induction ks generalizing vs with
  | nil => exact List.forall₂_nil_left_iff
  | cons k ks ih =>
    obtain ⟨hk, hks⟩ := List.forall_mem_cons.mp hkeys
    rw [List.map_cons, List.map_cons, List.forall₂_cons_left_iff]
    constructor
    · rintro ⟨b, bs, hb, hbs, rfl⟩
      rw [(hgroup k hk b).mp hb, (ih bs hks).mp hbs]
    · rintro rfl
      exact ⟨_, _, (hgroup k hk _).mpr rfl, (ih _ hks).mpr rfl, rfl⟩

/-- The rows that a query which groups by one key may have: one for each group, which is read on
some row of the group, in any order. -/
inductive Query.GroupRows (D : Database V) : Query → List V → Prop where
  | mk {value key : Scalar} {sources : List Source} {filter : Option Scalar} {vs out : List V}
    (h : List.Forall₂ (fun group v => ∃ ρ ∈ group, v = value.evalOver D group ρ)
      (Rows.groups (key.eval D · none)
        ((Source.valuations D sources D.nothing).filter (Scalar.passes D filter))) vs)
    (hout : out.Perm vs) :
    Query.GroupRows D ⟨⟨.value value, false, none⟩, sources, filter, [key], [], none, none⟩ out

theorem Query.groupRows_iff {value key : Scalar} {sources : List Source} {filter : Option Scalar}
    {out : List V} :
    Query.GroupRows D ⟨⟨.value value, false, none⟩, sources, filter, [key], [], none, none⟩ out ↔
      ∃ vs, List.Forall₂ (fun group v => ∃ ρ ∈ group, v = value.evalOver D group ρ)
        (Rows.groups (key.eval D · none)
          ((Source.valuations D sources D.nothing).filter (Scalar.passes D filter))) vs ∧
            out.Perm vs := by
  constructor
  · rintro ⟨h, hout⟩
    exact ⟨_, h, hout⟩
  · rintro ⟨vs, h, hout⟩
    exact .mk h hout

/-- A layer that groups keeps what is below it as a subquery. -/
theorem Layer.flattenAll_groups {l m : Layer} {ls : List Layer} {c : Likeness} (hD : D.Lawful)
    (hc : c.Plain) (hgroup : l.hasGroupBy = true) (halike : Layer.AllAlike c ls ls)
    (hregular : Layer.Regular D ls) (hm : l.flattenAll ls = .ok m) :
    m = { l with source := m.source } ∧ m.inputs D = l.rowsBelow D ls := by
  cases ls with
  | nil =>
    obtain rfl := Except.ok.inj hm
    exact ⟨rfl, rfl⟩
  | cons next rest =>
    obtain ⟨below, hbelow, hm⟩ := bind_eq_ok.mp hm
    obtain ⟨-, hm⟩ := flattenOnto_eq_ok.mp hm
    have hsub : l.needsSubquery below = true := by rw [needsSubquery, hgroup, Bool.true_or]
    rw [if_pos hsub] at hm
    subst hm
    have hflat := halike.flattened hD hc hregular.mergeable hbelow
    exact ⟨rfl, hflat.plain.toQuery_rows.trans hflat.rows⟩

/-- **The query of a stage that groups has one row for each key**, whichever rows of the groups are
read. -/
theorem Stage.groupRows_iff {x : Stage} {c : Likeness} (hD : D.Lawful) (hc : c.Plain)
    (halike : Stage.Alike c x x) (hx : x.Fit D) (hu : x.Unbounded)
    (hselection : x.layer.selection = none) (horder : x.layer.orderBy = [])
    {key value : Scalar} {f : V → V} (hkey : x.layer.Reads D key f) {result : V → List V → V}
    (hresult : Scalar.Results D x.layer.row key value result) {q : Query}
    (hq : (x.mapLayer ({ · with groupBy := [key], selection := some (.ofValue value) })).toQuery =
      .ok q) (out : List V) :
    q.GroupRows D out ↔ out.Perm
      ((Rows.distinct ((x.rows D).map f)).map fun k => result k ((x.rows D).filter (f · = k))) := by
  obtain ⟨m, hm, hq⟩ := bind_eq_ok.mp hq
  obtain rfl := Except.ok.inj hq
  have hbelow : Layer.AllAlike c x.below x.below := by
    cases halike with
    | cons _ h => exact h
  have hregular : Layer.Regular D x.below := by
    cases hx.regular with
    | cons _ _ _ h => exact h
  obtain ⟨hml, hinputs⟩ := Layer.flattenAll_groups hD hc rfl hbelow hregular hm
  have hsource : ∀ l : Layer, l.source = x.layer.source → l.rowsBelow D x.below = x.input D :=
    fun _ h => Layer.rowsBelow_congr h _
  replace hinputs : m.inputs D = x.input D := hinputs.trans (hsource _ rfl)
  have hbound := hu.mem (l := x.layer) List.mem_cons_self
  simp only [Layer.isBounded, Layer.hasTop, Bool.or_eq_false_iff, Option.isSome_eq_false_iff,
    Option.isNone_iff_eq_none] at hbound
  obtain ⟨⟨htop, hlimit⟩, hoffset⟩ := hbound
  -- Only the filter and the joins of the layer are left, beside what was set.
  have hquery : m.toQuery = ⟨⟨.value value, false, none⟩, m.toQuery.sources, x.layer.filter, [key],
      [], none, none⟩ := by
    rw [hml]
    simp only [Layer.toQuery, mapLayer, horder, htop, hlimit, hoffset]
    rfl
  let kept := x.layer.kept D (x.input D)
  have hkept : (Source.valuations D m.toQuery.sources D.nothing).filter
      (Scalar.passes D x.layer.filter) = kept := by
    have hvaluations : m.valuations D = x.layer.valuations D := by
      rw [hml]
      rfl
    rw [Layer.valuations_toQuery, hinputs, hvaluations]
    show _ = D.sorted (SortKey.keys D x.layer.orderBy) _
    rw [horder, SortKey.keys, Database.sorted_nil]
    rfl
  have hrows : x.rows D = kept.map fun ρ => x.layer.row.eval D ρ none := by
    rw [hu.rows_eq, Layer.free_unselected hx.single hselection]
  have hone : ∀ k group, group ≠ [] → (∀ ρ ∈ group, key.eval D ρ none = k) → ∀ v,
      (∃ ρ ∈ group, v = value.evalOver D group ρ) ↔
        v = result k (group.map (x.layer.row.eval D · none)) := by
    intro k group hne hk v
    constructor
    · rintro ⟨ρ, hρ, rfl⟩
      exact hresult k group hk ρ hρ
    · rintro rfl
      obtain ⟨ρ, hρ⟩ := List.exists_mem_of_ne_nil group hne
      exact ⟨ρ, hρ, (hresult k group hk ρ hρ).symm⟩
  have hspec : ((Rows.distinct (kept.map (key.eval D · none))).map fun k =>
      result k ((kept.filter (key.eval D · none = k)).map (x.layer.row.eval D · none))) =
        (Rows.distinct ((x.rows D).map f)).map fun k =>
          result k ((x.rows D).filter (f · = k)) := by
    have hkeys : (kept.map (key.eval D · none)) = (x.rows D).map f := by
      rw [hrows, List.map_map]
      exact List.map_congr_left fun ρ _ => hkey ρ
    rw [hkeys]
    refine List.map_congr_left fun k _ => congrArg (result k) ?_
    rw [hrows, List.filter_map]
    exact congrArg _ (List.filter_congr fun ρ _ => by rw [hkey ρ]; rfl)
  rw [hquery, Query.groupRows_iff, hkept]
  simp only [Rows.forall₂_groups_iff hone, hspec, exists_eq_left]

/-! ## Queries -/

/-- **Groups keep their meaning.** Where a chain of operators over the container ends in a group
whose result queries nothing but aggregates of the group, the result has a template, and the query
has one row for each key of the rows of the chain: what the result, read by its template, makes of
the key and of the rows that have it, whichever rows of the groups are read. -/
theorem Expr.toQuery_groupBy {e folded source keyArg resultArg : Expr} {ops : List Operator}
    {l : RowLambda} {k g : Param} {body : Expr} {q : Query} (hD : D.Lawful) (henv : env.Plain)
    (hfold : e.fold env.evaluator = .ok folded)
    (hcall : folded.Calls "GroupBy" [source, keyArg, resultArg])
    (hsource : Operator.AreExpr (fun e => e.isRoot = true) ops source)
    (horder : ops.countP Operator.isOrder ≤ 1) (hskip : ∀ n, Operator.skip n ∉ ops)
    (hl : l.IsArg keyArg)
    (hlambda : resultArg.asLambda?.map Subtype.val = some ⟨[k, g], body⟩)
    (hqueries : ∀ d : Expr, d.IsPart body → d.Queries g.name →
      ∃ a : GroupAggregate, a.IsExpr g.name d)
    (hq : e.toQuery env = .ok q) :
    ∃ rows key, Operator.rows env D ⟨0, [], D.parameter⟩ D.documents ops = .ok rows ∧
      l.ofRow env D ⟨0, [], D.parameter⟩ = .ok key ∧ (∃ r : GroupLambda, r.IsArg resultArg) ∧
        ∀ r : GroupLambda, r.IsArg resultArg →
          ∃ result, r.ofGroup env D ⟨0, [], D.parameter⟩ = .ok result ∧
            ∀ out, q.GroupRows D out ↔ out.Perm
              ((Rows.distinct (rows.map key)).map fun k => result k (rows.filter (key · = k))) := by
  have hquery : Compilation.query env e .initial = (.ok q, (Compilation.query env e .initial).2) :=
    Prod.ext hq rfl
  rw [Setting.query_eq env hfold] at hquery
  obtain ⟨st, t, hrows, hflattened⟩ := Compilation.bind_eq_ok.mp hquery
  have hst : st.toQuery = .ok q := flattened_eq_ok hflattened
  have htop := Scope.top_declare env folded D.parameter
  have hstart : Stage.Starts env D ⟨0, [], D.parameter⟩ D.documents fun e => e.isRoot = true :=
    Stage.starts_root rfl
  obtain ⟨s, u, input, x, v, hs, hinput, happlies⟩ :=
    hcall.applies (hsource.isGrouping fun e he => (hstart e he).1) htop hrows
  have hsized : Operator.Sized env D ⟨0, [], D.parameter⟩ D.documents ops :=
    fun n ops' hsuffix => absurd (hsuffix.subset List.mem_cons_self) (hskip n)
  have hin := hsource.has hD henv rfl hstart horder hsized hs hinput
  obtain ⟨hx, hsame⟩ := happlies.layered.fit hin.fit
  obtain ⟨key, value, f, rfl, hf, hreads, hresults⟩ := happlies.groupBy hD henv rfl hl hlambda
  -- No group is in scope where the key is compiled, so that nothing is aggregated in it.
  obtain ⟨t', last, hended, hgroup⟩ :=
    (Flattens.chain hrows).ended .perRow (Invariant.perRow.scopes_declare folded).2
  have hatoms : ∀ a ∈ key.atoms, a.isAggregate = false := fun a ha =>
    hended.groupBy key (List.mem_singleton_self _) a ha (hgroup.trans htop.group)
  refine ⟨input.rows D, f, hin.rows, hf, GroupLambda.exists_isArg hlambda hqueries, fun r hr => ?_⟩
  obtain ⟨result, hres, hresult⟩ := hresults hatoms r hr
  refine ⟨result, hres, fun out => ?_⟩
  rw [← hsame]
  exact Stage.groupRows_iff hD (Setting.self_likeness_plain env _ v.parameters)
    happlies.stage.alike hx (happlies.unbounded (by decide) (by decide))
    (happlies.ready.selection (by decide)) happlies.ready.orderBy hreads hresult hst out

/-- The numbers that are greater than four, and the others: how many there are, their sum, the least
and the greatest of them and their mean, beside their keys. -/
theorem Expr.toQuery_groupBy_numbers :
    let env : Environment := ⟨.default, Interpreter.empty.evaluate⟩
    let size (x : String) := (Expr.parameter x (.model "Row")).property "Size" .int32
    let key := Expr.conditional (.compare .greaterThan (size "r") (.int 4)) (.int 1) (.int 0) .int32
    let group := Expr.parameter "g" (.array (.model "Row"))
    let made (name : String) := Expr.staticCall ⟨.enumerable, name⟩
      [group, .ofLambda (.unary "x" (.model "Row") (size "x"))] .int32
    let count := Expr.staticCall ⟨.enumerable, "Count"⟩ [group] .int32
    let all : List Aggregate := [.sum, .min, .max, .average]
    let body := Expr.newArray (.parameter "k" .int32 :: count :: all.map fun a => made a.method)
      (.array .int32)
    let e := (((Queryable.root (.model "Row")).filter (.unary "r" (.model "Row")
      (.compare .greaterThan (size "r") (.int 1)))).groupBy (.unary "r" (.model "Row") key)
        ⟨[⟨"k", .int32⟩, ⟨"g", .array (.model "Row")⟩], body⟩).expr
    let D := Database.ofNumbers [.number 9, .number 1, .number 4, .number 5, .number 2]
    ∃ q, e.toQuery env = .ok q ∧ ∀ out, q.GroupRows D out ↔ out.Perm
      [.ofList ([1, 2, 14, 5, 9, 7].map .number), .ofList ([0, 2, 6, 2, 4, 3].map .number)] := by
  intro env size key group made count all body e D
  let L : Locals Datum := ⟨0, [], D.parameter⟩
  let ops : List Operator := [.filter ⟨"r", .compare .greaterThan (size "r") (.int 1)⟩]
  let l : RowLambda := ⟨"r", key⟩
  have hfold : e.fold env.evaluator = .ok e := by
    subst e body all count made group key size env
    cbv
  have hok : (e.toQuery env).isOk = true := by
    subst e body all count made group key size env
    cbv
    simp only [groupAggregate_count]
    cbv
    simp only [groupAggregate_lambda _ (rfl : aggregate? "Sum" = some "SUM")]
    cbv
    simp only [groupAggregate_lambda _ (rfl : aggregate? "Min" = some "MIN")]
    cbv
    simp only [groupAggregate_lambda _ (rfl : aggregate? "Max" = some "MAX")]
    cbv
    simp only [groupAggregate_lambda _ (rfl : aggregate? "Average" = some "AVG")]
    cbv
  let selector : RowLambda := ⟨"x", size "x"⟩
  let r : GroupLambda := ⟨"k", "g",
    ("Count", .count) :: all.map fun a => (a.method, .of a (some selector)),
    .newArray (.parameter "k" .int32 :: .parameter "Count" .int32 ::
      all.map fun a => .parameter a.method .int32) (.array .int32)⟩
  have hparts : ∀ {P : Expr → Prop}, ∀ d : Expr, d.IsPart (size "x") → d.Queries "g" → P d :=
    forall_queries_member (forall_queries_parameter _ _) _ _
  have hcount : GroupAggregate.count.IsExpr "g" count := ⟨_, staticCall_calls rfl _ _⟩
  have hmade : ∀ a : Aggregate,
      (GroupAggregate.of a (some selector)).IsExpr "g" (made a.method) := by
    refine fun a => ⟨_, _, staticCall_calls rfl _ _, ⟨_, rfl, _, rfl⟩, fun x hx d hd hs => ?_⟩
    obtain rfl : x = selector := (Option.some.inj hx).symm
    exact hparts (P := fun _ => False) d hd (.inl hs)
  have hqueries : ∀ d : Expr, d.IsPart body → d.Queries "g" →
      ∃ a : GroupAggregate, a.IsExpr "g" d := by
    refine forall_queries (by decide) (List.forall_mem_cons.mpr ⟨forall_queries_parameter _ _,
      List.forall_mem_cons.mpr ⟨?_, List.forall_mem_map.mpr fun a _ => ?_⟩⟩)
    · exact forall_isPart.mpr ⟨fun _ => ⟨_, hcount⟩,
        List.forall_mem_singleton.mpr (forall_queries_parameter _ _)⟩
    · exact forall_isPart.mpr ⟨fun _ => ⟨_, hmade a⟩, List.forall_mem_cons.mpr
        ⟨forall_queries_parameter _ _, List.forall_mem_singleton.mpr
          (forall_queries (by decide) (List.forall_mem_singleton.mpr hparts))⟩⟩
  have hfilled : r.body.Filled r.aggregates "g" body := by
    refine .rebuild (e := r.body) rfl rfl (fun h => absurd h.kind (by decide))
      (.cons (.parameter _ rfl) (.cons (.aggregate rfl hcount) ?_))
    refine List.forall₂_map_left_iff.mpr (List.forall₂_map_right_iff.mpr (List.forall₂_same.mpr ?_))
    exact fun a _ => .aggregate (by cases a <;> rfl) (hmade a)
  have hspec : (do
      let rows ← Operator.rows env D L D.documents ops
      let key ← l.ofRow env D L
      let result ← r.ofGroup env D L
      return (Rows.distinct (rows.map key)).map fun k => result k (rows.filter (key · = k))) =
        .ok [.ofList ([1, 2, 14, 5, 9, 7].map .number),
          .ofList ([0, 2, 6, 2, 4, 3].map .number)] := by
    subst r selector ops l L D all key size env
    cbv
  have hchain : ∃ source, e.Calls "GroupBy" [source, .quote (.unary "r" (.model "Row") key),
      .quote ⟨[⟨"k", .int32⟩, ⟨"g", .array (.model "Row")⟩], body⟩] ∧
        Operator.AreExpr (fun e => e.isRoot = true) ops source :=
    ⟨_, staticCall_calls rfl _ _, .filter (staticCall_calls rfl _ _) (.start rfl) ⟨_, rfl⟩⟩
  obtain ⟨source, hcall, hops⟩ := hchain
  cases hq : e.toQuery env with
  | error _ =>
    rw [hq] at hok
    cases hok
  | ok q =>
    refine ⟨q, rfl, ?_⟩
    obtain ⟨rows, f, hrows, hf, -, hresults⟩ := toQuery_groupBy (l := l)
      (Database.ofNumbers_lawful _) (Environment.plain_default _) hfold hcall hops (by decide)
      (by simp [ops]) ⟨_, rfl⟩ rfl hqueries hq
    obtain ⟨result, hresult, hout⟩ := hresults r ⟨_, _, _, rfl, hfilled⟩
    rw [hrows, hf, hresult] at hspec
    rw [← Except.ok.inj hspec]
    exact hout

end LambdaQuery
