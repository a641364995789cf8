import LambdaQuery.Proofs.Conditions.Layers
import LambdaQuery.Proofs.Meaning.Endings
import Mathlib

/-!
# Conditions of chains

A chain of operators has the predicates of its `Where`, `Count` and `Any`, and between them those
of the paths of its `SelectMany` (`Expr.predicates`). `Expr.Applies` says which predicates are
applied while a chain is compiled, each one with the stage that it is applied to and with what its
body is compiled to there (`AppliedPredicate`). `Stage.Conditioned` says that a stage has the
conditions of such predicates besides those of the stage before them: it is what every change of a
stage is asked about.
-/

set_option autoImplicit false

namespace LambdaQuery

open Compilation

/-! ## Predicates of chains -/

/-- The lambda over rows that an argument is. -/
def Expr.rowLambda? (arg : Expr) : Option RowLambda :=
  match arg.asLambda?.map Subtype.val with
  | some ⟨[p], body⟩ => some ⟨p.name, body⟩
  | _ => none

theorem RowLambda.IsArg.rowLambda? {l : RowLambda} {arg : Expr} (h : l.IsArg arg) :
    arg.rowLambda? = some l := by
  obtain ⟨ty, h⟩ := h
  rw [Expr.rowLambda?, h]

/-- The predicates on the items of a path, in the order in which they are applied. -/
def Expr.pathPredicates : Expr → List RowLambda
  | .call _ method [source, arg] _ =>
    if method.isOperator then
      source.pathPredicates ++ if method.name = "Where" then arg.rowLambda?.toList else []
    else []
  | _ => []

/-- The predicates that an operator with these arguments after its source applies. -/
def Expr.operatorPredicates (name : String) : List Expr → List RowLambda
  | [arg] =>
    if name ∈ ["Where", "Count", "Any"] then arg.rowLambda?.toList
    else if name = "SelectMany" then arg.rowLambda?.toList.flatMap (·.body.pathPredicates)
    else []
  | _ => []

/-- The operators that apply predicates. -/
def filteringOperators : List String := ["Where", "SelectMany", "Count", "Any"]

/-- The predicates of a chain of operators, in the order in which they are applied. -/
def Expr.predicates : Expr → List RowLambda
  | .call _ method (source :: rest) _ =>
    if method.isOperator then source.predicates ++ Expr.operatorPredicates method.name rest else []
  | _ => []

/-- The operators that filter, select, sort, bound and count, and those that do so per item. -/
def chainOperators : List String :=
  ["Where", "Select", "SelectMany", "OrderBy", "OrderByDescending", "ThenBy", "ThenByDescending",
    "Take", "Skip", "Count", "Any"]

/-- A chain of such operators, from whatever it starts. -/
inductive Expr.Chained : Expr → Prop where
  | start {e : Expr} (h : isOperatorCall e = false) : Chained e
  | operator {e source : Expr} {name : String} {rest : List Expr}
    (h : e.Calls name (source :: rest)) (hname : name ∈ chainOperators) (hs : Chained source) :
    Chained e

theorem Expr.Calls.sizeOf_source {e source : Expr} {name : String} {rest : List Expr}
    (h : e.Calls name (source :: rest)) : sizeOf source < sizeOf e := by
  obtain ⟨target, method, ty, rfl, -⟩ := h
  simp only [Expr.call.sizeOf_spec, List.cons.sizeOf_spec]
  omega

theorem Expr.Calls.predicates_eq {e source : Expr} {name : String} {rest : List Expr}
    (h : e.Calls name (source :: rest)) :
    e.predicates = source.predicates ++ Expr.operatorPredicates name rest := by
  obtain ⟨target, method, ty, rfl, hop, rfl⟩ := h
  rw [Expr.predicates, if_pos hop]

theorem Expr.Calls.predicates_eq_nil {e : Expr} {name : String} (h : e.Calls name []) :
    e.predicates = [] := by
  obtain ⟨target, method, ty, rfl, -⟩ := h
  exact Expr.predicates.eq_2 _ nofun

theorem Expr.predicates_start {e : Expr} (h : isOperatorCall e = false) : e.predicates = [] := by
  unfold Expr.predicates
  split
  · rename_i target method source rest ty
    have hop : method.isOperator = false := h
    rw [if_neg (by simp [hop])]
  · rfl

theorem Expr.operatorPredicates_eq_nil {name : String} (h : name ∉ filteringOperators)
    (rest : List Expr) : Expr.operatorPredicates name rest = [] := by
  simp only [filteringOperators, List.mem_cons, List.not_mem_nil, or_false, not_or] at h
  unfold Expr.operatorPredicates
  split
  · simp [h]
  · rfl

theorem Expr.Calls.pathPredicates_eq {e source arg : Expr} {name : String}
    (h : e.Calls name [source, arg]) : e.pathPredicates =
      source.pathPredicates ++ if name = "Where" then arg.rowLambda?.toList else [] := by
  obtain ⟨target, method, ty, rfl, hop, rfl⟩ := h
  rw [Expr.pathPredicates, if_pos hop]

theorem Expr.Calls.pathPredicates_eq_nil {e : Expr} {name : String} {args : List Expr}
    (h : e.Calls name args) (hargs : args.length ≠ 2) : e.pathPredicates = [] := by
  obtain ⟨target, method, ty, rfl, -⟩ := h
  refine Expr.pathPredicates.eq_2 _ ?_
  rintro _ _ source arg _ ⟨⟩
  exact hargs rfl

theorem Expr.pathPredicates_array {e : Expr} (h : isOperatorCall e = false) :
    e.pathPredicates = [] := by
  unfold Expr.pathPredicates
  split
  · rename_i target method source arg ty
    have hop : method.isOperator = false := h
    rw [if_neg (by simp [hop])]
  · rfl

/-! ## Applied predicates -/

/-- A predicate, the stage that it is applied to, and the scalar that its body is compiled to where
its parameter stands for the row of this stage. -/
structure AppliedPredicate (env : Environment) where
  lambda : RowLambda
  stage : Stage
  scalar : Scalar
  translated : ∃ s t : Scope,
    Compilation.scalar env lambda.body (s.bindTo lambda.param stage.layer.row) = (.ok scalar, t)

/-- What the predicate asks of the rows of the lowest layer. -/
def AppliedPredicate.condition {env : Environment} (p : AppliedPredicate env) : Scalar :=
  p.stage.composed p.scalar

/-- What predicates ask, one after the other. -/
def AppliedPredicate.conditions {env : Environment} (ps : List (AppliedPredicate env)) :
    List Scalar := ps.flatMap fun p => p.condition.conjuncts

theorem AppliedPredicate.conditions_append {env : Environment}
    (ps qs : List (AppliedPredicate env)) :
    conditions (ps ++ qs) = conditions ps ++ conditions qs :=
  List.flatMap_append

section

variable (env : Environment)

/-- The predicates that are applied to the items of a path, whose array the stage `x` iterates. -/
inductive Expr.PathApplies (x : Stage) (s : Scope) : Expr → List (AppliedPredicate env) → Prop where
  | array {e : Expr} (h : isOperatorCall e = false) : PathApplies x s e []
  | filter {e source arg : Expr} {ps : List (AppliedPredicate env)} {p : AppliedPredicate env}
    {t : Scope} (h : e.Calls "Where" [source, arg]) (hl : p.lambda.IsArg arg)
    (hs : PathApplies x s source ps)
    (hp : projected env source p.lambda x s = (.ok (p.scalar, p.stage), t)) :
    PathApplies x s e (ps ++ [p])
  | select {e source arg : Expr} {ps : List (AppliedPredicate env)}
    (h : e.Calls "Select" [source, arg]) (hs : PathApplies x s source ps) : PathApplies x s e ps

/-- The predicates that an operator applies to the stage `x`. -/
inductive Expr.OperatorApplies (x : Stage) (s : Scope) :
    String → List Expr → List (AppliedPredicate env) → Prop where
  | predicate {name : String} {arg : Expr} {p : AppliedPredicate env} {t : Scope}
    (hname : name ∈ ["Where", "Count", "Any"]) (hl : p.lambda.IsArg arg) (hx : p.stage = x)
    (hp : scalar env p.lambda.body (s.bindTo p.lambda.param x.layer.row) = (.ok p.scalar, t)) :
    OperatorApplies x s name [arg] [p]
  | path {arg : Expr} {l : RowLambda} {ps : List (AppliedPredicate env)} (hl : l.IsArg arg)
    (h : l.body.PathApplies env x (s.bindTo l.param x.layer.row) ps) :
    OperatorApplies x s "SelectMany" [arg] ps
  | unfiltered {name : String} (hname : name ∈ ["Count", "Any"]) : OperatorApplies x s name [] []
  | none {name : String} {rest : List Expr}
    (hname : name ∉ filteringOperators) : OperatorApplies x s name rest []

/-- The predicates that are applied while a chain is compiled, from its start on. -/
inductive Expr.Applies : Expr → Scope → List (AppliedPredicate env) → Prop where
  | start {e : Expr} {s : Scope} (h : isOperatorCall e = false) : Applies e s []
  | operator {e source : Expr} {name : String} {rest : List Expr} {s u v : Scope}
    {input x : Stage} {ps qs : List (AppliedPredicate env)} (h : e.Calls name (source :: rest))
    (hs : Applies source (s.pushMethod name) ps)
    (hrows : rows env source (s.pushMethod name) = (.ok input, u))
    (hlayer : layered input name (rest.length + 1) u = (.ok x, v))
    (hq : Expr.OperatorApplies env x (v.pushCollection (.outer x.layer.name)) name rest qs) :
    Applies e s (ps ++ qs)

end

/-! ## What operators do to conditions -/

/-- The stage `st` makes one row of each row that it keeps, and has the conditions of the
predicates besides those of `x`. -/
structure Stage.Conditioned {env : Environment} (x : Stage) (ps : List (AppliedPredicate env))
    (st : Stage) : Prop where
  direct : st.Direct
  conditions : st.conditions = x.conditions ++ AppliedPredicate.conditions ps

namespace Stage.Conditioned

variable {env : Environment} {x y st : Stage} {ps qs : List (AppliedPredicate env)}

theorem trans (h : x.Conditioned ps y) (h' : y.Conditioned qs st) :
    x.Conditioned (ps ++ qs) st where
  direct := h'.direct
  conditions := by
    rw [h'.conditions, h.conditions, AppliedPredicate.conditions_append, List.append_assoc]

theorem refl (h : x.Direct) : x.Conditioned ([] : List (AppliedPredicate env)) x :=
  ⟨h, (List.append_nil _).symm⟩

theorem package (h : x.Direct) (name : String) :
    x.Conditioned ([] : List (AppliedPredicate env)) (x.package name) :=
  ⟨h.package name, (x.conditions_package name).trans (List.append_nil _).symm⟩

theorem addWhere (p : AppliedPredicate env) (h : p.stage.Direct) :
    p.stage.Conditioned [p] (p.stage.addWhere p.scalar) where
  direct := h.mapLayer ⟨h.layer.ungrouped, h.layer.selects⟩
  conditions := by
    rw [conditions_addWhere]
    exact congrArg _ (List.append_nil _).symm

/-- A change of other clauses than the filter. -/
theorem mapLayer {f : Layer → Layer} (h : x.Direct) (hname : (f x.layer).name = x.layer.name)
    (hfilter : (f x.layer).filter = x.layer.filter) (hf : (f x.layer).Direct) :
    x.Conditioned ([] : List (AppliedPredicate env)) (x.mapLayer f) :=
  ⟨h.mapLayer hf, (conditions_mapLayer hname hfilter).trans (List.append_nil _).symm⟩

theorem addJoin (h : x.Direct) (name : String) (path : Scalar) :
    x.Conditioned ([] : List (AppliedPredicate env)) (x.addJoin name path) :=
  mapLayer h rfl rfl ⟨h.layer.ungrouped, h.layer.selects⟩

theorem replaceSelect (h : x.Direct) (value : Scalar) :
    x.Conditioned ([] : List (AppliedPredicate env)) (x.replaceSelect value) := by
  refine mapLayer h rfl rfl ⟨h.layer.ungrouped, fun s hs => ?_⟩
  cases hs
  cases hselection : x.layer.selection with
  | none => exact ⟨value, rfl⟩
  | some selection =>
    obtain ⟨v, rfl⟩ := h.layer.selects selection hselection
    exact ⟨value, rfl⟩

theorem addSelect (h : x.Direct) {value : Scalar}
    (hst : Stage.addSelect (.ofValue value) x = (.ok (), st)) :
    x.Conditioned ([] : List (AppliedPredicate env)) st := by
  obtain ⟨-, rfl⟩ := addSelect_eq_ok.mp hst
  refine mapLayer h rfl rfl ⟨h.layer.ungrouped, fun s hs => ?_⟩
  cases hs
  exact ⟨value, rfl⟩

theorem addOrderBy (h : x.Direct) (key : SortKey) :
    x.Conditioned ([] : List (AppliedPredicate env)) (x.addOrderBy key) :=
  mapLayer h rfl rfl ⟨h.layer.ungrouped, h.layer.selects⟩

theorem thenBy (h : x.Direct) {key : SortKey} (hst : Stage.thenBy key x = (.ok (), st)) :
    x.Conditioned ([] : List (AppliedPredicate env)) st := by
  obtain ⟨-, rfl⟩ := thenBy_eq_ok.mp hst
  exact mapLayer h rfl rfl ⟨h.layer.ungrouped, h.layer.selects⟩

theorem addTop (h : x.Direct) {c : Count} (hst : Stage.addTop c x = (.ok (), st)) :
    x.Conditioned ([] : List (AppliedPredicate env)) st := by
  have hst := addTop_eq_ok.mp hst
  split at hst
  · obtain ⟨limit, -, rfl⟩ := addLimit_eq_ok.mp hst
    exact mapLayer h rfl rfl ⟨h.layer.ungrouped, h.layer.selects⟩
  · obtain ⟨top, -, rfl⟩ := hst
    exact mapLayer h rfl rfl ⟨h.layer.ungrouped, h.layer.selects⟩

theorem addOffset (h : x.Direct) {c : Count} (hst : Stage.addOffset c x = (.ok (), st)) :
    x.Conditioned ([] : List (AppliedPredicate env)) st := by
  obtain ⟨offset, -, rfl⟩ := addOffset_eq_ok.mp hst
  exact mapLayer h rfl rfl ⟨h.layer.ungrouped, h.layer.selects⟩

end Stage.Conditioned

end LambdaQuery
