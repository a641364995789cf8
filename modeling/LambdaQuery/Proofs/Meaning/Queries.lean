import LambdaQuery.Host.Queryable
import LambdaQuery.Proofs.Meaning.Endings
import LambdaQuery.Proofs.Meaning.Numbers
import Mathlib

/-!
# The rows of queries

A chain of operators over the container is compiled to a query that selects the rows of the chain
(`Expr.toQuery_chain`): the stage of the chain has its rows, and flattening keeps them.
-/

set_option autoImplicit false

namespace LambdaQuery

open Compilation

variable {V : Type} [DecidableEq V] {D : Database V} {env : Environment} {L : Locals V}

/-! ## Compiled chains -/

omit [DecidableEq V] in
theorem Chain.IsExpr.isGrouping {start : Expr → Prop} {c : Chain} {e : Expr} (h : c.IsExpr start e)
    (hstart : ∀ e, start e → e.isGrouping = false) : e.isGrouping = false := by
  cases h with
  | rows h => exact h.isGrouping hstart
  | @ending e source ops ending name args h hs he =>
    refine h.isGrouping ?_
    cases ending with
    | rows => exact he.elim
    | first | count | any => rw [he.1]; rfl
    | aggregate a =>
      rw [he.1]
      cases a <;> rfl

/-- **The query of a chain has its rows.** -/
theorem Chain.IsExpr.query {start : Expr → Prop} {c : Chain} {e : Expr} (h : c.IsExpr start e)
    (hD : D.Lawful) (henv : env.Plain) (hL : D.parameter = L.values) {base : List V}
    (hstart : Stage.Starts env D L base start) (horder : c.operators.countP Operator.isOrder ≤ 1)
    (hsized : Operator.Sized env D L base c.operators) {s t : Scope} (hs : s.Top env L) {st : Stage}
    (hrun : Compilation.rows env e s = (.ok st, t)) {q : Query} (hq : st.toQuery = .ok q) :
    c.selected env D L base = .ok (q.rows D D.nothing) := by
  obtain ⟨hregular, hselected⟩ := h.stage hD henv hL hstart horder hsized hs hrun
  obtain ⟨-, -, hstaged⟩ := hs.rows (h.isGrouping fun e he => (hstart e he).1) hrun
  rw [hselected, Stage.toQuery_rows hD (Setting.self_likeness_plain env L t.parameters)
    hstaged.alike hregular.mergeable hq]

/-! ## Queries over the container -/

/-- Outside of nested queries the query selects what the ending makes of the rows. -/
theorem Chain.selected_of_outermost {c : Chain} {start : List V} (hL : L.depth = 0) :
    c.selected env D L start = c.rows env D L start := by
  obtain ⟨operators, ending⟩ := c
  cases ending with
  | any l => simp only [selected, rows, Ending.selected, if_pos hL]
  | _ => rfl

omit [DecidableEq V] in
/-- Before anything is compiled, no lambda is around. -/
theorem Scope.top_declare (env : Environment) (e : Expr) (values : Valuation V) :
    (Scope.initial.declare e).Top env ⟨0, [], values⟩ where
  bindings := Setting.declare_bindings e
  depth := by
    obtain ⟨names, hs, -⟩ := Scope.declare_eq e
    rw [hs]
    rfl
  group := by
    obtain ⟨names, hs, -⟩ := Scope.declare_eq e
    rw [hs]
    rfl
  operation := by
    obtain ⟨names, hs, -⟩ := Scope.declare_eq e
    rw [hs]
    nofun
  scopes := .declare trivial (fun _ _ _ => id) fun _ => rfl
  rooted := .declare e e

/-- The documents of the container are the rows of the root. -/
theorem Stage.starts_root (hL : L.depth = 0) :
    Stage.Starts env D L D.documents fun e => e.isRoot = true := by
  intro e he
  cases e with
  | constant value ty =>
    refine ⟨rfl, fun s t st hs hrun => ?_⟩
    rw [Compilation.rows.eq_def] at hrun
    obtain ⟨s', t', hget, hrun⟩ := Compilation.bind_eq_ok.mp hrun
    cases hget
    rw [if_neg (by rw [Scope.inSubquery, hs.depth, hL]; decide), if_pos he] at hrun
    obtain rfl := (pure_eq_ok.mp hrun).1
    have hrows : Stage.root.rows D = D.documents := Stage.rows_ofSource (D := D) .container
    exact ⟨.ofSource _, congrArg Except.ok hrows.symm, fun _ => rfl, by rintro _ _ ⟨⟩⟩
  | _ => cases he

theorem Expr.staticCall_calls {method : Method} (h : method.isOperator = true) (args : List Expr)
    (ty : HostType) : (Expr.staticCall method args ty).Calls method.name args :=
  ⟨_, _, _, rfl, h, rfl⟩

/-- **Chains keep their meaning.** Where a chain of operators over the container is compiled, the
query selects the rows that the operators make of the documents, one after the other. -/
theorem Expr.toQuery_chain {e folded : Expr} {c : Chain} {q : Query} (hD : D.Lawful)
    (henv : env.Plain)
    (hfold : e.fold env.evaluator = .ok folded) (hc : c.IsExpr (fun e => e.isRoot = true) folded)
    (horder : c.operators.countP Operator.isOrder ≤ 1)
    (hsized : Operator.Sized env D ⟨0, [], D.parameter⟩ D.documents c.operators)
    (hq : e.toQuery env = .ok q) :
    c.rows env D ⟨0, [], D.parameter⟩ D.documents = .ok (q.rows D D.nothing) := by
  have hquery : Compilation.query env e .initial = (.ok q, (Compilation.query env e .initial).2) :=
    Prod.ext hq rfl
  rw [Setting.query_eq env hfold] at hquery
  obtain ⟨st, t, hrows, hflattened⟩ := Compilation.bind_eq_ok.mp hquery
  have hst : st.toQuery = .ok q := flattened_eq_ok hflattened
  rw [← Chain.selected_of_outermost rfl]
  exact hc.query hD henv rfl (Stage.starts_root rfl) horder hsized
    (Scope.top_declare env folded D.parameter) hrows hst

/-- Of the documents in order, those that are not too small, each one greater. -/
theorem Expr.toQuery_chain_greater :
    let env : Environment := ⟨.default, Interpreter.empty.evaluate⟩
    let size := (Expr.parameter "r" (.model "Row")).property "Size" .int32
    let big := Expr.compare .greaterThanOrEqual size (.int 3)
    let e := (((Queryable.root (.model "Row")).orderBy (.unary "r" (.model "Row") size)).filter
      (.unary "r" (.model "Row") big)).select (.unary "r" (.model "Row")
        (.binary .add size (.int 1) .int32)) |>.expr
    let D := Database.ofNumbers [.number 5, .number 1, .number 4, .number 3]
    ∃ q, e.toQuery env = .ok q ∧ q.rows D D.nothing = [.number 4, .number 5, .number 6] := by
  intro env size big e D
  let c : Chain := ⟨[.select ⟨"r", .binary .add size (.int 1) .int32⟩, .filter ⟨"r", big⟩,
    .orderBy [(⟨"r", size⟩, false)]], .rows⟩
  have hfold : e.fold env.evaluator = .ok e := by
    subst e big size env
    cbv
  have hc : c.IsExpr (fun e => e.isRoot = true) e := by
    refine .rows (.select (staticCall_calls rfl _ _) ?_ ⟨_, rfl⟩)
    refine .filter (staticCall_calls rfl _ _) ?_ ⟨_, rfl⟩
    exact .orderBy false (staticCall_calls rfl _ _) (.start rfl) ⟨_, rfl⟩
  have hsized : Operator.Sized env D ⟨0, [], D.parameter⟩ D.documents c.operators := by
    intro n ops hops
    simp [c, List.suffix_cons_iff] at hops
  have hrows : c.rows env D ⟨0, [], D.parameter⟩ D.documents =
      .ok [.number 4, .number 5, .number 6] := by
    subst c big size D env
    cbv
  have hok : (e.toQuery env).isOk = true := by
    subst e big size env
    cbv
  cases hq : e.toQuery env with
  | error _ =>
    rw [hq] at hok
    cases hok
  | ok q =>
    have hq := toQuery_chain (Database.ofNumbers_lawful _) (Environment.plain_default _) hfold hc
      (by decide) hsized hq
    exact ⟨q, rfl, Except.ok.inj (hq.symm.trans hrows)⟩

end LambdaQuery
