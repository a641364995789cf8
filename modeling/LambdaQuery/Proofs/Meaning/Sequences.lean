import LambdaQuery.Proofs.Meaning.Joins

/-!
# The rows of operators one after the other

From rows that a stage has to start with, every operator of a chain makes the rows of the next stage
(`Stage.Has`). Only one of them sorts: of the rows that come to it, none are sorted yet.
-/

set_option autoImplicit false

namespace LambdaQuery

open Compilation

variable {V : Type} [DecidableEq V] {D : Database V} {env : Environment} {L : Locals V}

/-- What is skipped of is not more than a count may say. -/
def Operator.Sized (env : Environment) (D : Database V) (L : Locals V) (base : List V)
    (ops : List Operator) : Prop :=
  ∀ n ops', .skip n :: ops' <:+ ops → ∀ rows, Operator.rows env D L base ops' = .ok rows →
    rows.length < 2 ^ 63

/-- A stage has the rows that operators make of others. -/
structure Stage.Has (env : Environment) (D : Database V) (L : Locals V) (base : List V)
    (ops : List Operator) (st : Stage) : Prop where
  fit : st.Fit D
  rows : Operator.rows env D L base ops = .ok (st.rows D)
  unsorted : ops.any Operator.isOrder = false → st.layer.orderBy = []
  sorts : ∀ keys ops', ops = .orderBy keys :: ops' →
    ∃ rows, Operator.rows env D L base ops' = .ok rows ∧ Stage.Sorts env D L keys rows st

namespace Stage.Has

variable {base : List V} {ops : List Operator} {st input x : Stage} {method : String} {n : Nat}
  {op : Operator}

/-- Another operator makes its rows of those before. -/
theorem rows_cons (h : input.Has env D L base ops)
    (hrows : op.apply env D L (input.rows D) = .ok (st.rows D)) :
    Operator.rows env D L base (op :: ops) = .ok (st.rows D) := by
  rw [Operator.rows, h.rows]
  exact hrows

/-- An operator that sorts nothing. -/
theorem step (h : input.Has env D L base ops) (hlayer : Layered method n input x)
    (hop : op.isOrder = false)
    (hst : st.Fit D ∧ op.apply env D L (input.rows D) = .ok (st.rows D) ∧
      st.layer.orderBy = x.layer.orderBy) : st.Has env D L base (op :: ops) where
  fit := hst.1
  rows := h.rows_cons hst.2.1
  unsorted hany := by
    rw [List.any_cons, hop] at hany
    exact hst.2.2.trans (hlayer.orderBy (h.unsorted hany))
  sorts keys ops' he := by
    cases he
    cases hop

/-- The operator that sorts. -/
theorem order (hD : D.Lawful) {keys : List (RowLambda × Bool)} {rows : List V}
    (hrows : Operator.rows env D L base ops = .ok rows)
    (hst : Stage.Sorts env D L keys rows st) : st.Has env D L base (.orderBy keys :: ops) where
  fit := (hst.fit hD).1
  rows := by
    rw [Operator.rows, hrows]
    exact (hst.fit hD).2
  unsorted hany := nomatch hany
  sorts keys' ops' he := by
    cases he
    exact ⟨rows, hrows, hst⟩

end Stage.Has

/-! ## Runs -/

/-- What a chain starts from has the given rows. -/
def Stage.Starts (env : Environment) (D : Database V) (L : Locals V) (base : List V)
    (start : Expr → Prop) : Prop :=
  ∀ e, start e → e.isGrouping = false ∧ ∀ s t st, s.Top env L →
    Compilation.rows env e s = (.ok st, t) → st.Has env D L base []

section

variable (hD : D.Lawful) (henv : env.Plain) (hL : D.parameter = L.values) {base : List V}
  {start : Expr → Prop} (hstart : Stage.Starts env D L base start)

include hD henv hL hstart

/-- **The stage of operators has their rows.** -/
theorem Operator.AreExpr.has {ops : List Operator} {e : Expr}
    (h : Operator.AreExpr start ops e) (horder : ops.countP Operator.isOrder ≤ 1)
    (hsized : Operator.Sized env D L base ops) {s t : Scope} (hs : s.Top env L) {st : Stage}
    (hrun : Compilation.rows env e s = (.ok st, t)) : st.Has env D L base ops := by
  have hgroup : ∀ e, start e → e.isGrouping = false := fun e he => (hstart e he).1
  have hbefore : ∀ {op : Operator} {ops : List Operator},
      Operator.Sized env D L base (op :: ops) → Operator.Sized env D L base ops :=
    fun h n ops' hsuffix => h n ops' (hsuffix.trans (List.suffix_cons _ _))
  induction h generalizing s t st with
  | start he => exact (hstart _ he).2 s t st hs hrun
  | filter h hsource hl ih =>
    obtain ⟨s', u, input, x, v, hs', hrows, happlies⟩ :=
      h.applies (hsource.isGrouping hgroup) hs hrun
    have hin := ih horder (hbefore hsized) hs' hrows
    exact hin.step happlies.layered rfl (happlies.filter hD henv hL hl hin.fit)
  | select h hsource hl ih =>
    obtain ⟨s', u, input, x, v, hs', hrows, happlies⟩ :=
      h.applies (hsource.isGrouping hgroup) hs hrun
    have hin := ih horder (hbefore hsized) hs' hrows
    exact hin.step happlies.layered rfl (happlies.select hD henv hL hl hin.fit)
  | selectMany h hsource hl hp ih =>
    obtain ⟨s', u, input, x, v, hs', hrows, happlies⟩ :=
      h.applies (hsource.isGrouping hgroup) hs hrun
    have hin := ih horder (hbefore hsized) hs' hrows
    exact hin.step happlies.layered rfl (happlies.selectMany hD henv hL hl hp hin.fit)
  | @orderBy _ _ _ ops _ descending h hsource hl ih =>
    obtain ⟨s', u, input, x, v, hs', hrows, happlies⟩ :=
      h.applies (hsource.isGrouping hgroup) hs hrun
    have hcount : ops.countP Operator.isOrder = 0 := by
      rw [List.countP_cons_of_pos rfl] at horder
      omega
    have hin := ih (by omega) (hbefore hsized) hs' hrows
    have hany : ops.any Operator.isOrder = false := by
      simpa [List.countP_eq_zero] using hcount
    exact .order hD hin.rows (happlies.orderBy hD henv hL hl hin.fit (hin.unsorted hany))
  | @thenBy _ _ _ ops _ keys descending h hsource hl ih =>
    obtain ⟨s', u, input, x, v, hs', hrows, happlies⟩ :=
      h.applies (hsource.isGrouping hgroup) hs hrun
    have hsized' : Operator.Sized env D L base (.orderBy keys :: ops) := by
      intro n ops' hsuffix
      rcases List.suffix_cons_iff.mp hsuffix with he | hsuffix
      · cases he
      · exact hbefore hsized n ops' hsuffix
    obtain ⟨rows, hops, hsorts⟩ := (ih horder hsized' hs' hrows).sorts keys ops rfl
    exact .order hD hops (happlies.thenBy hD henv hL hl hsorts)
  | distinct h hsource ih =>
    obtain ⟨s', u, input, x, v, hs', hrows, happlies⟩ :=
      h.applies (hsource.isGrouping hgroup) hs hrun
    have hin := ih horder (hbefore hsized) hs' hrows
    obtain ⟨hfit, hst, hord⟩ := happlies.distinct hin.fit
    exact hin.step happlies.layered rfl ⟨hfit, congrArg Except.ok hst.symm, hord⟩
  | take h hsource hn ih =>
    obtain ⟨s', u, input, x, v, hs', hrows, happlies⟩ :=
      h.applies (hsource.isGrouping hgroup) hs hrun
    have hin := ih horder (hbefore hsized) hs' hrows
    obtain ⟨hfit, hst, hord⟩ := happlies.take henv hn hin.fit
    exact hin.step happlies.layered rfl ⟨hfit, congrArg Except.ok hst.symm, hord⟩
  | skip h hsource hn ih =>
    obtain ⟨s', u, input, x, v, hs', hrows, happlies⟩ :=
      h.applies (hsource.isGrouping hgroup) hs hrun
    have hin := ih horder (hbefore hsized) hs' hrows
    obtain ⟨hfit, hst, hord⟩ := happlies.skip henv hn hin.fit
      (hsized _ _ (List.suffix_refl _) _ hin.rows)
    exact hin.step happlies.layered rfl ⟨hfit, congrArg Except.ok hst.symm, hord⟩

end

end LambdaQuery
