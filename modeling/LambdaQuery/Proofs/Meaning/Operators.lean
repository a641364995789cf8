import LambdaQuery.Proofs.Meaning.Inversion

/-!
# The rows of compiled operators

When an operator is applied to a stage with the rows of the operators before it, the stage that
comes out has the rows that the operator makes of them (`Applies.filter` and so on).
-/

set_option autoImplicit false

namespace LambdaQuery

open Compilation

variable {V : Type} [DecidableEq V] {D : Database V} {env : Environment} {L : Locals V}

/-! ## Layers of operators -/

namespace Compilation.Layered

variable {method : String} {n : Nat} {st x : Stage} (h : Layered method n st x)

include h

theorem fit (hst : st.Fit D) : x.Fit D ∧ x.rows D = st.rows D := by
  cases h with
  | same => exact ⟨hst, rfl⟩
  | packaged => exact ⟨hst.package, Stage.rows_package⟩

theorem unbounded (hst : st.Unbounded) : x.Unbounded := by
  cases h with
  | same => exact hst
  | packaged => exact hst.package

theorem orderBy (hst : st.layer.orderBy = []) : x.layer.orderBy = [] := by
  cases h with
  | same => exact hst
  | packaged => rfl

/-- Nothing is selected yet where selecting anew takes a layer. -/
theorem selection (hn : st.needsLayer method n = st.layer.selection.isSome) :
    x.layer.selection = none := by
  cases h with
  | same h => simpa [h] using hn.symm
  | packaged => rfl

end Compilation.Layered

theorem Stage.orderBy_addTop {s u : Stage} {c : Count} (h : addTop c s = (.ok (), u)) :
    u.layer.orderBy = s.layer.orderBy := by
  have h := addTop_eq_ok.mp h
  split at h
  · obtain ⟨limit, -, rfl⟩ := addLimit_eq_ok.mp h
    rfl
  · obtain ⟨top, -, rfl⟩ := h
    rfl

theorem Stage.orderBy_addOffset {s u : Stage} {c : Count} (h : addOffset c s = (.ok (), u)) :
    u.layer.orderBy = s.layer.orderBy := by
  obtain ⟨offset, -, rfl⟩ := addOffset_eq_ok.mp h
  rfl

/-! ## Lambdas of operators -/

omit [DecidableEq V] in
/-- Lambdas may range over the rows of a stage. -/
theorem Setting.Open.isRow {v : Scope} {x : Stage}
    (h : (Setting.self env).Open L.frame v v x x) (hv : v.group = none) : x.layer.row.IsRow v where
  names := h.rowClause.right
  single := h.row_single hv

/-- What is compiled with a parameter for the rows of a stage. -/
theorem Scope.Around.ranged {v w : Scope} (hv : v.Around L) (hD : D.Lawful) (henv : env.Plain)
    (hL : D.parameter = L.values) {x x' : Stage} {l : RowLambda} {b : Scalar}
    {name : String} {cs : List Collection} (hc : v.collections = .outer name :: cs)
    (hrow : x.layer.row.IsRow v)
    (hrun : withRow l.param x (fun stage => return (← scalar env l.body, stage)) v =
      (.ok (b, x'), w)) :
    x' = x ∧ b.IsRow w ∧ v.Grows w ∧ ∃ f, l.ofRow env D L = .ok f ∧ x.layer.Reads D b f := by
  obtain ⟨u, hbound, rfl⟩ := withRow_outer_eq_ok hc hrun
  obtain ⟨b', u', hscalar, hpure⟩ := Compilation.bind_eq_ok.mp hbound
  obtain ⟨hp, rfl⟩ := pure_eq_ok.mp hpure
  obtain ⟨rfl, rfl⟩ := Prod.mk.inj hp
  obtain ⟨f, hf, hval, hgrows, hb⟩ := hv.ofRow hD henv hL hrow hscalar
  exact ⟨rfl, ⟨hb.names, hb.single⟩, hgrows.afterLambda, f, hf, hval⟩

/-- A lambda over the rows of a stage. -/
theorem Scope.Around.selected {v w : Scope} (hv : v.Around L) (hD : D.Lawful) (henv : env.Plain)
    (hL : D.parameter = L.values) {x x' : Stage} {l : RowLambda} {arg : Expr} {b : Scalar}
    {name : String} {cs : List Collection} (hc : v.collections = .outer name :: cs)
    (hrow : x.layer.row.IsRow v) (hl : l.IsArg arg) {method : String}
    (hrun : Compilation.selected env method [arg] x v = (.ok (b, x'), w)) :
    x' = x ∧ b.IsRow w ∧ v.Grows w ∧ ∃ f, l.ofRow env D L = .ok f ∧ x.layer.Reads D b f := by
  obtain ⟨hsize, hselector⟩ := hl.selector? method
  rw [Compilation.selected, hselector] at hrun
  exact hv.ranged hD henv hL hc hrow (bind_ofExcept_ok hrun)

/-! ## Operators -/

/-- `method` is applied to `x`, which is `input` with a layer of its own where it needs one. -/
structure Applies (env : Environment) (L : Locals V) (method : String) (rest : List Expr)
    (input x : Stage) (v : Scope) (st : Stage) : Prop where
  check : checkOrder input method = .ok ()
  layered : Layered method (rest.length + 1) input x
  top : v.Top env L
  outer : ∃ name cs, v.collections = .outer name :: cs
  stage : (Setting.self env).Open L.frame v v x x
  run : ∃ w, apply env method rest x v = (.ok st, w)

omit [DecidableEq V] in
/-- A call applies its operator to the stage of its source. -/
theorem Expr.Calls.applies {e source : Expr} {name : String} {args : List Expr}
    (h : e.Calls name (source :: args)) (hsource : source.isGrouping = false) {s t : Scope}
    (hs : s.Top env L) {st : Stage} (hrun : Compilation.rows env e s = (.ok st, t)) :
    ∃ s' u input x v, s'.Top env L ∧ Compilation.rows env source s' = (.ok input, u) ∧
      Applies env L name args input x v st := by
  obtain ⟨target, method, ty, rfl, hop, rfl⟩ := h
  obtain ⟨u, hoperator, -⟩ := rows_call hop hrun
  obtain ⟨input, x, u', v, w, hrows, hcheck, hlayered, hv, houter, hopen, happly⟩ :=
    (hs.pushMethod method.name).operator (List.cons_ne_nil _ _) hsource hoperator
  exact ⟨_, u', input, x, v, hs.pushMethod _, hrows, hcheck, hlayered, hv, houter, hopen, w, happly⟩

/-- Sorting a stage with the rows of operators, none of which has sorted them, makes this stage. -/
def Stage.Sorts (env : Environment) (D : Database V) (L : Locals V)
    (keys : List (RowLambda × Bool)) (rows : List V) (st : Stage) : Prop :=
  ∃ (x : Stage) (ks : List SortKey) (fs : List ((V → V) × Bool)), x.Fit D ∧ x.Unbounded ∧
    x.layer.orderBy = [] ∧ x.layer.ReadKeys D ks fs ∧ keys.mapM (RowLambda.key env D L) = .ok fs ∧
      rows = x.rows D ∧ st = x.mapLayer ({ · with orderBy := ks })

/-- Such a stage has the sorted rows. -/
theorem Stage.Sorts.fit (hD : D.Lawful) {keys : List (RowLambda × Bool)} {rows : List V}
    {st : Stage} (h : st.Sorts env D L keys rows) :
    st.Fit D ∧ Operator.apply env D L rows (.orderBy keys) = .ok (st.rows D) := by
  obtain ⟨x, ks, fs, hfit, hu, hord, hkeys, hfs, rfl, rfl⟩ := h
  obtain ⟨hst, -, hrows⟩ := hfit.setOrderBy hD hu hord hkeys
  refine ⟨hst, ?_⟩
  rw [Operator.apply, hfs, hrows]
  rfl

namespace Applies

variable {method : String} {args : List Expr} {input x st : Stage} {v : Scope}
  {l : RowLambda} {arg : Expr} {rows : List V}

section

variable (h : Applies env L method args input x v st)

include h

omit [DecidableEq V] in
/-- An operator that may follow no limit is applied where there is none. -/
theorem unbounded (htake : allowedAfterTake.contains method = false)
    (hskip : allowedAfterSkip.contains method = false) : x.Unbounded :=
  have hcheck := checkOrder_eq_ok h.check
  h.layered.unbounded ⟨hcheck.2.1 htake, hcheck.2.2 hskip⟩

omit [DecidableEq V] in
theorem isRow : x.layer.row.IsRow v := h.stage.isRow h.top.group

theorem selected (hD : D.Lawful) (henv : env.Plain) (hL : D.parameter = L.values)
    (hl : l.IsArg arg) {m : String} {p : Scalar × Stage} {w : Scope}
    (hrun : Compilation.selected env m [arg] x v = (.ok p, w)) :
    p.2 = x ∧ p.1.IsRow w ∧ v.Grows w ∧
      ∃ f, l.ofRow env D L = .ok f ∧ x.layer.Reads D p.1 f :=
  let ⟨_, _, hc⟩ := h.outer
  h.top.selected hD henv hL hc h.isRow hl hrun

end

section

variable (hD : D.Lawful) (henv : env.Plain) (hL : D.parameter = L.values) (hl : l.IsArg arg)
  (hin : input.Fit D)

include hD henv hL hl hin

theorem filter (h : Applies env L "Where" [arg] input x v st) :
    st.Fit D ∧ Operator.apply env D L (input.rows D) (.filter l) = .ok (st.rows D) ∧
      st.layer.orderBy = x.layer.orderBy := by
  obtain ⟨w, hrun⟩ := h.run
  rw [apply.eq_1] at hrun
  obtain ⟨p, u, hselected, hpure⟩ := Compilation.bind_eq_ok.mp hrun
  obtain ⟨hx, -, -, f, hf, hreads⟩ := h.selected hD henv hL hl hselected
  obtain rfl := (pure_eq_ok.mp hpure).1
  obtain ⟨hfit, hrows⟩ := h.layered.fit hin
  obtain ⟨hst, -, hkept⟩ := hfit.addWhere hD (h.unbounded (by decide) (by decide)) hreads
  rw [hx]
  refine ⟨hst, ?_, rfl⟩
  rw [Operator.apply, RowLambda.keep, hf, hkept, hrows]
  rfl

theorem select (h : Applies env L "Select" [arg] input x v st) :
    st.Fit D ∧ Operator.apply env D L (input.rows D) (.select l) = .ok (st.rows D) ∧
      st.layer.orderBy = x.layer.orderBy := by
  obtain ⟨w, hrun⟩ := h.run
  rw [apply.eq_2] at hrun
  obtain ⟨p, u, hselected, hedit⟩ := Compilation.bind_eq_ok.mp hrun
  obtain ⟨hx, hrow, -, f, hf, hreads⟩ := h.selected hD henv hL hl hselected
  have hselect := (edit_eq_ok hedit).1
  rw [hx] at hselect
  obtain ⟨hfit, hrows⟩ := h.layered.fit hin
  obtain ⟨hst, hmapped⟩ := hfit.addSelect hreads hrow.single hselect
  refine ⟨hst, ?_, ?_⟩
  · rw [Operator.apply, RowLambda.each, hf, hmapped, hrows]
    rfl
  · rw [(Stage.addSelect_eq_ok.mp hselect).2]
    rfl

end

/-! ### Sorting -/

section

variable (hD : D.Lawful) (henv : env.Plain) (hL : D.parameter = L.values) (hl : l.IsArg arg)

include hD henv hL hl

theorem orderBy {descending : Bool} (hin : input.Fit D)
    (h : Applies env L (sortName false descending) [arg] input x v st)
    (hord : input.layer.orderBy = []) :
    Stage.Sorts env D L [(l, descending)] (input.rows D) st := by
  obtain ⟨w, hrun⟩ := h.run
  have happly : Compilation.apply env (sortName false descending) [arg] x =
      Compilation.selected env (sortName false descending) [arg] x >>= fun p =>
        pure (p.2.addOrderBy ⟨p.1, descending⟩) := by
    cases descending
    · exact apply.eq_5 ..
    · exact apply.eq_6 ..
  rw [happly] at hrun
  obtain ⟨p, u, hselected, hpure⟩ := Compilation.bind_eq_ok.mp hrun
  obtain ⟨hx, -, -, f, hf, hreads⟩ := h.selected hD henv hL hl hselected
  obtain rfl := (pure_eq_ok.mp hpure).1
  obtain ⟨hfit, hsame⟩ := h.layered.fit hin
  have hu : x.Unbounded := by
    cases descending
    · exact h.unbounded (by decide) (by decide)
    · exact h.unbounded (by decide) (by decide)
  refine ⟨x, [⟨p.1, descending⟩], [(f, descending)], hfit, hu, h.layered.orderBy hord,
    .cons ⟨rfl, hreads⟩ .nil, ?_, hsame.symm, by rw [hx]; rfl⟩
  rw [List.mapM_cons, RowLambda.key, hf]
  rfl

theorem thenBy {descending : Bool} {keys : List (RowLambda × Bool)}
    (h : Applies env L (sortName true descending) [arg] input x v st)
    (hsorts : Stage.Sorts env D L keys rows input) :
    Stage.Sorts env D L (keys ++ [(l, descending)]) rows st := by
  obtain ⟨w, hrun⟩ := h.run
  have happly : Compilation.apply env (sortName true descending) [arg] x =
      Compilation.selected env (sortName true descending) [arg] x >>= fun p =>
        edit p.2 (Stage.thenBy ⟨p.1, descending⟩) := by
    cases descending
    · exact apply.eq_7 ..
    · exact apply.eq_8 ..
  have hinput : x = input := by
    cases h.layered with
    | same => rfl
    | packaged name hn => cases descending <;> cases hn
  rw [happly] at hrun
  obtain ⟨p, u, hselected, hedit⟩ := Compilation.bind_eq_ok.mp hrun
  obtain ⟨hx, -, -, f, hf, hreads⟩ := h.selected hD henv hL hl hselected
  have hthen := (Stage.thenBy_eq_ok.mp (edit_eq_ok hedit).1).2
  obtain ⟨y, ks, fs, hfit, hu, hord, hkeys, hfs, hrows, hy⟩ := hsorts
  rw [hx, hinput, hy] at hthen
  rw [hinput, hy] at hreads
  have hnext : y.layer.Reads D p.1 f := hreads
  have hst : st = y.mapLayer ({ · with orderBy := ks ++ [⟨p.1, descending⟩] }) := hthen
  refine ⟨y, ks ++ [⟨p.1, descending⟩], fs ++ [(f, descending)], hfit, hu, hord,
    List.rel_append hkeys (.cons ⟨rfl, hnext⟩ .nil), ?_, hrows, hst⟩
  rw [List.mapM_append, hfs, List.mapM_cons, RowLambda.key, hf]
  rfl

end

/-! ### Duplicates and bounds -/

theorem distinct (hin : input.Fit D) (h : Applies env L "Distinct" [] input x v st) :
    st.Fit D ∧ st.rows D = Rows.distinct (input.rows D) ∧
      st.layer.orderBy = x.layer.orderBy := by
  obtain ⟨w, hrun⟩ := h.run
  rw [apply.eq_13] at hrun
  obtain rfl := (pure_eq_ok.mp hrun).1
  obtain ⟨hfit, hrows⟩ := h.layered.fit hin
  obtain ⟨hst, -, hdistinct⟩ := hfit.setDistinct (h.unbounded (by decide) (by decide))
  exact ⟨hst, hrows ▸ hdistinct, rfl⟩

/-- A literal count is not negative. -/
theorem count_eq_ok (henv : env.Plain) {method : String} {n : Int64} {c : Count} {w : Scope}
    (hn : arg.IsCount n) (hrun : Compilation.count env.options method arg v = (.ok c, w)) :
    c = .literal n ∧ 0 ≤ n.toInt := by
  obtain ⟨value, hconstant, hvalue⟩ := Option.bind_eq_some_iff.mp hn
  have hbind : bindConstant env.options value v = (.ok none, v) := by
    rw [bindConstant_eq, henv.parameters]
    rfl
  unfold Compilation.count at hrun
  rw [hconstant] at hrun
  obtain ⟨name, u, hbound, hcount⟩ := Compilation.bind_eq_ok.mp hrun
  cases hbind.symm.trans hbound
  dsimp only at hcount
  rw [hvalue] at hcount
  dsimp only at hcount
  by_cases hpos : 0 ≤ n.toInt
  · rw [if_pos hpos] at hcount
    exact ⟨(pure_eq_ok.mp hcount).1, hpos⟩
  · rw [if_neg hpos] at hcount
    cases hcount

section

variable (henv : env.Plain) {n : Int64} (hn : arg.IsCount n) (hin : input.Fit D)

include henv hn hin

theorem take (h : Applies env L "Take" [arg] input x v st) :
    st.Fit D ∧ st.rows D = (input.rows D).take n.toInt.toNat ∧
      st.layer.orderBy = x.layer.orderBy := by
  obtain ⟨w, hrun⟩ := h.run
  rw [apply.eq_9] at hrun
  obtain ⟨c, u, hcount, hedit⟩ := Compilation.bind_eq_ok.mp hrun
  obtain ⟨rfl, -⟩ := count_eq_ok henv hn hcount
  have htop := (edit_eq_ok hedit).1
  obtain ⟨hfit, hrows⟩ := h.layered.fit hin
  obtain ⟨hst, htaken⟩ := hfit.addTop htop
  exact ⟨hst, hrows ▸ htaken, Stage.orderBy_addTop htop⟩

theorem skip (h : Applies env L "Skip" [arg] input x v st)
    (hsize : (input.rows D).length < 2 ^ 63) :
    st.Fit D ∧ st.rows D = (input.rows D).drop n.toInt.toNat ∧
      st.layer.orderBy = x.layer.orderBy := by
  obtain ⟨w, hrun⟩ := h.run
  have hinput : x = input := by
    cases h.layered with
    | same => rfl
    | packaged name hn => cases hn
  rw [hinput, apply.eq_11] at hrun
  obtain ⟨c, u, hcount, hedit⟩ := Compilation.bind_eq_ok.mp hrun
  obtain ⟨rfl, hpos⟩ := count_eq_ok henv hn hcount
  have hoffset := (edit_eq_ok hedit).1
  obtain ⟨hst, hskipped⟩ :=
    hin.addOffset hpos ((checkOrder_eq_ok h.check).2.1 (by decide)) hsize hoffset
  exact ⟨hst, hskipped, hinput ▸ Stage.orderBy_addOffset hoffset⟩

end

end Applies

end LambdaQuery
