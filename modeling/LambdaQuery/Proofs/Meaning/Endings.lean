import LambdaQuery.Proofs.Meaning.Sequences
import LambdaQuery.Proofs.Operators

/-!
# The rows of ended chains

An ending makes its rows of those that a stage has (`Applies.ending`). In a nested query, whether
there are any rows is not for the query to say: it selects them.
-/

set_option autoImplicit false

namespace LambdaQuery

open Compilation

variable {V : Type} [DecidableEq V] {D : Database V} {env : Environment} {L : Locals V}

/-- The rows that the query of an ending selects. -/
def Ending.selected (env : Environment) (D : Database V) (L : Locals V) (rows : List V) :
    Ending → Except CompileError (List V)
  | .any l =>
    if L.depth = 0 then Ending.apply env D L rows (.any l) else RowLambda.keep env D L l rows
  | ending => ending.apply env D L rows

theorem Compilation.requireLast_eq_ok {method : String} {a : Unit} {s t : Scope}
    (h : requireLast method s = (.ok a, t)) : t = s := by
  unfold requireLast at h
  obtain ⟨s', s'', hget, h⟩ := Compilation.bind_eq_ok.mp h
  cases hget
  split at h
  · cases h
  · exact (pure_eq_ok.mp h).2

/-- A stage that selects a total is what is returned. -/
theorem Compilation.selectTotal_eq_ok {value : Scalar} {y st : Stage} {u w : Scope}
    (h : (do
      let stage ← edit y (Stage.addSelect (.ofValue value))
      setOperation .firstOrDefault
      return stage : Compilation Stage) u = (.ok st, w)) :
    Stage.addSelect (.ofValue value) y = (.ok (), st) := by
  obtain ⟨st', u', hedit, h⟩ := Compilation.bind_eq_ok.mp h
  obtain ⟨_, u'', -, h⟩ := Compilation.bind_eq_ok.mp h
  obtain rfl := (pure_eq_ok.mp h).1
  exact (edit_eq_ok hedit).1

namespace Applies

section

variable {method : String} {args : List Expr} {input x st y : Stage} {v w : Scope}
  {l : Option RowLambda} (hD : D.Lawful) (henv : env.Plain) (hL : D.parameter = L.values)
  (hl : RowLambda.AreArgs l args) (h : Applies env L method args input x v st)

include hD henv hL hl h

/-- The rows that a predicate, if there is one, leaves to what follows. -/
theorem kept {f : Stage → Compilation Stage} (hfit : x.Fit D) (hu : x.Unbounded)
    (hrun : (if args.isEmpty = true then do
        let stage ← pure x
        f stage
      else do
        let (filter, stage) ← Compilation.selected env method args x
        let stage ← pure (stage.addWhere filter)
        f stage : Compilation Stage) v = (.ok y, w)) :
    ∃ (x' : Stage) (u : Scope), u.depth = v.depth ∧ x'.Fit D ∧ x'.Unbounded ∧
      RowLambda.keep env D L l (x.rows D) = .ok (x'.rows D) ∧ f x' u = (.ok y, w) := by
  cases l with
  | none =>
    obtain rfl : args = [] := hl
    exact ⟨x, v, rfl, hfit, hu, rfl, hrun⟩
  | some l =>
    obtain ⟨arg, rfl, hl⟩ := hl
    obtain ⟨p, u, hselected, hrest⟩ := Compilation.bind_eq_ok.mp hrun
    obtain ⟨hx, -, hgrows, g, hg, hreads⟩ := h.selected hD henv hL hl hselected
    obtain ⟨hkept, hu', hwhere⟩ := hfit.addWhere hD hu hreads
    refine ⟨x.addWhere p.1, u, hgrows.depth, hkept, hu', ?_, hx ▸ hrest⟩
    rw [RowLambda.keep, hg, hwhere]
    rfl

/-- What a lambda, if there is one, makes of the rows. -/
theorem operand {f : Scalar × Stage → Compilation Stage}
    (hrun : (if args.isEmpty = true then pure (x.layer.row, x) >>= f
      else Compilation.selected env method args x >>= f : Compilation Stage) v = (.ok y, w)) :
    ∃ (b : Scalar) (u : Scope) (g : V → V),
      RowLambda.each env D L l (x.rows D) = .ok ((x.rows D).map g) ∧ x.layer.Reads D b g ∧
        f (b, x) u = (.ok y, w) := by
  cases l with
  | none =>
    obtain rfl : args = [] := hl
    exact ⟨x.layer.row, v, id, by rw [List.map_id]; rfl, fun _ => rfl, hrun⟩
  | some l =>
    obtain ⟨arg, rfl, hl⟩ := hl
    obtain ⟨p, u, hselected, hrest⟩ := Compilation.bind_eq_ok.mp hrun
    obtain ⟨hx, -, -, g, hg, hreads⟩ := h.selected hD henv hL hl hselected
    refine ⟨p.1, u, g, by rw [RowLambda.each, hg]; rfl, hreads, ?_⟩
    rw [← hrest, ← hx]

variable (hin : input.Fit D)

include hin

/-- The stage whose rows are counted, unless a nested query selects them. -/
theorem counted (hm : method = "Count" ∨ method = "Any") :
    ∃ y : Stage, y.Fit D ∧ y.Unbounded ∧
      RowLambda.keep env D L l (input.rows D) = .ok (y.rows D) ∧
        if (method == "Any" && L.depth != 0) = true then st = y
        else Stage.addSelect (.ofValue (if (method == "Any") = true then anyRows else countAll)) y =
          (.ok (), st) := by
  have hu : x.Unbounded := by
    rcases hm with rfl | rfl
    · exact h.unbounded (by decide) (by decide)
    · exact h.unbounded (by decide) (by decide)
  have hargs : ¬1 < args.length := by
    cases l with
    | none => rw [show args = [] from hl]; decide
    | some l =>
      obtain ⟨arg, rfl, -⟩ := hl
      exact Nat.lt_irrefl 1
  obtain ⟨hfit, hrows⟩ := h.layered.fit hin
  obtain ⟨w, hrun⟩ := h.run
  rw [apply_counted _ _ hm, if_neg hargs] at hrun
  obtain ⟨_, u, hlast, hkept⟩ := Compilation.bind_eq_ok.mp hrun
  obtain rfl := requireLast_eq_ok hlast
  obtain ⟨y, u', hdepth, hfit', hu', hkeep, hrest⟩ := h.kept hD henv hL hl hfit hu hkept
  obtain ⟨s', s'', hget, hselect⟩ := Compilation.bind_eq_ok.mp hrest
  cases hget
  have hin : u'.inSubquery = (L.depth != 0) := by
    rw [Scope.inSubquery, hdepth, h.top.depth]
  refine ⟨y, hfit', hu', hrows ▸ hkeep, ?_⟩
  rw [← hin]
  split at hselect
  · rename_i hnested
    rw [if_pos hnested]
    exact (pure_eq_ok.mp hselect).1
  · rename_i hnested
    rw [if_neg hnested]
    exact selectTotal_eq_ok hselect

/-- The row of an aggregate of the rows, or of what a lambda makes of them, if there is one. -/
theorem aggregated {function : String} (hf : aggregate? method = some function) :
    ∃ operands, RowLambda.each env D L l (input.rows D) = .ok operands ∧
      Layer.Regular D st.layers ∧
        st.rows D = (D.aggregate function (operands.map ([·]))).toList := by
  have hplain : method ∉ plainOperators := fun hm => by
    rw [aggregate?_plainOperators _ hm] at hf
    cases hf
  obtain ⟨haggregate, hcount⟩ := contains_of_aggregate? hf
  have hallowed : allowedAfterTake.contains method = false ∧
      allowedAfterSkip.contains method = false := by
    unfold aggregate? at hf
    split at hf <;> cases hf <;> decide
  obtain ⟨htake, hskip⟩ := hallowed
  have hu : x.Unbounded := h.unbounded htake hskip
  obtain ⟨hfit, hrows⟩ := h.layered.fit hin
  obtain ⟨w, hrun⟩ := h.run
  rw [apply_aggregate _ _ hplain, hf] at hrun
  dsimp only at hrun
  split at hrun
  · cases hrun
  obtain ⟨_, u, hlast, hoperand⟩ := Compilation.bind_eq_ok.mp hrun
  obtain rfl := requireLast_eq_ok hlast
  obtain ⟨b, u', g, heach, hreads, hselect⟩ := h.operand hD henv hL hl hoperand
  obtain ⟨hregular, haggregated⟩ :=
    hfit.aggregate hu haggregate hreads (selectTotal_eq_ok hselect)
  rw [hrows] at heach haggregated
  refine ⟨_, heach, hregular, ?_⟩
  rw [haggregated, Database.aggregated, if_neg hcount, List.map_map]
  rfl

end

theorem first {input x st : Stage} {v : Scope} (hin : input.Fit D)
    (h : Applies env L "FirstOrDefault" [] input x v st) :
    st.Fit D ∧ st.rows D = (input.rows D).take 1 := by
  obtain ⟨w, hrun⟩ := h.run
  rw [apply_first, List.isEmpty_nil, if_pos rfl] at hrun
  obtain ⟨_, u, -, hrest⟩ := Compilation.bind_eq_ok.mp hrun
  obtain ⟨st', u', hedit, hrest⟩ := Compilation.bind_eq_ok.mp hrest
  obtain ⟨_, u'', -, hpure⟩ := Compilation.bind_eq_ok.mp hrest
  obtain rfl := (pure_eq_ok.mp hpure).1
  obtain ⟨hfit, hrows⟩ := h.layered.fit hin
  obtain ⟨hst, htaken⟩ := hfit.addTop (edit_eq_ok hedit).1
  exact ⟨hst, hrows ▸ htaken⟩

/-- **The stage of an ending has its rows.** -/
theorem ending {method : String} {args : List Expr} {input x st : Stage} {v : Scope}
    {ending : Ending} (hD : D.Lawful) (henv : env.Plain) (hL : D.parameter = L.values)
    (he : ending.IsCall method args) (hin : input.Fit D)
    (h : Applies env L method args input x v st) : Layer.Regular D st.layers ∧
      ending.selected env D L (input.rows D) = .ok (st.rows D) := by
  cases ending with
  | rows => exact he.elim
  | first =>
    obtain ⟨rfl, rfl⟩ := he
    obtain ⟨hst, hrows⟩ := first hin h
    exact ⟨hst.regular, by rw [hrows]; rfl⟩
  | aggregate a l =>
    obtain ⟨rfl, hl⟩ := he
    obtain ⟨operands, heach, hregular, hrows⟩ :=
      h.aggregated hD henv hL hl hin a.aggregate?_method
    refine ⟨hregular, ?_⟩
    show Ending.apply env D L _ (.aggregate a l) = _
    rw [Ending.apply, heach, hrows]
    rfl
  | count l =>
    obtain ⟨rfl, hl⟩ := he
    obtain ⟨y, hfit, hu, hkeep, hselect⟩ := h.counted hD henv hL hl hin (.inl rfl)
    obtain ⟨hregular, hrows⟩ := hfit.aggregate (f := fun _ => D.literal (.integer 1)) hu
      (by decide) (fun _ => rfl) hselect
    refine ⟨hregular, ?_⟩
    show Ending.apply env D L _ (.count l) = _
    rw [Ending.apply, hkeep, hrows, Database.aggregated, if_pos rfl, List.length_map]
    rfl
  | any l =>
    obtain ⟨rfl, hl⟩ := he
    obtain ⟨y, hfit, hu, hkeep, hselect⟩ := h.counted hD henv hL hl hin (.inr rfl)
    rw [Ending.selected]
    by_cases hdepth : L.depth = 0
    · rw [if_pos hdepth]
      rw [hdepth] at hselect
      obtain ⟨hregular, hrows⟩ := hfit.anyRows hu hselect
      refine ⟨hregular, ?_⟩
      rw [Ending.apply, hkeep, hrows]
      rfl
    · rw [if_neg hdepth]
      rw [if_pos (by simp [hdepth])] at hselect
      exact ⟨hselect ▸ hfit.regular, hselect ▸ hkeep⟩

end Applies

/-! ## Chains -/

/-- The rows that the query of a chain selects. -/
def Chain.selected (env : Environment) (D : Database V) (L : Locals V) (start : List V)
    (c : Chain) :
    Except CompileError (List V) := do
  c.ending.selected env D L (← Operator.rows env D L start c.operators)

/-- **The stage of a chain has its rows.** -/
theorem Chain.IsExpr.stage {start : Expr → Prop} {c : Chain} {e : Expr} (h : c.IsExpr start e)
    (hD : D.Lawful) (henv : env.Plain) (hL : D.parameter = L.values) {base : List V}
    (hstart : Stage.Starts env D L base start) (horder : c.operators.countP Operator.isOrder ≤ 1)
    (hsized : Operator.Sized env D L base c.operators) {s t : Scope} (hs : s.Top env L) {st : Stage}
    (hrun : Compilation.rows env e s = (.ok st, t)) : Layer.Regular D st.layers ∧
      c.selected env D L base = .ok (st.rows D) := by
  cases h with
  | rows h =>
    have hhas := h.has hD henv hL hstart horder hsized hs hrun
    refine ⟨hhas.fit.regular, ?_⟩
    rw [Chain.selected, hhas.rows]
    rfl
  | ending h hsource he =>
    obtain ⟨s', u, input, x, v, hs', hrows, happlies⟩ :=
      h.applies (hsource.isGrouping fun e he => (hstart e he).1) hs hrun
    have hin := hsource.has hD henv hL hstart horder hsized hs' hrows
    obtain ⟨hregular, hselected⟩ := happlies.ending hD henv hL he hin.fit
    refine ⟨hregular, ?_⟩
    rw [Chain.selected, hin.rows]
    exact hselected

end LambdaQuery
