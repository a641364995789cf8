import LambdaQuery.Proofs.Conditions.Chains
import Mathlib

/-!
# Conditions of compiled operators

Each operator adds the conditions of its predicates to those of the stage that it is applied to
(`Compilation.apply_conditions`), and the operators on the items of a path theirs to those of the
stage that iterates the path (`Compilation.joined_conditions`). The stage of a chain therefore has
the conditions of its predicates, in the order in which they are applied, and no others:
`Compilation.rows_conditions`.
-/

set_option autoImplicit false

namespace LambdaQuery

namespace Compilation

variable {env : Environment} {x y : Stage} {s t : Scope} {b : Scalar} {l : RowLambda}
  {method : String} {e source arg : Expr} {rest : List Expr}

/-! ## Lambdas of operators -/

theorem isArg_of_selector? {l : Selector arg} (h : selector? method arg = .ok l) :
    RowLambda.IsArg ⟨l.param, l.body⟩ arg := by
  unfold selector? at h
  split at h
  · cases h
  · rename_i p body hsize hlambda
    cases h
    exact ⟨p.ty, by rw [hlambda]; rfl⟩
  · cases h

/-- A body is compiled where its parameter stands for the row of the stage. -/
theorem ranged_eq_ok {name : String} {cs : List Collection}
    (hs : s.collections = .outer name :: cs)
    (h : withRow l.param x (fun stage => return (← scalar env l.body, stage)) s =
      (.ok (b, y), t)) :
    y = x ∧ ∃ u, scalar env l.body (s.bindTo l.param x.layer.row) = (.ok b, u) := by
  obtain ⟨u, hbound, -⟩ := withRow_outer_eq_ok hs h
  obtain ⟨b', v, hscalar, hpure⟩ := bind_eq_ok.mp hbound
  obtain ⟨rfl, rfl⟩ := Prod.mk.inj (pure_eq_ok.mp hpure).1
  exact ⟨rfl, v, hscalar⟩

/-- What an operator with a lambda has been given. -/
theorem selected_eq_ok {name : String} {cs : List Collection}
    (hs : s.collections = .outer name :: cs)
    (h : selected env method rest x s = (.ok (b, y), t)) :
    ∃ arg l u, rest = [arg] ∧ RowLambda.IsArg l arg ∧ y = x ∧
      scalar env l.body (s.bindTo l.param x.layer.row) = (.ok b, u) := by
  by_cases hrest : ∃ arg, rest = [arg]
  · obtain ⟨arg, rfl⟩ := hrest
    rw [selected.eq_1] at h
    obtain ⟨l, u, hgiven, hrow⟩ := bind_eq_ok.mp h
    obtain ⟨hselector, rfl⟩ := ofExcept_eq_ok.mp hgiven
    obtain ⟨hy, v, hscalar⟩ := ranged_eq_ok (l := ⟨l.param, l.body⟩) hs hrow
    exact ⟨arg, _, v, rfl, isArg_of_selector? hselector, hy, hscalar⟩
  · rw [selected.eq_2 _ _ _ _ fun arg h => hrest ⟨arg, h⟩] at h
    cases h

/-! ## Paths -/

theorem grows_joined (h : joined env e x s = (.ok y, t)) : s.Grows t :=
  (leaves_joined (fun d _ => leaves env d) e x (Nat.lt_succ_self _)).run h

/-- The stage of an array iterates it, and nothing else. -/
theorem joined_array_eq_ok (he : isOperatorCall e = false) (h : joined env e x s = (.ok y, t)) :
    ∃ name path, y = x.addJoin name path := by
  rw [joined_array he] at h
  obtain ⟨path, u, -, h⟩ := bind_eq_ok.mp h
  obtain ⟨name, v, -, h⟩ := bind_eq_ok.mp h
  exact ⟨name, path, (pure_eq_ok.mp h).1⟩

/-- An operator on the items of a path filters or selects. -/
theorem joined_operator_eq_ok (he : isOperatorCall e = true)
    (h : joined env e x s = (.ok y, t)) :
    ∃ name source arg l p, e.Calls name [source, arg] ∧
      (name == "Where" || name == "Select") = true ∧ RowLambda.IsArg l arg ∧
        projected env source l x s = (.ok p, t) ∧
          y = if name == "Where" then p.2.addWhere p.1 else p.2.replaceSelect p.1 := by
  obtain ⟨target, method, args, ty, rfl⟩ : ∃ target method args ty,
      e = .call target method args ty := by
    cases e <;> first | exact ⟨_, _, _, _, rfl⟩ | cases he
  have hop : method.isOperator = true := he
  have hname : (method.name == "Where" || method.name == "Select") = true := by
    by_contra hname
    rw [joined.eq_def] at h
    dsimp only at h
    rw [if_pos hop, if_neg hname] at h
    cases h
  by_cases hargs : ∃ source arg, args = [source, arg]
  · obtain ⟨source, arg, rfl⟩ := hargs
    have hjoined := h
    rw [joined.eq_1, if_pos hop, if_pos hname] at h
    obtain ⟨l, u, hselector, -⟩ := bind_eq_ok.mp h
    have hl := isArg_of_selector? (ofExcept_eq_ok.mp hselector).1
    have hcalls : (Expr.call target method [source, arg] ty).Calls method.name [source, arg] :=
      ⟨target, method, ty, rfl, hop, rfl⟩
    obtain ⟨p, hp, hy⟩ := joined_call hcalls hl hname hjoined
    exact ⟨method.name, source, arg, _, p, hcalls, hname, hl, hp, hy⟩
  · rw [joined.eq_2 _ _ _ _ _ _ fun source arg h => hargs ⟨source, arg, h⟩, if_pos hop,
      if_pos hname] at h
    cases h

section

variable (hx : x.Direct) (hsel : x.layer.selection = none)
  (hs : ∃ name cs, s.collections = .outer name :: cs)

include hsel in
/-- A lambda over the items of an array: the stage iterates the array, and the parameter stands for
its items. -/
theorem projected_array_eq_ok (he : isOperatorCall source = false)
    (h : projected env source l x s = (.ok (b, y), t)) :
    ∃ (name : String) (path : Scalar) (u v : Scope), y = x.addJoin name path ∧
      scalar env l.body (u.bindTo l.param y.layer.row) = (.ok b, v) := by
  rw [projected, he] at h
  obtain ⟨path, u, -, h⟩ := bind_eq_ok.mp h
  obtain ⟨v, hrow, -⟩ := within_eq_ok h
  obtain ⟨w, hbound, -⟩ := withRow_inner_eq_ok rfl hrow
  obtain ⟨b', w', hscalar, hpure⟩ := bind_eq_ok.mp hbound
  obtain ⟨rfl, rfl⟩ := Prod.mk.inj (pure_eq_ok.mp hpure).1
  exact ⟨_, path, _, _, rfl, by rw [Stage.row_addJoin hsel]; exact hscalar⟩

include hs in
/-- A lambda over the items that operators leave and make. -/
theorem projected_path_eq_ok (he : isOperatorCall source = true)
    (h : projected env source l x s = (.ok (b, y), t)) :
    ∃ u v w : Scope, joined env source x s = (.ok y, u) ∧
      scalar env l.body (v.bindTo l.param y.layer.row) = (.ok b, w) := by
  rw [projected, if_pos he] at h
  obtain ⟨z, u, hjoined, hrow⟩ := bind_eq_ok.mp h
  obtain ⟨name, cs, hcs⟩ := hs
  obtain ⟨rfl, w, hscalar⟩ := ranged_eq_ok ((grows_joined hjoined).collections.trans hcs) hrow
  exact ⟨u, u, w, hjoined, hscalar⟩

include hx hsel hs

/-- **The predicates on the items of a path.** Where nothing is selected yet, the stage that
iterates a path has their conditions behind those that were there. -/
theorem joined_conditions {e : Expr} {y : Stage} {t : Scope}
    (h : joined env e x s = (.ok y, t)) :
    ∃ ps : List (AppliedPredicate env), e.PathApplies env x s ps ∧
      ps.map (·.lambda) = e.pathPredicates ∧ x.Conditioned ps y := by
  cases he : isOperatorCall e with
  | false =>
    obtain ⟨name, path, rfl⟩ := joined_array_eq_ok he h
    exact ⟨[], .array he, (Expr.pathPredicates_array he).symm, .addJoin hx name path⟩
  | true =>
    obtain ⟨name, source, arg, l, ⟨b, z⟩, hcalls, hname, hl, hp, rfl⟩ :=
      joined_operator_eq_ok he h
    have hsource : sizeOf source < sizeOf e := hcalls.sizeOf_source
    -- in both cases the parameter of the lambda stands for the row of the stage of the source
    obtain ⟨ps, hps, hlambdas, hz, u, v, hscalar⟩ : ∃ ps : List (AppliedPredicate env),
        source.PathApplies env x s ps ∧ ps.map (·.lambda) = source.pathPredicates ∧
          x.Conditioned ps z ∧
            ∃ u v : Scope, scalar env l.body (u.bindTo l.param z.layer.row) = (.ok b, v) := by
      cases hsource : isOperatorCall source with
      | false =>
        obtain ⟨name, path, u, v, rfl, hscalar⟩ := projected_array_eq_ok hsel hsource hp
        exact ⟨[], .array hsource, (Expr.pathPredicates_array hsource).symm,
          .addJoin hx name path, u, v, hscalar⟩
      | true =>
        obtain ⟨u, v, w, hjoined, hscalar⟩ := projected_path_eq_ok hs hsource hp
        obtain ⟨ps, hps, hlambdas, hz⟩ := joined_conditions hjoined
        exact ⟨ps, hps, hlambdas, hz, v, w, hscalar⟩
    rcases Bool.or_eq_true_iff.mp hname with hname | hname
    · obtain rfl := beq_iff_eq.mp hname
      let p : AppliedPredicate env := ⟨l, z, b, u, v, hscalar⟩
      refine ⟨ps ++ [p], .filter hcalls hl hps hp, ?_, hz.trans (.addWhere p hz.direct)⟩
      rw [hcalls.pathPredicates_eq, List.map_append, hlambdas, if_pos rfl, hl.rowLambda?]
      rfl
    · obtain rfl := beq_iff_eq.mp hname
      refine ⟨ps, .select hcalls hps, ?_, ?_⟩
      · rw [hcalls.pathPredicates_eq, hlambdas, if_neg (by decide), List.append_nil]
      · simpa using hz.trans (.replaceSelect hz.direct b)
termination_by sizeOf e

end

/-! ## Operators -/

section

variable (hx : x.Direct) {name : String} {cs : List Collection}
  (hs : s.collections = .outer name :: cs)

include hx hs

/-- The lambda of an operator that filters is a predicate on the rows. -/
theorem filtered_eq_ok (hmethod : method ∈ ["Where", "Count", "Any"])
    (h : selected env method rest x s = (.ok (b, y), t)) :
    y = x ∧ ∃ ps : List (AppliedPredicate env), Expr.OperatorApplies env x s method rest ps ∧
      ps.map (·.lambda) = Expr.operatorPredicates method rest ∧
        x.Conditioned ps (x.addWhere b) := by
  obtain ⟨arg, l, u, rfl, hl, rfl, hscalar⟩ := selected_eq_ok hs h
  let p : AppliedPredicate env := ⟨l, y, b, s, u, hscalar⟩
  refine ⟨rfl, [p], .predicate hmethod hl rfl hscalar, ?_, .addWhere p hx⟩
  rw [Expr.operatorPredicates, if_pos hmethod, hl.rowLambda?]
  rfl

omit hx in
/-- What an operator does with its lambda, it does to the stage that it is applied to. -/
theorem selected_bind_eq_ok {f : Scalar × Stage → Compilation Stage}
    (h : (selected env method rest x >>= f) s = (.ok y, t)) :
    ∃ (b : Scalar) (u : Scope), f (b, x) u = (.ok y, t) := by
  obtain ⟨⟨b, z⟩, u, hselected, hrest⟩ := bind_eq_ok.mp h
  obtain ⟨-, -, -, -, -, rfl, -⟩ := selected_eq_ok hs hselected
  exact ⟨b, u, hrest⟩

omit hx hs in
/-- An operator that bounds the rows is given the bound. -/
theorem apply_bounded_eq_ok (hmethod : method = "Take" ∨ method = "Skip")
    (h : apply env method rest x s = (.ok y, t)) :
    ∃ c, Stage.addTop c x = (.ok (), y) ∨ Stage.addOffset c x = (.ok (), y) := by
  by_cases hrest : ∃ arg, rest = [arg]
  · obtain ⟨arg, rfl⟩ := hrest
    rcases hmethod with rfl | rfl
    · rw [apply.eq_9] at h
      obtain ⟨c, u, -, hedit⟩ := bind_eq_ok.mp h
      exact ⟨c, .inl (edit_eq_ok hedit).1⟩
    · rw [apply.eq_11] at h
      obtain ⟨c, u, -, hedit⟩ := bind_eq_ok.mp h
      exact ⟨c, .inr (edit_eq_ok hedit).1⟩
  · rcases hmethod with rfl | rfl
    · rw [apply.eq_10 _ _ _ fun arg h => hrest ⟨arg, h⟩] at h
      cases h
    · rw [apply.eq_12 _ _ _ fun arg h => hrest ⟨arg, h⟩] at h
      cases h

/-- Operators that select, sort and bound leave the conditions. -/
theorem apply_unfiltered (hmethod : method ∈ chainOperators) (hplain : method ∉ filteringOperators)
    (h : apply env method rest x s = (.ok y, t)) :
    x.Conditioned ([] : List (AppliedPredicate env)) y := by
  have hbounded : method = "Take" ∨ method = "Skip" →
      x.Conditioned ([] : List (AppliedPredicate env)) y := by
    intro hmethod
    obtain ⟨c, h | h⟩ := apply_bounded_eq_ok hmethod h
    · exact .addTop hx h
    · exact .addOffset hx h
  simp only [chainOperators, List.mem_cons, List.not_mem_nil, or_false] at hmethod
  rcases hmethod with rfl | rfl | rfl | rfl | rfl | rfl | rfl | rfl | rfl | rfl | rfl
  · exact absurd (by decide) hplain
  · rw [apply.eq_2] at h
    obtain ⟨b, u, h⟩ := selected_bind_eq_ok hs h
    exact .addSelect hx (edit_eq_ok h).1
  · exact absurd (by decide) hplain
  · rw [apply.eq_5] at h
    obtain ⟨b, u, h⟩ := selected_bind_eq_ok hs h
    rw [(pure_eq_ok.mp h).1]
    exact .addOrderBy hx _
  · rw [apply.eq_6] at h
    obtain ⟨b, u, h⟩ := selected_bind_eq_ok hs h
    rw [(pure_eq_ok.mp h).1]
    exact .addOrderBy hx _
  · rw [apply.eq_7] at h
    obtain ⟨b, u, h⟩ := selected_bind_eq_ok hs h
    exact .thenBy hx (edit_eq_ok h).1
  · rw [apply.eq_8] at h
    obtain ⟨b, u, h⟩ := selected_bind_eq_ok hs h
    exact .thenBy hx (edit_eq_ok h).1
  · exact hbounded (.inl rfl)
  · exact hbounded (.inr rfl)
  · exact absurd (by decide) hplain
  · exact absurd (by decide) hplain

/-- An operator that counts the rows filters them before. -/
theorem apply_counted_conditions (hmethod : method = "Count" ∨ method = "Any")
    (h : apply env method rest x s = (.ok y, t)) :
    ∃ ps : List (AppliedPredicate env), Expr.OperatorApplies env x s method rest ps ∧
      ps.map (·.lambda) = Expr.operatorPredicates method rest ∧ x.Conditioned ps y := by
  have hmem : method ∈ ["Where", "Count", "Any"] ∧ method ∈ ["Count", "Any"] := by
    rcases hmethod with rfl | rfl <;> decide
  rw [apply_counted _ _ hmethod] at h
  split at h
  · cases h
  obtain ⟨_, u, hlast, hkept⟩ := bind_eq_ok.mp h
  obtain rfl := requireLast_eq_ok hlast
  -- what is counted has the conditions of the stage and of the predicate, if there is one
  obtain ⟨z, v, ⟨ps, happlies, hlambdas, hz⟩, hend⟩ : ∃ (z : Stage) (v : Scope),
      (∃ ps : List (AppliedPredicate env), Expr.OperatorApplies env x u method rest ps ∧
        ps.map (·.lambda) = Expr.operatorPredicates method rest ∧ x.Conditioned ps z) ∧
      (do
        if method == "Any" && (← get).inSubquery then return z
        let value :=
          if method == "Any" then .binary .greaterThan countAll (.integer 0) else countAll
        let stage ← edit z (Stage.addSelect (.ofValue value))
        setOperation .firstOrDefault
        return stage : Compilation Stage) v = (.ok y, t) := by
    cases rest with
    | nil =>
      exact ⟨x, u, ⟨[], .unfiltered hmem.2, rfl, .refl hx⟩, hkept⟩
    | cons arg rest =>
      obtain ⟨⟨b, z⟩, v, hselected, hend⟩ := bind_eq_ok.mp hkept
      obtain ⟨rfl, hps⟩ := filtered_eq_ok hx hs hmem.1 hselected
      exact ⟨_, v, hps, hend⟩
  refine ⟨ps, happlies, hlambdas, ?_⟩
  obtain ⟨v', v'', hget, hselect⟩ := bind_eq_ok.mp hend
  cases hget
  split at hselect
  · rw [(pure_eq_ok.mp hselect).1]
    exact hz
  · simpa using hz.trans (.addSelect hz.direct (selectTotal_eq_ok hselect))

/-- **What an operator adds to the conditions.** Where nothing is selected yet before the items of
arrays follow, the stage after an operator has the conditions of the predicates that it applies
behind those that were there. -/
theorem apply_conditions (hmethod : method ∈ chainOperators)
    (hsel : method = "SelectMany" → x.layer.selection = none)
    (h : apply env method rest x s = (.ok y, t)) :
    ∃ ps : List (AppliedPredicate env), Expr.OperatorApplies env x s method rest ps ∧
      ps.map (·.lambda) = Expr.operatorPredicates method rest ∧ x.Conditioned ps y := by
  by_cases hplain : method ∉ filteringOperators
  · exact ⟨[], .none hplain, (Expr.operatorPredicates_eq_nil hplain rest).symm,
      apply_unfiltered hx hs hmethod hplain h⟩
  simp only [filteringOperators, List.mem_cons, List.not_mem_nil, or_false, not_not] at hplain
  rcases hplain with rfl | rfl | hcounted
  · rw [apply.eq_1] at h
    obtain ⟨⟨b, z⟩, u, hselected, hpure⟩ := bind_eq_ok.mp h
    obtain ⟨rfl, hps⟩ := filtered_eq_ok hx hs (by decide) hselected
    rw [(pure_eq_ok.mp hpure).1]
    exact hps
  · by_cases hrest : ∃ arg, rest = [arg]
    · obtain ⟨arg, rfl⟩ := hrest
      rw [apply.eq_3] at h
      obtain ⟨l, u, hgiven, hrow⟩ := bind_eq_ok.mp h
      obtain ⟨hselector, rfl⟩ := ofExcept_eq_ok.mp hgiven
      obtain ⟨v, hjoined, -⟩ := withRow_outer_eq_ok hs hrow
      have hl := isArg_of_selector? hselector
      have hcs : (u.bindTo l.param x.layer.row).collections = .outer name :: cs := hs
      obtain ⟨ps, hps, hlambdas, hy⟩ := joined_conditions hx (hsel rfl) ⟨name, cs, hcs⟩ hjoined
      refine ⟨ps, .path hl hps, ?_, hy⟩
      rw [hlambdas, Expr.operatorPredicates, if_neg (by decide), if_pos rfl, hl.rowLambda?]
      exact (List.append_nil _).symm
    · rw [apply.eq_4 _ _ _ fun arg h => hrest ⟨arg, h⟩] at h
      cases h
  · exact apply_counted_conditions hx hs hcounted h

end

/-! ## Chains -/

/-- A chain starts from the documents or from the items of an array. -/
theorem rows_start_eq_ok (he : isOperatorCall e = false) (h : rows env e s = (.ok y, t)) :
    ∃ name source, y = ⟨.ofSource name source, []⟩ := by
  have hitems : ∀ {e : Expr} {s : Scope}, (do
      let path ← scalar env e
      return .overItems (← fresh "v") path : Compilation Stage) s = (.ok y, t) →
      ∃ name source, y = ⟨.ofSource name source, []⟩ := by
    intro e s h
    obtain ⟨path, u, -, hpath⟩ := bind_eq_ok.mp h
    obtain ⟨name, v, -, hpure⟩ := bind_eq_ok.mp hpath
    exact ⟨name, _, (pure_eq_ok.mp hpure).1⟩
  rw [rows.eq_def] at h
  split at h
  · rename_i target method args ty
    have hop : ¬method.isOperator = true := by
      rw [show method.isOperator = false from he]
      decide
    rw [if_neg hop] at h
    obtain ⟨u, v, hget, h⟩ := bind_eq_ok.mp h
    split at h
    · exact hitems h
    · cases h
  · obtain ⟨u, v, hget, h⟩ := bind_eq_ok.mp h
    split at h
    · exact hitems h
    split at h
    · exact ⟨_, _, (pure_eq_ok.mp h).1⟩
    · cases h

/-- **The stage of a chain has the conditions of its predicates**, in the order in which they are
applied, and no others. -/
theorem rows_conditions {e : Expr} (he : e.Chained) : ∀ {s t : Scope} {st : Stage},
    rows env e s = (.ok st, t) →
      ∃ ps : List (AppliedPredicate env), e.Applies env s ps ∧
        ps.map (·.lambda) = e.predicates ∧ st.Direct ∧
          st.conditions = AppliedPredicate.conditions ps := by
  induction he with
  | @start e he =>
    intro s t st h
    obtain ⟨name, source, rfl⟩ := rows_start_eq_ok he h
    refine ⟨[], .start he, (Expr.predicates_start he).symm, .ofSource name source, ?_⟩
    rfl
  | @operator e source name rest hcalls hname hsource ih =>
    intro s t st h
    obtain ⟨target, method, ty, rfl, hop, rfl⟩ := id hcalls
    obtain ⟨u, hoperator, -⟩ := rows_call hop h
    obtain ⟨_, _, input, u, x, v, w, hargs, hrows, -, hlayered, happly, -⟩ :=
      operator_eq_ok hoperator
    obtain ⟨rfl, rfl⟩ := List.cons.inj hargs
    obtain ⟨ps, happlies, hlambdas, hdirect, hconditions⟩ := ih hrows
    have hlayer := layered_eq_ok hlayered
    have hx : input.Conditioned ([] : List (AppliedPredicate env)) x := by
      cases hlayer with
      | same => exact .refl hdirect
      | packaged name => exact .package hdirect name
    obtain ⟨qs, hqs, hadded, hy⟩ := apply_conditions hx.direct rfl hname
      (fun hmany => hlayer.selection (by rw [hmany]; rfl)) happly
    refine ⟨ps ++ qs, .operator hcalls happlies hrows hlayered hqs, ?_, hy.direct, ?_⟩
    · rw [hcalls.predicates_eq, List.map_append, hlambdas, hadded]
    · have hst : input.Conditioned qs st := hx.trans hy
      rw [hst.conditions, hconditions, AppliedPredicate.conditions_append]

end Compilation

end LambdaQuery
