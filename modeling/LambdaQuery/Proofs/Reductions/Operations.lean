import LambdaQuery.Proofs.Kept.Reported
import LambdaQuery.Proofs.Operators
import LambdaQuery.Proofs.Reductions.Calls

/-!
# What a query asks of its caller

Scalars and the operators that are no reductions ask nothing of the caller (`quiet_apply`). A
reduction is refused unless it is the only operator that is being compiled, and outside of nested
queries it asks for the first row (`reduction_eq_ok`). So the source of an operator is no reduction
(`isReduction_of_source`), and a chain asks for the first row exactly when its last operator is one
(`operation_of_rows`).
-/

set_option autoImplicit false

namespace LambdaQuery

/-- Nothing is asked of the caller in between. -/
def Scope.Quiet (s t : Scope) : Prop := t.operation = s.operation

instance : Scope.Restoring Scope.Quiet where
  refl _ := rfl
  trans _ _ _ h h' := Eq.trans h' h
  of_extends h := h.asked
  afterMethod h := h
  afterCollection h := h
  afterLambda h := h

/-- At depth zero, a scope is in no nested query. -/
theorem Scope.inSubquery_eq_false {s : Scope} (hd : s.depth = 0) : s.inSubquery = false := by
  rw [Scope.inSubquery, hd]
  rfl

/-- Only one operator is being compiled before, and unless that is in a nested query, the first row
is asked for afterwards. -/
structure Scope.Reduces (s t : Scope) : Prop where
  outermost : s.isOutermost = true
  asks : s.depth = 0 → t.operation = some .firstOrDefault

namespace Compilation

variable {env : Environment} {method : String} {rest : List Expr} {stage st : Stage} {s t : Scope}

/-- Operators that are no reductions ask nothing. -/
theorem quiet_apply (hm : method ∉ reductions) : (apply env method rest stage).Leaves Scope.Quiet :=
  leaves_apply (fun d _ => leaves env d) method stage (Nat.le_refl (sizeOf rest)) fun h =>
    absurd h hm

/-! ## Reductions -/

theorem isOutermost_of_requireLast {a : Unit} (h : requireLast method s = (.ok a, t)) :
    s.isOutermost = true ∧ t = s := by
  unfold requireLast at h
  obtain ⟨s', s'', hget, h⟩ := bind_eq_ok.mp h
  cases hget
  cases ho : s.isOutermost with
  | false =>
    rw [ho] at h
    cases h
  | true =>
    rw [ho] at h
    exact ⟨rfl, (pure_eq_ok.mp h).2⟩

/-- Outside of nested queries, what is set is set. -/
theorem operation_of_setOperation {op : ClientOperation} {a : Unit} (hd : s.depth = 0)
    (h : setOperation op s = (.ok a, t)) : t.operation = some op := by
  unfold setOperation at h
  obtain ⟨s', s'', hget, h⟩ := bind_eq_ok.mp h
  cases hget
  rw [Scope.inSubquery_eq_false hd, if_neg Bool.false_ne_true] at h
  cases ho : s.operation with
  | none =>
    rw [ho] at h
    cases h
    rfl
  | some existing =>
    rw [ho] at h
    dsimp only at h
    split at h
    · rename_i heq
      rw [(pure_eq_ok.mp h).2, ho, heq]
    · cases h

/-- An operator that ends with a request for the first row. -/
theorem operation_of_request {change : Stage.Edit Unit} (hd : s.depth = 0) (h : (do
      let stage ← edit stage change
      setOperation .firstOrDefault
      return stage : Compilation Stage) s = (.ok st, t)) :
    t.operation = some .firstOrDefault := by
  obtain ⟨st', u, hedit, hrequest⟩ := bind_eq_ok.mp h
  have hu : u = s := (edit_eq_ok hedit).2
  obtain ⟨_, v, hset, hreturn⟩ := bind_eq_ok.mp hrequest
  rw [(pure_eq_ok.mp hreturn).2]
  exact operation_of_setOperation (hu ▸ hd) hset

/-- The lambda of an operator is compiled at the depth of what follows. -/
theorem exists_of_selected {f : Scalar × Stage → Compilation Stage}
    (h : (selected env method rest stage >>= f) s = (.ok st, t)) :
    ∃ p u, u.depth = s.depth ∧ f p u = (.ok st, t) := by
  obtain ⟨p, u, hselected, hrest⟩ := bind_eq_ok.mp h
  have hleaves : (selected env method rest stage).Leaves Scope.Grows :=
    leaves_selected (fun d _ => leaves env d) method stage (Nat.le_refl (sizeOf rest))
  exact ⟨p, u, (hleaves.run hselected).depth, hrest⟩

/-- What follows where an operator is the last. -/
theorem last_eq_ok {f : Unit → Compilation Stage}
    (h : (requireLast method >>= f) s = (.ok st, t)) :
    s.isOutermost = true ∧ f () s = (.ok st, t) := by
  obtain ⟨_, u, hlast, hrest⟩ := bind_eq_ok.mp h
  obtain ⟨ho, rfl⟩ := isOutermost_of_requireLast hlast
  exact ⟨ho, hrest⟩

theorem counted_eq_ok (hm : method = "Count" ∨ method = "Any")
    (h : apply env method rest stage s = (.ok st, t)) : s.Reduces t := by
  rw [apply_counted env stage hm] at h
  split at h
  · cases h
  obtain ⟨ho, hcount⟩ := last_eq_ok h
  refine ⟨ho, fun hd => ?_⟩
  have htotal : ∀ (value : Scalar) (x : Stage) (v : Scope), v.depth = s.depth → (do
      if method == "Any" && (← get).inSubquery then return x
      let stage ← edit x (Stage.addSelect (.ofValue value))
      setOperation .firstOrDefault
      return stage : Compilation Stage) v = (.ok st, t) →
        t.operation = some .firstOrDefault := by
    intro value x v hv hrun
    obtain ⟨w, w', hget, hrest⟩ := bind_eq_ok.mp hrun
    cases hget
    rw [Scope.inSubquery_eq_false (hv.trans hd), Bool.and_false,
      if_neg Bool.false_ne_true] at hrest
    exact operation_of_request (hv.trans hd) hrest
  dsimp only at hcount
  split at hcount
  · exact htotal _ stage s rfl hcount
  · obtain ⟨p, v, hv, hrest⟩ := exists_of_selected hcount
    exact htotal _ _ v hv hrest

theorem first_eq_ok (h : apply env "FirstOrDefault" rest stage s = (.ok st, t)) : s.Reduces t := by
  rw [apply_first] at h
  split at h
  · obtain ⟨ho, hrest⟩ := last_eq_ok h
    exact ⟨ho, fun hd => operation_of_request hd hrest⟩
  · cases h

theorem aggregated_eq_ok (hm : method ∉ plainOperators)
    (h : apply env method rest stage s = (.ok st, t)) : s.Reduces t := by
  rw [apply_aggregate env stage hm] at h
  split at h
  · cases h
  split at h
  · cases h
  obtain ⟨ho, hrest⟩ := last_eq_ok h
  refine ⟨ho, fun hd => ?_⟩
  dsimp only at hrest
  split at hrest
  · exact operation_of_request hd hrest
  · obtain ⟨p, v, hv, htotal⟩ := exists_of_selected hrest
    exact operation_of_request (hv.trans hd) htotal

/-- A reduction is the only operator that is being compiled, and outside of nested queries it asks
for the first row. -/
theorem reduction_eq_ok (hm : method ∈ reductions)
    (h : apply env method rest stage s = (.ok st, t)) : s.Reduces t := by
  simp only [reductions, List.mem_cons, List.not_mem_nil, or_false] at hm
  rcases hm with rfl | rfl | rfl | rfl | rfl | rfl | rfl
  · exact counted_eq_ok (.inl rfl) h
  · exact counted_eq_ok (.inr rfl) h
  · exact aggregated_eq_ok (by decide) h
  · exact aggregated_eq_ok (by decide) h
  · exact aggregated_eq_ok (by decide) h
  · exact aggregated_eq_ok (by decide) h
  · exact first_eq_ok h

/-! ## Chains -/

variable {e : Expr}

/-- What an operator asks, when its source asks nothing. -/
theorem operation_of_operator {args : List Expr} (h : operator env method args s = (.ok st, t))
    (hsource : ∀ {source : Expr} {input : Stage} {u : Scope}, source ∈ args →
      rows env source s = (.ok input, u) → u.operation = s.operation) :
    if method ∈ reductions then s.Reduces t else t.operation = s.operation := by
  obtain ⟨source, rest, input, u, x, v, w, rfl, hrows, -, hlayered, happly, rfl⟩ :=
    operator_eq_ok h
  have hgrows : s.Grows u := (leaves env source).2.run hrows
  have hlayer : u.Extends v := (leaves_layered input method _).run hlayered
  split
  · rename_i hm
    have hreduces := reduction_eq_ok hm happly
    refine ⟨?_, fun hd => hreduces.asks ((hlayer.depth.trans hgrows.depth).trans hd)⟩
    have ho := hreduces.outermost
    rwa [Scope.isOutermost, Scope.pushCollection, hlayer.methods, hgrows.methods] at ho
  · rename_i hm
    have happlied := (quiet_apply hm).run happly
    exact (happlied.trans hlayer.asked).trans (hsource List.mem_cons_self hrows)

theorem quiet_rows (he : isOperatorCall e = false) : (rows env e).Leaves Scope.Quiet := by
  have hitems : (do
      let path ← scalar env e
      return .overItems (← fresh "v") path : Compilation Stage).Leaves Scope.Quiet :=
    .bind (leaves env e).1.restoring fun _ => .bind (.fresh "v") fun _ => .pure _
  rw [rows.eq_def]
  split
  · rename_i target method args ty
    have hm : ¬method.isOperator = true := Bool.eq_false_iff.mp he
    rw [if_neg hm]
    refine .bind .get fun s => ?_
    split
    · exact hitems
    · exact .throw _
  · refine .bind .get fun s => ?_
    split
    · exact hitems
    split
    · exact .pure _
    · exact .throw _

/-- **What a chain asks of its caller.** A reduction is refused under another operator, and asks for
the first row outside of nested queries; a chain that is none asks nothing. -/
theorem operation_of_rows {e : Expr} {s t : Scope} {st : Stage} (h : rows env e s = (.ok st, t)) :
    if e.isReduction then s.methods = [] ∧ (s.depth = 0 → t.operation = some .firstOrDefault)
    else t.operation = s.operation := by
  cases he : isOperatorCall e with
  | false =>
    rw [if_neg (Bool.eq_false_iff.mp (Expr.isReduction_eq_false he))]
    exact (quiet_rows he).run h
  | true =>
    obtain ⟨target, m, args, ty, rfl⟩ : ∃ target m args ty, e = .call target m args ty := by
      cases e <;> first | exact ⟨_, _, _, _, rfl⟩ | cases he
    have hm : m.isOperator = true := he
    obtain ⟨u, hoperator, rfl⟩ := rows_call hm h
    -- Under `m` no source is a reduction.
    have hasks := operation_of_operator hoperator fun {source input v} hmem hsource => by
      have hsize := List.sizeOf_lt_of_mem hmem
      have hrows := operation_of_rows hsource
      split at hrows
      · cases hrows.1
      · exact hrows
    have hreduction : (Expr.call target m args ty).isReduction = reductions.contains m.name := by
      rw [Expr.isReduction, hm, Bool.true_and]
    rw [hreduction]
    by_cases hr : m.name ∈ reductions
    · rw [if_pos hr] at hasks
      rw [if_pos (List.contains_iff_mem.mpr hr)]
      refine ⟨?_, hasks.asks⟩
      simpa [Scope.isOutermost, Scope.pushMethod] using hasks.outermost
    · rw [if_neg hr] at hasks
      rwa [if_neg fun hc => hr (List.contains_iff_mem.mp hc)]
termination_by sizeOf e

/-- The source of an operator is no reduction. -/
theorem isReduction_of_source (hs : s.methods ≠ []) (h : rows env e s = (.ok st, t)) :
    e.isReduction = false := by
  have hrows := operation_of_rows h
  split at hrows
  · exact absurd hrows.1 hs
  · rename_i hr
    exact Bool.eq_false_iff.mpr hr

end Compilation

end LambdaQuery
