import LambdaQuery.Host.Queryable
import LambdaQuery.Proofs.Asked.Closed
import LambdaQuery.Proofs.Reductions.Expressions

/-!
# Reductions of queries

A query asks its caller for the first row exactly when its last operator is a reduction, and no
operator follows a reduction in what is read of it (`Expr.compile_reduces`). Items that are sought
in nothing, parts of spatial values, sources of text and targets of static methods are not for a
query to read, and may hold anything (`Expr.compile_unread`).
-/

set_option autoImplicit false

namespace LambdaQuery

variable {env : Environment}

theorem Expr.isReduction_rebuild (e : Expr) (ds : List Expr) :
    (e.rebuild ds).isReduction = e.isReduction := by
  unfold rebuild
  split <;> rfl

namespace Compilation

/-- A chain outside of other queries does not start from a value. -/
theorem isFoldable_of_rows {e folded : Expr} {s t : Scope} {st : Stage} (hc : e.kind ≠ .constant)
    (hfold : e.fold env.evaluator = .ok folded) (hd : s.depth = 0)
    (h : rows env folded s = (.ok st, t)) : e.isFoldable = false := by
  refine Bool.eq_false_iff.mpr fun hf => ?_
  have hroot : folded.isRoot = false := by
    rw [Expr.isRoot_of_folded hfold]
    cases e <;> first | rfl | exact absurd rfl hc
  obtain ⟨v, -, rfl⟩ := Expr.value_of_folded hfold hc hf
  rw [rows.eq_def] at h
  obtain ⟨s', u, hget, hrest⟩ := bind_eq_ok.mp h
  cases hget
  rw [Scope.inSubquery_eq_false hd, if_neg Bool.false_ne_true, hroot] at hrest
  cases hrest

/-- A query asks for the first row if its last operator is a reduction. -/
theorem query_reduces {e : Expr} {q : Query} {t : Scope} (hc : e.kind ≠ .constant)
    (h : query env e .initial = (.ok q, t)) :
    t.operation = (if e.isReduction then some .firstOrDefault else none) ∧
      ∀ folded, e.fold env.evaluator = .ok folded → folded.ReducesLast := by
  obtain ⟨folded, hfold⟩ := Setting.exists_fold_of_query h
  rw [Setting.query_eq env hfold] at h
  obtain ⟨st, u, hrows, hflat⟩ := bind_eq_ok.mp h
  obtain ⟨names, hdeclare, -⟩ := Scope.declare_eq folded
  rw [hdeclare] at hrows
  have hflattened : u.Extends t := (Leaves.flattened st).run hflat
  have hsame : folded.isReduction = e.isReduction := by
    have hf := isFoldable_of_rows hc hfold rfl hrows
    obtain ⟨ds, rfl, -⟩ := Expr.parts_of_folded hfold hf
    exact Expr.isReduction_rebuild e ds
  refine ⟨?_, fun folded' hfold' => ?_⟩
  · have hasks := operation_of_rows hrows
    rw [hflattened.asked, ← hsame]
    split at hasks
    · rename_i hr
      rw [if_pos hr]
      exact hasks.2 rfl
    · rename_i hr
      rw [if_neg hr]
      exact hasks
  · obtain rfl := Except.ok.inj (hfold.symm.trans hfold')
    exact (gives env folded).2 _ _ _ hrows

end Compilation

namespace Expr

/-- Nothing is read of text in place of operators. -/
theorem reducesLast_escape {folded : Expr} {target : Option Expr} {method : Method}
    {args : List Expr} {ty : HostType} (hm : method.declaring = .queryEscape)
    (hfold : (call target method args ty).fold env.evaluator = .ok folded) :
    folded.ReducesLast := by
  have hf : (Expr.call target method args ty).isFoldable = false := by
    rw [isFoldable_eq, isLocal, hm]
    exact Bool.and_false _
  obtain ⟨target', args', rfl, -⟩ := call_of_folded hfold hf
  refine reducesLast_call (by rw [Method.isOperator, hm]) ?_
  rw [readOperands, hm]
  exact List.forall_mem_nil _

/-- **The first row is asked for exactly when it is needed.** A query that compiles asks its caller
for the first row if and only if its last operator is a reduction, whatever the queries in its
lambdas do; and in what is read of its folded form, no operator follows a reduction, neither in the
chain nor in the body of a lambda. -/
theorem compile_reduces (env : Environment) (e : Expr) (c : Compiled)
    (h : e.compile env = .ok c) :
    (c.operation = .firstOrDefault ↔ e.isReduction = true) ∧
      ∀ folded d : Expr, e.fold env.evaluator = .ok folded → d.IsRead folded →
        d.followsReduction = false := by
  cases e with
  | constant value ty =>
    rw [compile] at h
    split at h
    · cases h
      refine ⟨⟨by rintro ⟨⟩, by rintro ⟨⟩⟩, fun folded d hfold hd => ?_⟩
      rw [fold_constant _ rfl] at hfold
      rw [← Except.ok.inj hfold] at hd
      exact reducesLast_constant value ty d hd
    · cases h
  | call target method args ty =>
    by_cases hm : method.declaring = .queryEscape
    · have hno : (call target method args ty).isReduction = false := by
        rw [isReduction, Method.isOperator, hm, Bool.false_and]
      rw [compile, if_pos hm] at h
      obtain ⟨prepared, -, hc⟩ := LambdaQuery.bind_eq_ok.mp h
      cases hc
      rw [hno]
      exact ⟨⟨by rintro ⟨⟩, by rintro ⟨⟩⟩,
        fun folded d hfold hd => reducesLast_escape hm hfold d hd⟩
    · obtain ⟨q, t, hq, rfl⟩ := compile_call hm h
      obtain ⟨hasks, hlast⟩ := Compilation.query_reduces (by rintro ⟨⟩) hq
      refine ⟨?_, fun folded d hfold hd => hlast folded hfold d hd⟩
      show t.clientOperation = .firstOrDefault ↔ _
      rw [Scope.clientOperation, hasks]
      cases (call target method args ty).isReduction <;> decide
  | _ => cases h

/-- Of the rows that have a cell, the number is asked for; the cells are not. -/
theorem compile_reduces_cells :
    let cells := (Expr.parameter "r" (.model "Row")).property "Cells" (.array .int32)
    let q := (Queryable.root (.model "Row")).filter
      (.unary "r" (.model "Row") (.staticCall ⟨.enumerable, "Any"⟩ [cells] .boolean))
    let env : Environment := ⟨⟨⟨.declared, []⟩, [], false⟩, Interpreter.empty.evaluate⟩
    ∃ c c', q.expr.compile env = .ok c ∧ q.count.compile env = .ok c' ∧
      c.operation = .none ∧ c'.operation = .firstOrDefault ∧
        ∀ d : Expr, d.IsRead q.count → d.followsReduction = false := by
  intro cells q env
  have hrows : (q.expr.compile env).isOk = true := by cbv
  have hcount : (q.count.compile env).isOk = true := by cbv
  have hfold : q.count.fold env.evaluator = .ok q.count := by cbv
  cases hc : q.expr.compile env with
  | error e =>
    rw [hc] at hrows
    cases hrows
  | ok c =>
    cases hc' : q.count.compile env with
    | error e =>
      rw [hc'] at hcount
      cases hcount
    | ok c' =>
      obtain ⟨hrows, -⟩ := compile_reduces env q.expr c hc
      obtain ⟨hcount, hlast⟩ := compile_reduces env q.count c' hc'
      refine ⟨c, c', rfl, rfl, ?_, hcount.mpr (by rfl), fun d => hlast q.count d hfold⟩
      cases ho : c.operation with
      | none => rfl
      | firstOrDefault => exact absurd (hrows.mp ho) (by decide)

/-- An item that is sought in an empty list, a coordinate of a point, the source of text and the
target of a static method: none of them is read, and in each an operator may follow a reduction. -/
theorem compile_unread :
    let rows := Queryable.root (.model "Row")
    let cells := (Expr.parameter "r" (.model "Row")).property "Cells" (.array (.array .int32))
    let buried := Expr.staticCall ⟨.enumerable, "Count"⟩
      [.staticCall ⟨.enumerable, "FirstOrDefault"⟩ [cells] (.array .int32)] .int32
    let empty := Expr.constant (.array []) (.array .int32)
    let sought := rows.filter (.unary "r" (.model "Row")
      (.methodCall empty ⟨.list, "Contains"⟩ [buried] .boolean))
    let placed := rows.select (.unary "r" (.model "Row") (.construct [buried] none .geometry))
    let text := (Queryable.ofExpr (.staticCall ⟨.queryable, "Take"⟩ [rows.count, .int 1]
      (.documentQuery .int32))).fromText (.string "SELECT * FROM root")
    let targeted := rows.select (.unary "r" (.model "Row")
      (.methodCall buried ⟨.math, "Abs"⟩ [.int 1] .int32))
    let env : Environment := ⟨⟨⟨.declared, []⟩, [], false⟩, fun _ => .ok (.geometry .null)⟩
    ∀ q ∈ [sought, placed, text, targeted],
      (q.expr.compile env).isOk = true ∧ ∃ folded d : Expr,
        q.expr.fold env.evaluator = .ok folded ∧ d.IsPart folded ∧ d.followsReduction = true := by
  intro rows cells buried empty sought placed text targeted env
  have hbody : ∀ {l : Lambda} {method : String} {ty : HostType}, buried.IsPart l.body →
      buried.IsPart (rows.compose method [.quote l] ty).expr := fun h =>
    ((h.child List.mem_cons_self).child List.mem_cons_self).child
      (List.mem_cons_of_mem _ List.mem_cons_self)
  have htext : (Expr.staticCall ⟨.queryable, "Take"⟩ [rows.count, .int 1]
      (.documentQuery .int32)).IsPart text.expr := .of_child List.mem_cons_self
  refine List.forall_mem_cons.mpr ⟨⟨by cbv, sought.expr, buried, by cbv, hbody ?_, by rfl⟩,
    List.forall_mem_cons.mpr ⟨⟨by cbv, placed.expr, buried, by cbv, hbody ?_, by rfl⟩,
      List.forall_mem_cons.mpr ⟨⟨by cbv, text.expr, _, by cbv, htext, by rfl⟩,
        List.forall_mem_singleton.mpr ⟨by cbv, targeted.expr, buried, by cbv, hbody ?_, by rfl⟩⟩⟩⟩
  · exact .of_child (List.mem_cons_of_mem _ List.mem_cons_self)
  · exact .of_child List.mem_cons_self
  · exact .of_child List.mem_cons_self

end Expr

end LambdaQuery
