import LambdaQuery.Host.Queryable
import LambdaQuery.Proofs.Conditions.Operators
import LambdaQuery.Proofs.Folding.Induction
import LambdaQuery.Proofs.Meaning.Queries
import Mathlib

/-!
# Conditions of queries

A chain is folded before it is compiled, which keeps its operators and folds the bodies of its
predicates (`Expr.Chained.of_folded`, `Expr.predicates_of_folded`). The filter of its query is then
the conjunction of what its predicates ask, one after the other, and there is none exactly where the
chain has no predicate: `Expr.toQuery_conditions`.
-/

set_option autoImplicit false

namespace LambdaQuery

open Compilation

/-- The same lambda with its body folded. -/
def RowLambda.Folded (ask : Evaluator) (l l' : RowLambda) : Prop :=
  l'.param = l.param ∧ l.body.fold ask = .ok l'.body

/-! ## Folded chains -/

namespace Expr

variable {ask : Evaluator} {e e' arg arg' : Expr} {name : String} {args rest rest' : List Expr}

theorem exists_calls_of_isOperatorCall (h : isOperatorCall e = true) :
    ∃ name args, e.Calls name args := by
  cases e with
  | call target method args ty => exact ⟨_, args, target, method, ty, rfl, h, rfl⟩
  | _ => cases h

/-- An operator is applied to folded arguments. -/
theorem Calls.of_folded (h : e.Calls name args) (hfold : e.fold ask = .ok e')
    (hf : e.isFoldable = false) :
    ∃ args', e'.Calls name args' ∧ List.Forall₂ (fun d d' => d.fold ask = .ok d') args args' := by
  obtain ⟨target, method, ty, rfl, hop, rfl⟩ := h
  obtain ⟨target', args', rfl, hargs⟩ := call_of_folded hfold hf
  exact ⟨args', ⟨target', method, ty, rfl, hop, rfl⟩, hargs⟩

/-- The arguments of a foldable call are foldable. -/
theorem Calls.foldable (h : e.Calls name args) (hf : e.isFoldable) : ∀ d ∈ args, d.isFoldable := by
  obtain ⟨target, method, ty, rfl, -, -⟩ := h
  rw [isFoldable_eq, Bool.and_eq_true_iff, List.all_eq_true] at hf
  exact fun d hd => hf.1 d (List.mem_append_right _ hd)

theorem not_isOperatorCall_of_constant (h : e.kind = .constant) : isOperatorCall e = false := by
  cases e <;> first | rfl | cases h

theorem not_isOperatorCall_of_folded (hfold : e.fold ask = .ok e') (h : isOperatorCall e = false) :
    isOperatorCall e' = false := by
  cases hf : e.isFoldable with
  | true => exact not_isOperatorCall_of_constant (constant_of_folded hfold hf)
  | false =>
    cases e with
    | call target method args ty =>
      obtain ⟨target', args', rfl, -⟩ := call_of_folded hfold hf
      exact h
    | _ =>
      have hk := kind_of_folded hfold hf
      cases e' <;> first | rfl | cases hk

/-- A fold is no call of an operator, or it calls the same operator with folded arguments. -/
theorem calls_of_folded (h : e.fold ask = .ok e') :
    (e.isFoldable ∨ isOperatorCall e = false) ∧ isOperatorCall e' = false ∨
      ∃ name args args', e.Calls name args ∧ e'.Calls name args' ∧
        List.Forall₂ (fun d d' => d.fold ask = .ok d') args args' := by
  cases hf : e.isFoldable with
  | true => exact .inl ⟨.inl rfl, not_isOperatorCall_of_constant (constant_of_folded h hf)⟩
  | false =>
    cases he : isOperatorCall e with
    | false => exact .inl ⟨.inr rfl, not_isOperatorCall_of_folded h he⟩
    | true =>
      obtain ⟨name, args, hcalls⟩ := exists_calls_of_isOperatorCall he
      obtain ⟨args', hcalls', hargs⟩ := hcalls.of_folded h hf
      exact .inr ⟨name, args, args', hcalls, hcalls', hargs⟩

/-- Folding keeps chains. -/
theorem Chained.of_folded (h : e.Chained) (hfold : e.fold ask = .ok e') : e'.Chained := by
  induction h generalizing e' with
  | start h => exact .start (not_isOperatorCall_of_folded hfold h)
  | @operator e source name rest hcalls hname hs ih =>
    cases hf : e.isFoldable with
    | true => exact .start (not_isOperatorCall_of_constant (constant_of_folded hfold hf))
    | false =>
      obtain ⟨args', hcalls', hargs⟩ := hcalls.of_folded hfold hf
      obtain ⟨source', rest', hsource, -, rfl⟩ := List.forall₂_cons_left_iff.mp hargs
      exact .operator hcalls' hname (ih hsource)

/-! ### Lambdas and predicates -/

/-- A lambda has no value. -/
theorem rowLambda?_of_foldable (h : arg.isFoldable) : arg.rowLambda? = none := by
  have hlambda : arg.asLambda? = none := by
    cases arg with
    | lambda params body =>
      rw [isFoldable_lambda] at h
      cases h
    | unary op operand ty =>
      cases op with
      | quote =>
        rw [isFoldable_quote] at h
        cases h
      | _ => rfl
    | _ => rfl
  rw [rowLambda?, hlambda]
  rfl

theorem rowLambda?_of_folded (h : arg.fold ask = .ok arg') :
    List.Forall₂ (RowLambda.Folded ask) arg.rowLambda?.toList arg'.rowLambda?.toList := by
  unfold rowLambda?
  rcases optionRel_cases (asLambda?_of_folded h) with ⟨h₁, h₂⟩ |
    ⟨⟨⟨ps, body⟩, hs⟩, ⟨⟨qs, body'⟩, hs'⟩, h₁, h₂, hparams, hbody⟩
  · rw [h₁, h₂]
    exact .nil
  · obtain rfl : qs = ps := hparams
    rw [h₁, h₂]
    rcases qs with _ | ⟨p, _ | _⟩
    · exact .nil
    · exact .cons ⟨rfl, hbody⟩ .nil
    · exact .nil

/-- What is foldable has no predicates. -/
theorem pathPredicates_of_foldable (h : e.isFoldable) : e.pathPredicates = [] := by
  induction e using pathPredicates.induct with
  | case1 target method source arg ty hop ih =>
    have hcalls : (call target method [source, arg] ty).Calls method.name [source, arg] :=
      ⟨target, method, ty, rfl, hop, rfl⟩
    obtain ⟨hsource, harg, -⟩ := List.forall_mem_cons.mp (hcalls.foldable h) |>.imp_right
      List.forall_mem_cons.mp
    rw [hcalls.pathPredicates_eq, ih hsource, rowLambda?_of_foldable harg]
    exact ite_self _
  | case2 target method source arg ty hop => rw [pathPredicates, if_neg hop]
  | case3 e he => exact pathPredicates.eq_2 e he

theorem predicates_of_foldable (h : e.isFoldable) : e.predicates = [] := by
  induction e using predicates.induct with
  | case1 target method source rest ty hop ih =>
    have hcalls : (call target method (source :: rest) ty).Calls method.name (source :: rest) :=
      ⟨target, method, ty, rfl, hop, rfl⟩
    obtain ⟨hsource, hrest⟩ := List.forall_mem_cons.mp (hcalls.foldable h)
    rw [hcalls.predicates_eq, ih hsource]
    unfold operatorPredicates
    split
    · rename_i arg
      rw [rowLambda?_of_foldable (hrest arg List.mem_cons_self)]
      simp
    · rfl
  | case2 target method source rest ty hop => rw [predicates, if_neg hop]
  | case3 e he => exact predicates.eq_2 e he

/-- The predicates of a folded path are folded. -/
theorem pathPredicates_of_folded {e e' : Expr} (h : e.fold ask = .ok e') :
    List.Forall₂ (RowLambda.Folded ask) e.pathPredicates e'.pathPredicates := by
  rcases calls_of_folded h with ⟨hnone, he'⟩ | ⟨name, args, args', hcalls, hcalls', hargs⟩
  · rw [hnone.elim pathPredicates_of_foldable pathPredicates_array, pathPredicates_array he']
    exact .nil
  · by_cases hlength : args.length = 2
    · obtain ⟨source, arg, rfl⟩ := List.length_eq_two.mp hlength
      obtain ⟨source', _, hsource, hrest, rfl⟩ := List.forall₂_cons_left_iff.mp hargs
      obtain ⟨arg', _, harg, hnil, rfl⟩ := List.forall₂_cons_left_iff.mp hrest
      obtain rfl := List.forall₂_nil_left_iff.mp hnil
      have hsmaller := hcalls.sizeOf_source
      rw [hcalls.pathPredicates_eq, hcalls'.pathPredicates_eq]
      refine List.rel_append (pathPredicates_of_folded hsource) ?_
      split
      · exact rowLambda?_of_folded harg
      · exact .nil
    · rw [hcalls.pathPredicates_eq_nil hlength,
        hcalls'.pathPredicates_eq_nil (hargs.length_eq ▸ hlength)]
      exact .nil
termination_by sizeOf e

theorem operatorPredicates_of_folded
    (h : List.Forall₂ (fun d d' => d.fold ask = .ok d') rest rest') :
    List.Forall₂ (RowLambda.Folded ask) (operatorPredicates name rest)
      (operatorPredicates name rest') := by
  rcases h with _ | ⟨harg, _ | _⟩
  · exact .nil
  · unfold operatorPredicates
    have hlambda := rowLambda?_of_folded harg
    dsimp only
    split
    · exact hlambda
    split
    · exact List.rel_flatMap hlambda fun l l' hl => pathPredicates_of_folded hl.2
    · exact .nil
  · exact .nil

/-- **The predicates of a folded chain are folded**, each one in its place. -/
theorem predicates_of_folded {e e' : Expr} (h : e.fold ask = .ok e') :
    List.Forall₂ (RowLambda.Folded ask) e.predicates e'.predicates := by
  rcases calls_of_folded h with ⟨hnone, he'⟩ | ⟨name, args, args', hcalls, hcalls', hargs⟩
  · rw [hnone.elim predicates_of_foldable predicates_start, predicates_start he']
    exact .nil
  · cases hargs with
    | nil =>
      rw [hcalls.predicates_eq_nil, hcalls'.predicates_eq_nil]
      exact .nil
    | cons hsource hrest =>
      have hsmaller := hcalls.sizeOf_source
      rw [hcalls.predicates_eq, hcalls'.predicates_eq]
      exact List.rel_append (predicates_of_folded hsource) (operatorPredicates_of_folded hrest)
termination_by sizeOf e

end Expr

/-! ## Queries -/

theorem AppliedPredicate.conditions_eq_nil {env : Environment} {ps : List (AppliedPredicate env)} :
    conditions ps = [] ↔ ps = [] := by
  cases ps with
  | nil => exact iff_of_true rfl rfl
  | cons p ps => simp [conditions, p.condition.conjuncts_ne_nil]

/-- **The filter of a query is what its predicates ask.** Where a chain of operators is compiled,
its folded predicates are applied one after the other, each one to the stage that is before it. What
is joined by `AND` in the filter is, from left to right, what is joined in the bodies of these
predicates, about the rows of the lowest layer; without predicates there is no filter. -/
theorem Expr.toQuery_conditions {env : Environment} {e : Expr} {q : Query} (he : e.Chained)
    (hq : e.toQuery env = .ok q) :
    ∃ (folded : Expr) (ps : List (AppliedPredicate env)), e.fold env.evaluator = .ok folded ∧
      List.Forall₂ (RowLambda.Folded env.evaluator) e.predicates (ps.map (·.lambda)) ∧
        folded.Applies env (Scope.initial.declare folded) ps ∧
          Scalar.filterConjuncts q.filter = AppliedPredicate.conditions ps ∧
            (q.filter = none ↔ e.predicates = []) := by
  have hquery : Compilation.query env e .initial = (.ok q, (Compilation.query env e .initial).2) :=
    Prod.ext hq rfl
  obtain ⟨folded, hfold⟩ := Setting.exists_fold_of_query hquery
  rw [Setting.query_eq env hfold] at hquery
  obtain ⟨st, t, hrows, hflattened⟩ := Compilation.bind_eq_ok.mp hquery
  obtain ⟨ps, happlies, hlambdas, hdirect, hconditions⟩ :=
    rows_conditions (he.of_folded hfold) hrows
  have hfilter :=
    (Stage.filterConjuncts_toQuery hdirect (flattened_eq_ok hflattened)).trans hconditions
  have hfolded := Expr.predicates_of_folded hfold
  rw [← hlambdas] at hfolded
  refine ⟨folded, ps, hfold, hfolded, happlies, hfilter, ?_⟩
  rw [← Scalar.filterConjuncts_eq_nil, hfilter, AppliedPredicate.conditions_eq_nil,
    ← List.length_eq_zero_iff, ← List.length_eq_zero_iff, hfolded.length_eq, List.length_map]

/-- A row is tested, then what is selected of it, which has a name of its own until it is merged,
then the items of an array in that, and then the items that are left are counted if they are
small. -/
theorem Expr.toQuery_conditions_nested :
    let env : Environment := ⟨.default, Interpreter.empty.evaluate⟩
    let row := Expr.parameter "r" (.model "Row")
    let item := Expr.parameter "i" .int32
    let box := Expr.parameter "b" (.model "Box")
    let items := Expr.staticCall ⟨.enumerable, "Where"⟩ [box.property "Items" (.array .int32),
      .ofLambda (.unary "i" .int32 (.compare .greaterThan item (.int 2)))] (.array .int32)
    let e := (((((Queryable.root (.model "Row")).filter (.unary "r" (.model "Row")
      (.compare .greaterThan (row.property "Size" .int32) (.int 1)))).select
        (.unary "r" (.model "Row") (row.property "Box" (.model "Box")))).filter
          (.unary "b" (.model "Box") (.compare .lessThan (box.property "Weight" .int32) (.int 5)))
            ).selectMany (.unary "b" (.model "Box") items)).countWhere
              (.unary "i" .int32 (.compare .lessThan item (.int 9)))
    e.Chained ∧ ∃ (q : Query) (folded : Expr) (ps : List (AppliedPredicate env)),
      e.toQuery env = .ok q ∧ folded.Applies env (Scope.initial.declare folded) ps ∧
        ps.length = 4 ∧ Scalar.filterConjuncts q.filter = AppliedPredicate.conditions ps ∧
          AppliedPredicate.conditions ps =
            [.binary .greaterThan (.property (.ref "root") "Size") (.integer 1),
              .binary .lessThan (.property (.property (.ref "root") "Box") "Weight") (.integer 5),
              .binary .greaterThan (.ref "i0") (.integer 2),
              .binary .lessThan (.ref "i0") (.integer 9)] := by
  intro env row item box items e
  have he : e.Chained := by
    refine .operator (staticCall_calls rfl _ _) (by decide) ?_
    refine .operator (staticCall_calls rfl _ _) (by decide) ?_
    refine .operator (staticCall_calls rfl _ _) (by decide) ?_
    refine .operator (staticCall_calls rfl _ _) (by decide) ?_
    exact .operator (staticCall_calls rfl _ _) (by decide) (.start rfl)
  have hfilter : (e.toQuery env).map (fun q => Scalar.filterConjuncts q.filter) =
      .ok [.binary .greaterThan (.property (.ref "root") "Size") (.integer 1),
        .binary .lessThan (.property (.property (.ref "root") "Box") "Weight") (.integer 5),
        .binary .greaterThan (.ref "i0") (.integer 2),
        .binary .lessThan (.ref "i0") (.integer 9)] := by
    subst e items box item row env
    cbv
  have hpredicates : e.predicates.length = 4 := by
    subst e items box item row env
    rfl
  refine ⟨he, ?_⟩
  cases hq : e.toQuery env with
  | error _ =>
    rw [hq] at hfilter
    cases hfilter
  | ok q =>
    obtain ⟨folded, ps, -, hfolded, happlies, hconditions, -⟩ := Expr.toQuery_conditions he hq
    rw [hq] at hfilter
    have hlength : ps.length = 4 := by
      rw [← hpredicates, hfolded.length_eq, List.length_map]
    exact ⟨q, folded, ps, rfl, happlies, hlength, hconditions,
      hconditions.symm.trans (Except.ok.inj hfilter)⟩

end LambdaQuery
