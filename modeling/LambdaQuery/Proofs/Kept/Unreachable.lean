import LambdaQuery.Host.Interpreter
import LambdaQuery.Host.Queryable
import LambdaQuery.Proofs.Alike.Queries
import LambdaQuery.Proofs.Kept.Operators
import Mathlib

/-!
# Errors that no expression provokes

A compilation never sets a selection, a group or a request of the caller twice, and it flattens no
stage that filters, orders or skips what is bounded below it (`Compilation.flattened_refuses`). A
stage is refused as one over an aggregate only where a group is in scope: aggregates of the group
may be selected by operators inside of its result, and composed there
(`Compilation.flattened_composed`).
-/

set_option autoImplicit false

namespace LambdaQuery

open Compilation

/-! ## Two invariants -/

namespace Invariant

/-- Nothing is asked of scalars. -/
def trivial : Invariant where
  holds _ _ := True
  count _ _ := True
  mono _ _ := ⟨⟩
  count_mono _ _ := ⟨⟩
  grouped _ _ := ⟨⟩
  data _ := ⟨⟩
  ref _ := ⟨⟩
  parameter _ := ⟨⟩
  index _ _ := ⟨⟩
  binary _ _ _ := ⟨⟩
  unary _ _ := ⟨⟩
  conditional _ _ _ := ⟨⟩
  call _ _ _ _ := ⟨⟩
  array _ := ⟨⟩
  object _ := ⟨⟩
  spread _ _ _ := ⟨⟩
  isIn _ _ _ := ⟨⟩
  negated _ := ⟨⟩
  nested _ _ _ := ⟨⟩
  literal_count _ := ⟨⟩
  parameter_count _ := ⟨⟩

/-- Where no group is in scope, scalars do not aggregate. -/
def single : Invariant where
  holds s a := s.group = none → a.isAggregate = false
  count _ _ := True
  mono hk h hg := h (hk.group ▸ hg)
  count_mono _ _ := ⟨⟩
  grouped _ _ hg := nomatch hg
  data h _ := h.isAggregate
  ref _ _ := rfl
  parameter _ _ := rfl
  index _ _ _ := rfl
  binary _ ha hb hg := by rw [Scalar.isAggregate, ha hg, hb hg, Bool.or_false]
  unary _ _ _ := rfl
  conditional _ _ _ _ := rfl
  call name udf _ h hg := by
    rcases h with rfl | h | h
    · rfl
    · rw [Scalar.isAggregate, h, Bool.and_false]
    · exact absurd hg h
  array _ _ := rfl
  object _ _ := rfl
  spread name h _ _ := by rw [Scalar.builtin, Scalar.isAggregate, h, Bool.and_false]
  isIn _ _ _ _ := rfl
  negated _ _ := rfl
  nested method _ _ _ := by
    unfold nestedScalar
    split <;> rfl
  literal_count _ := ⟨⟩
  parameter_count _ := ⟨⟩

end Invariant

/-! ## Stages that are flattened -/

namespace Stage

variable {P G : Scalar → Prop} {C : Count → Prop} {last : Prop} {st : Stage}

/-- No layer selects an aggregate. -/
theorem Built.single (hP : ∀ a, P a → a.isAggregate = false) (h : Built P C st) :
    ∀ l ∈ st.layers, l.selection.any (·.hasAggregate) = false := by
  -- An operator changes the upper layer only, and seldom its selection.
  have hupper : ∀ {u st : Stage}, (∀ l ∈ st.layers, l.selection.any (·.hasAggregate) = false) →
      u.below = st.below → u.layer.selection.any (·.hasAggregate) = false →
        ∀ l ∈ u.layers, l.selection.any (·.hasAggregate) = false := fun h hb hl =>
    List.forall_mem_cons.mpr ⟨hl, fun l hm => h l (List.mem_cons_of_mem _ (hb ▸ hm))⟩
  have hkept : ∀ {u st : Stage}, (∀ l ∈ st.layers, l.selection.any (·.hasAggregate) = false) →
      u.below = st.below → u.layer.selection = st.layer.selection →
        ∀ l ∈ u.layers, l.selection.any (·.hasAggregate) = false := fun h hb hl =>
    hupper h hb (hl ▸ h _ List.mem_cons_self)
  induction h with
  | root | overItems => exact List.forall_mem_singleton.mpr rfl
  | package _ _ ih => exact List.forall_mem_cons.mpr ⟨rfl, ih⟩
  | join _ _ _ _ _ ih | filter _ _ _ ih | orderBy _ _ _ ih => exact hkept ih rfl rfl
  | select _ _ hp ih => exact hupper ih rfl (hP _ hp)
  | @replaceSelect value st _ _ hp ih =>
    refine hupper ih rfl ?_
    simp only [Stage.replaceSelect, mapLayer, Option.any_some]
    cases st.layer.selection <;> exact hP _ hp
  | @distinct st _ _ ih =>
    refine hupper ih rfl ?_
    have hrow := Layer.row_isAggregate (ih st.layer List.mem_cons_self)
    have hsel := ih st.layer List.mem_cons_self
    simp only [Stage.setDistinct, mapLayer, Option.any_some]
    cases h : st.layer.selection with
    | none => exact hrow
    | some s =>
      rw [h] at hsel
      exact hsel
  | thenBy _ _ _ hok ih =>
    obtain ⟨-, rfl⟩ := thenBy_eq_ok.mp hok
    exact hkept ih rfl rfl
  | top _ _ hok ih =>
    obtain ⟨_, _, rfl⟩ := addTop_ok hok
    exact hkept ih rfl rfl
  | offset _ _ _ hok ih =>
    obtain ⟨_, -, rfl⟩ := addOffset_eq_ok.mp hok
    exact hkept ih rfl rfl

/-- Only the upper layer may select an aggregate. -/
theorem Ended.single (hP : ∀ a, P a → a.isAggregate = false) (h : Ended P G C last st) :
    ∀ l ∈ st.below, l.selection.any (·.hasAggregate) = false := by
  cases h with
  | middle h => exact fun l hl => h.single hP l (List.mem_cons_of_mem _ hl)
  | aggregate _ h => exact fun l hl => h.single hP l (List.mem_cons_of_mem _ hl)
  | grouped h => exact fun l hl => h.single hP l (List.mem_cons_of_mem _ hl)

end Stage

/-! ## Queries -/

namespace Invariant

/-- The invariant holds at the start, when the parameters of the expression are no fresh names. -/
theorem scopes_declare (I : Invariant) (e : Expr) :
    Scope.initial.Grows (Scope.initial.declare e) ∧ I.Scopes (Scope.initial.declare e) := by
  have hg : Scope.initial.Grows (Scope.initial.declare e) := by
    obtain ⟨names, hs, hsub⟩ := Scope.addNames_eq .initial e.parameterNames
    rw [Scope.declare, hs]
    exact { Scope.Grows.refl Scope.initial with names := hsub }
  have hs : I.Scopes .initial :=
    ⟨fun _ h => (List.not_mem_nil h).elim, fun _ h => (Option.some_ne_none _ h.symm).elim⟩
  exact ⟨hg, hs.grows hg⟩

/-- A query is that of a stage which satisfies the invariant. -/
theorem query (I : Invariant) (env : Environment) (e : Expr) :
    (Compilation.query env e).Ensures .initial fun t q =>
      ∃ st last, I.Ended last t st ∧ st.toQuery = .ok q := by
  refine .bind (.ofHost (Q := fun t _ => t = .initial) fun _ _ => rfl) fun t folded _ ht => ?_
  subst ht
  obtain ⟨hg, hs⟩ := I.scopes_declare folded
  refine .bind (.modify (Q := fun t _ => I.Scopes t) hg hs) fun u _ _ hu => ?_
  refine .bind (I.rows folded hu) fun v st _ hst => ?_
  exact .flattened (fun q hq => ⟨st, _, ended_same hst id rfl rfl rfl, hq⟩)
    fun _ => st.flatten_external

end Invariant

/-- Aggregates may come up: of a group, or because a parameter stands for one. -/
def Scope.Aggregates (s : Scope) : Prop :=
  s.group ≠ none ∨ ∃ b ∈ s.bindings, b.2.isAggregate = true

namespace Compilation

variable (env : Environment)

/-- The stages that compilations flatten in a scope: those of chains, and those of nested queries.
-/
inductive Flattens (s : Scope) : Stage → Prop
  | chain {e : Expr} {st : Stage} {t : Scope} : rows env e s = (.ok st, t) → Flattens s st
  | nested {method : String} {args : List Expr} {st : Stage} {t : Scope} :
      Compilation.nested (withMethod method (operator env method args)) s = (.ok st, t) →
        Flattens s st

variable {env}

theorem Flattens.ended (I : Invariant) {s : Scope} {st : Stage} (hs : I.Scopes s)
    (h : Flattens env s st) : ∃ t last, I.Ended last t st ∧ t.group = s.group := by
  cases h with
  | @chain e _ t h =>
    have hrows : (Compilation.rows env e).Ensures s _ := I.rows e hs
    exact ⟨t, _, hrows.result h, by simpa only [h] using hrows.grows.group⟩
  | @nested method args _ t h =>
    have hrows : (Compilation.nested (withMethod method (operator env method args))).Ensures s _ :=
      I.nestedRows method args hs
    exact ⟨t, _, hrows.result h, by simpa only [h] using hrows.grows.group⟩

/-- Flattening refuses clauses that clash, and layers over an aggregate of a group. -/
theorem Flattens.refuses {s : Scope} {st : Stage} {err : CompileError} (h : Flattens env s st)
    (herr : st.flatten = .error err) :
    Layer.Clash st.layers err ∨ err = .unsupported .composedAggregate ∧ s.Aggregates := by
  obtain ⟨t, last, hend, -⟩ := h.ended .trivial ⟨fun _ _ => ⟨⟩, fun _ _ => ⟨⟩⟩
  refine (Layer.flattenAll_eq_error hend.settled herr).imp_right fun ⟨he, b, hb, hagg⟩ => ⟨he, ?_⟩
  by_contra hnone
  obtain ⟨hgroup, hbindings⟩ := not_or.mp hnone
  rw [not_not] at hgroup
  have hs : Invariant.single.Scopes s := by
    refine ⟨fun b hb _ => Bool.eq_false_iff.mpr fun h => hbindings ⟨b, hb, h⟩, fun g hg => ?_⟩
    cases hgroup.symm.trans hg
  obtain ⟨t, last, hend, hsame⟩ := h.ended .single hs
  rw [hend.single (fun a ha => ha (hsame.trans hgroup)) b hb] at hagg
  cases hagg

/-! ## Whole compilations -/

theorem query_external {e : Expr} {err : CompileError} {t : Scope}
    (h : query env e .initial = (.error err, t)) : err.isInternal = false :=
  (Invariant.trivial.query env e).external nofun h

theorem escaped_external {method : String} {args : List Expr} {err : CompileError}
    (h : escaped env method args = .error err) : err.isInternal = false := by
  unfold escaped at h
  split at h
  · split at h
    · cases h
      rfl
    · rename_i source raw _
      cases hv : rawText env raw with
      | error e =>
        rw [hv] at h
        cases h
        rfl
      | ok v =>
        rw [hv] at h
        cases v <;> cases h <;> rfl
  · cases h
    rfl

theorem compile_external {e : Expr} {err : CompileError} (h : e.compile env = .error err) :
    err.isInternal = false := by
  unfold Expr.compile at h
  split at h
  · split at h <;> cases h
    rfl
  · split at h
    · rename_i method args _ _
      cases he : escaped env method.name args with
      | error e =>
        rw [he] at h
        cases h
        exact escaped_external he
      | ok q =>
        rw [he] at h
        cases h
    · unfold Expr.compileChain at h
      split at h
      · cases h
      · rename_i hq
        cases h
        exact query_external hq
  · cases h
    rfl

/-- **No compilation sets a selection, a group or a request twice**, and flattening refuses only
clauses that clash, or what is put over an aggregate of a group. -/
theorem flattened_refuses (env : Environment) :
    (∀ e err, Expr.compile env e = .error err → err.isInternal = false) ∧
      (∀ e err, Expr.toQuery env e = .error err → err.isInternal = false) ∧
        ∀ s st err, Flattens env s st → st.flatten = .error err →
          Layer.Clash st.layers err ∨ err = .unsupported .composedAggregate ∧ s.Aggregates :=
  ⟨fun _ _ => compile_external, fun _ _ h => query_external (Prod.ext h rfl),
    fun _ _ _ h => h.refuses⟩

/-- Sizes that come in order are ordered again: the two orders clash. -/
theorem flattened_refuses_orders :
    let env : Environment := ⟨.default, Interpreter.empty.evaluate⟩
    let row := Expr.parameter "r" (.model "Row")
    let size := Lambda.unary "r" (.model "Row") (row.property "Size" .int32)
    let key := Lambda.unary "s" .int32 (.parameter "s" .int32)
    let e := ((((Queryable.root (.model "Row")).orderBy size).select size).orderBy key).expr
    ∃ st t, rows env e .initial = (.ok st, t) ∧ st.flatten = .error (.structural .secondOrderBy) ∧
      Layer.Clash st.layers (.structural .secondOrderBy) := by
  intro env row size key e
  have herr : (rows env e .initial).1.bind Stage.flatten =
      .error (.structural .secondOrderBy) := by
    subst e key size row env
    cbv
  have hok : (rows env e .initial).1.isOk = true := by
    subst e key size row env
    cbv
  rcases h : rows env e .initial with ⟨_ | st, t⟩
  · rw [h] at hok
    cases hok
  · rw [h] at herr
    refine ⟨st, t, rfl, herr, ?_⟩
    rcases (flattened_refuses env).2.2 _ st _ (.chain h) herr with hclash | ⟨hne, -⟩
    · exact hclash
    · cases hne

/-- The size of the group is selected for each tag of its key, and then filtered: the stage of the
inner operators is over an aggregate, which is refused. -/
theorem flattened_composed :
    let env : Environment := ⟨.default, Interpreter.empty.evaluate⟩
    let tags := (Expr.parameter "k" (.model "Key")).property "Tags" (.array .string)
    let counts := Expr.staticCall ⟨.enumerable, "Select"⟩ [tags, .ofLambda (.unary "t" .string
      (.staticCall ⟨.enumerable, "Count"⟩ [.parameter "g" (.array (.model "Row"))] .int32))]
      (.array .int32)
    let several := Expr.ofLambda (.unary "u" .int32
      (.compare .greaterThan (.parameter "u" .int32) (.int 1)))
    let key := (Expr.parameter "r" (.model "Row")).property "Key" (.model "Key")
    let e := ((Queryable.root (.model "Row")).groupBy (.unary "r" (.model "Row") key)
      ⟨[⟨"k", .model "Key"⟩, ⟨"g", .array (.model "Row")⟩],
        .staticCall ⟨.enumerable, "Where"⟩ [counts, several] (.array .int32)⟩).expr
    let s := (Scope.initial.bindTo "k" (.index (.ref "root") (.string "Key"))).setGroup
      (some ⟨"g", .ref "root"⟩)
    e.toQuery env = .error (.unsupported .composedAggregate) ∧
      ∃ st t, Compilation.nested (withMethod "Where" (operator env "Where" [counts, several])) s =
        (.ok st, t) ∧ Flattens env s st ∧
          st.flatten = .error (.unsupported .composedAggregate) := by
  intro env tags counts several key e s
  refine ⟨?_, ?_⟩
  · subst e key several counts tags env
    cbv
    simp only [groupAggregate_count]
    cbv
  have hrun : (Compilation.nested (withMethod "Where"
      (operator env "Where" [counts, several])) s).1.map Stage.flatten =
      .ok (.error (.unsupported .composedAggregate)) := by
    subst s e key several counts tags env
    cbv
    simp only [groupAggregate_count]
    cbv
  rcases h : Compilation.nested (withMethod "Where"
      (operator env "Where" [counts, several])) s with ⟨_ | st, t⟩
  · rw [h] at hrun
    cases hrun
  · rw [h] at hrun
    exact ⟨st, t, rfl, .nested h, Except.ok.inj hrun⟩

end Compilation

end LambdaQuery
