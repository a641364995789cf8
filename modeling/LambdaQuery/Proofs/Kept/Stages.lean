import LambdaQuery.Compilation.Operators
import LambdaQuery.Proofs.Edits

/-!
# The stages that operators build

`Stage.Ready` says what is known of a stage when an operator is applied to it: the operator is
allowed there, and has a layer of its own if it needs one. `Stage.Built` lists all that the
operators of a chain do to a stage, with the conditions under which they do it; `Stage.Ended` adds
what may come last, an aggregate or a group. The scalars and counts in the clauses satisfy given
conditions.
-/

set_option autoImplicit false

namespace LambdaQuery.Stage

open Compilation

/-- No layer bounds or skips rows. -/
structure Unbounded (st : Stage) : Prop where
  top : st.hasTop = false
  offset : st.hasOffset = false

/-- The operator `method` with `n` arguments may change the upper layer. -/
structure Ready (method : String) (n : Nat) (st : Stage) : Prop where
  ungrouped : st.layer.hasGroupBy = false
  top : st.hasTop = true → method ∈ allowedAfterTake
  offset : st.hasOffset = true → method ∈ allowedAfterSkip
  layered : st.needsLayer method n = false

/-- What the operators in the middle of a chain build, with scalars `P` and counts `C`. -/
inductive Built (P : Scalar → Prop) (C : Count → Prop) : Stage → Prop
  | root : Built P C .root
  | overItems (name : String) {path : Scalar} : P path → Built P C (.overItems name path)
  | package (name : String) {st : Stage} : Built P C st → Built P C (st.package name)
  | join (name : String) {path : Scalar} {st : Stage} : Built P C st → st.Unbounded →
      st.layer.selection = none → P path → Built P C (st.addJoin name path)
  | filter {test : Scalar} {st : Stage} : Built P C st → st.Unbounded → P test →
      Built P C (st.addWhere test)
  | select {value : Scalar} {st : Stage} : Built P C st → st.layer.selection = none → P value →
      Built P C (st.mapLayer ({ · with selection := some (.ofValue value) }))
  | replaceSelect {value : Scalar} {st : Stage} : Built P C st → st.Unbounded → P value →
      Built P C (st.replaceSelect value)
  | distinct {st : Stage} : Built P C st → st.Unbounded → Built P C st.setDistinct
  | orderBy {key : SortKey} {st : Stage} : Built P C st → st.Unbounded → P key.value →
      Built P C (st.addOrderBy key)
  | thenBy {key : SortKey} {st u : Stage} : Built P C st → st.Unbounded → P key.value →
      Stage.thenBy key st = (.ok (), u) → Built P C u
  | top {c : Count} {st u : Stage} : Built P C st → C c → addTop c st = (.ok (), u) → Built P C u
  | offset {c : Count} {st u : Stage} : Built P C st → st.hasTop = false → C c →
      addOffset c st = (.ok (), u) → Built P C u

/-- What an aggregate selects. -/
inductive Aggregates (P : Scalar → Prop) : Scalar → Prop
  | count : Aggregates P countAll
  | any : Aggregates P (.binary .greaterThan countAll (.integer 0))
  | of {method function : String} {operand : Scalar} : aggregate? method = some function →
      P operand → Aggregates P (.builtin function [operand])

/-- What a chain of operators builds: it may end in an aggregate, if this is the `last` operator, or
in a group with a result `G`. -/
inductive Ended (P G : Scalar → Prop) (C : Count → Prop) (last : Prop) : Stage → Prop
  | middle {st : Stage} : Built P C st → Ended P G C last st
  | aggregate {value : Scalar} {st : Stage} : last → Built P C st → st.Unbounded →
      st.layer.selection = none → Aggregates P value →
      Ended P G C last (st.mapLayer ({ · with selection := some (.ofValue value) }))
  | grouped {key value : Scalar} {st : Stage} : Built P C st → st.Unbounded →
      st.layer.selection = none → st.layer.orderBy = [] → P key → G value →
      Ended P G C last (st.mapLayer ({ · with
        groupBy := [key], selection := some (.ofValue value) }))

section

variable {P P' G G' : Scalar → Prop} {C C' : Count → Prop} {last last' : Prop} {st u : Stage}
  {method : String} {n : Nat}

theorem Built.mono (hP : ∀ a, P a → P' a) (hC : ∀ c, C c → C' c) (h : Built P C st) :
    Built P' C' st := by
  induction h with
  | root => exact .root
  | overItems name hp => exact .overItems name (hP _ hp)
  | package name _ ih => exact .package name ih
  | join name _ hu hs hp ih => exact .join name ih hu hs (hP _ hp)
  | filter _ hu hp ih => exact .filter ih hu (hP _ hp)
  | select _ hs hp ih => exact .select ih hs (hP _ hp)
  | replaceSelect _ hu hp ih => exact .replaceSelect ih hu (hP _ hp)
  | distinct _ hu ih => exact .distinct ih hu
  | orderBy _ hu hp ih => exact .orderBy ih hu (hP _ hp)
  | thenBy _ hu hp hok ih => exact .thenBy ih hu (hP _ hp) hok
  | top _ hc hok ih => exact .top ih (hC _ hc) hok
  | offset _ ht hc hok ih => exact .offset ih ht (hC _ hc) hok

theorem Aggregates.mono (hP : ∀ a, P a → P' a) {value : Scalar} (h : Aggregates P value) :
    Aggregates P' value := by
  cases h with
  | count => exact .count
  | any => exact .any
  | of hm hp => exact .of hm (hP _ hp)

theorem Ended.mono (hP : ∀ a, P a → P' a) (hG : ∀ a, G a → G' a) (hC : ∀ c, C c → C' c)
    (hl : last → last') (h : Ended P G C last st) : Ended P' G' C' last' st := by
  cases h with
  | middle h => exact .middle (h.mono hP hC)
  | aggregate hlast h hu hs ha => exact .aggregate (hl hlast) (h.mono hP hC) hu hs (ha.mono hP)
  | grouped h hu hs ho hk hg => exact .grouped (h.mono hP hC) hu hs ho (hP _ hk) (hG _ hg)

/-- Before the last operator a chain that is not grouped has come to no end. -/
theorem Ended.built (h : Ended P G C last st) (hl : ¬last) (hg : st.layer.hasGroupBy = false) :
    Built P C st := by
  cases h with
  | middle h => exact h
  | aggregate hlast => exact absurd hlast hl
  | grouped => cases hg

/-- A bound changes nothing else of the upper layer. -/
theorem addTop_ok {c : Count} {u : Stage} (h : addTop c st = (.ok (), u)) :
    ∃ top limit, u = st.mapLayer ({ · with top := top, limit := limit }) := by
  rw [addTop_eq_ok] at h
  split at h
  · obtain ⟨limit, -, rfl⟩ := addLimit_eq_ok.mp h
    exact ⟨st.layer.top, limit, rfl⟩
  · obtain ⟨top, -, rfl⟩ := h
    exact ⟨top, st.layer.limit, rfl⟩

/-- In the middle of a chain nothing is grouped. -/
theorem Built.groupBy (h : Built P C st) : st.layer.groupBy = [] := by
  induction h with
  | root | overItems | package => rfl
  | join _ _ _ _ _ ih | filter _ _ _ ih | select _ _ _ ih | replaceSelect _ _ _ ih
  | distinct _ _ ih | orderBy _ _ _ ih => exact ih
  | thenBy _ _ _ hok ih =>
    obtain ⟨-, rfl⟩ := thenBy_eq_ok.mp hok
    exact ih
  | top _ _ hok ih =>
    obtain ⟨_, _, rfl⟩ := addTop_ok hok
    exact ih
  | offset _ _ _ hok ih =>
    obtain ⟨_, -, rfl⟩ := addOffset_eq_ok.mp hok
    exact ih

/-- What rows are grouped by satisfies what scalars do. -/
theorem Ended.groupBy (h : Ended P G C last st) : ∀ key ∈ st.layer.groupBy, P key := by
  have hnone : ∀ {keys : List Scalar}, keys = [] → ∀ key ∈ keys, P key := by
    rintro _ rfl _ ⟨⟩
  cases h with
  | middle h => exact hnone h.groupBy
  | aggregate _ h => exact hnone h.groupBy
  | grouped _ _ _ _ hk => exact List.forall_mem_singleton.mpr hk

/-! ## Stages that an operator may change -/

theorem checkOrder_eq_ok : checkOrder st method = .ok () ↔ st.layer.hasGroupBy = false ∧
    (st.hasTop = true → method ∈ allowedAfterTake) ∧
      (st.hasOffset = true → method ∈ allowedAfterSkip) := by
  unfold checkOrder
  cases st.layer.hasGroupBy <;> cases st.hasTop <;> cases st.hasOffset <;>
    by_cases ht : method ∈ allowedAfterTake <;> by_cases ho : method ∈ allowedAfterSkip <;>
    simp [ht, ho]

theorem Ready.of_checkOrder (h : checkOrder st method = .ok ())
    (hl : st.needsLayer method n = false) : st.Ready method n :=
  have ⟨hg, ht, ho⟩ := checkOrder_eq_ok.mp h
  ⟨hg, ht, ho, hl⟩

theorem hasTop_package (name : String) : (st.package name).hasTop = st.hasTop := by
  simp [hasTop, layers, package, Layer.hasTop, Layer.ofSource]

theorem hasOffset_package (name : String) : (st.package name).hasOffset = st.hasOffset := by
  simp [hasOffset, layers, package, Layer.ofSource]

/-- No operator needs another layer over an empty one. -/
theorem needsLayer_package (name : String) : (st.package name).needsLayer method n = false := by
  unfold needsLayer
  simp only [package, Layer.ofSource]
  split <;> simp

theorem Ready.package (h : checkOrder st method = .ok ()) (name : String) :
    (st.package name).Ready method n := by
  have ⟨_, ht, ho⟩ := checkOrder_eq_ok.mp h
  refine ⟨rfl, ?_, ?_, needsLayer_package name⟩
  · rwa [hasTop_package]
  · rwa [hasOffset_package]

namespace Ready

theorem hasTop (h : st.Ready method n) (hm : method ∉ allowedAfterTake) : st.hasTop = false :=
  Bool.eq_false_iff.mpr fun ht => hm (h.top ht)

theorem unbounded (h : st.Ready method n) (hm : method ∉ allowedAfterSkip) : st.Unbounded where
  top := h.hasTop fun ht => hm (by
    have : ∀ m ∈ allowedAfterTake, m ∈ allowedAfterSkip := by decide
    exact this _ ht)
  offset := Bool.eq_false_iff.mpr fun ho => hm (h.offset ho)

/-- The operators that select leave no room for a selection below them. -/
theorem selection (h : st.Ready method n) (hm : method ∈ ["Select", "SelectMany", "Min", "Max",
    "Sum", "Average", "Any", "Count", "GroupBy"]) : st.layer.selection = none := by
  have hl := h.layered
  simp only [List.mem_cons, List.not_mem_nil, or_false] at hm
  rcases hm with rfl | rfl | rfl | rfl | rfl | rfl | rfl | rfl | rfl <;>
    cases hs : st.layer.selection <;> simp_all [needsLayer]

theorem orderBy (h : st.Ready "GroupBy" n) : st.layer.orderBy = [] := by
  have hl := h.layered
  simp only [needsLayer, Bool.or_eq_false_iff, Bool.not_eq_false', List.isEmpty_iff] at hl
  exact hl.2

end Ready

end

end LambdaQuery.Stage
