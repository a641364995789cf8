import LambdaQuery.Compilation.Operators

/-!
# What the operators that end a query do

`Compilation.apply` checks the number of arguments first and then does what the operator says: one
equation for each kind of operator. Other calls are found by the rule for the declaring
type of the method (`Builtin.call_eq`).
-/

set_option autoImplicit false

namespace LambdaQuery

/-- The function that the rule for the declaring type of a method finds. -/
def Builtin.find? (method : Method) (target : Option Operand) (args : List Operand) :
    Compilation (Option Scalar) :=
  match method.declaring, target with
  | .string, some target => stringMethod? method.name target args
  | .string, none => staticStringMethod? method.name args
  | .math, _ => mathMethod? method.name args
  | .enumerable, target | .list, target => sequenceMethod? method.name target args
  | .typeCheck, _ => typeCheck? method.name args
  | .object, target => objectMethod? method.name target args
  | .queryable, _ | .userFunction, _ | .queryEscape, _ | .host _, _ => pure none

theorem Builtin.call_eq (method : Method) (target : Option Operand) (args : List Operand) :
    call method target args = (do
      let found ← find? method target args
      found.elim (throw (.unsupported (.unknownMethod method.text))) pure) := by
  obtain ⟨declaring, name⟩ := method
  unfold call find?
  cases declaring with
  | string => cases target <;> exact bind_congr fun found => by cases found <;> rfl
  | _ => exact bind_congr fun found => by cases found <;> rfl

/-- The operators that make one value of the rows of a query. -/
def reductions : List String := ["Count", "Any", "Sum", "Min", "Max", "Average", "FirstOrDefault"]

namespace Compilation

variable (env : Environment) {method : String} {rest : List Expr} (stage : Stage)

/-- The number of rows, or whether there are any, of the rows that the lambda leaves. -/
theorem apply_counted (hm : method = "Count" ∨ method = "Any") :
    apply env method rest stage =
      if 1 < rest.length then throw (.argumentCount method 1 rest.length)
      else do
        requireLast method
        let stage ←
          if rest.isEmpty then pure stage
          else
            let (filter, stage) ← selected env method rest stage
            pure (stage.addWhere filter)
        if method == "Any" && (← get).inSubquery then return stage
        let value :=
          if method == "Any" then .binary .greaterThan countAll (.integer 0) else countAll
        let stage ← edit stage (Stage.addSelect (.ofValue value))
        setOperation .firstOrDefault
        return stage := by
  rcases hm with rfl | rfl
  · rw [apply.eq_14]
    split <;> rfl
  · rw [apply.eq_15]
    split <;> rfl

/-- The rows of a group are the first argument of what aggregates them. -/
theorem groupSource?_eq_some {method : Method} {args : List Expr} {row : Scalar} {s : Scope}
    (h : groupSource? s method args = some row) :
    method.isOperator = true ∧ ∃ name ty rest, args = .parameter name ty :: rest := by
  unfold groupSource? at h
  split at h
  · split at h
    · rename_i hm
      exact ⟨hm, _, _, _, rfl⟩
    · cases h
  · cases h

/-- The size of a group. -/
theorem groupAggregate_count (e : Expr) (row : Scalar) :
    groupAggregate env "Count" [e] row = pure countAll := by
  unfold groupAggregate
  rfl

/-- The aggregates other than counting. -/
theorem contains_of_aggregate? {function : String} (h : aggregate? method = some function) :
    Scalar.aggregates.contains function = true ∧ function ≠ "COUNT" := by
  unfold aggregate? at h
  split at h <;> cases h <;> decide

theorem ne_count_of_aggregate? {function : String} (h : aggregate? method = some function) :
    method ≠ "Count" := by
  rintro rfl
  cases h

/-- An aggregate of the rows of a group. -/
theorem groupAggregate_rows {function : String} (hf : aggregate? method = some function)
    (e : Expr) (row : Scalar) :
    groupAggregate env method [e] row = pure (.builtin function [row]) :=
  groupAggregate.eq_5 _ _ _ _ _ (ne_count_of_aggregate? hf) hf
    fun h => absurd h (ne_count_of_aggregate? hf)

/-- An aggregate of what a lambda makes of the rows of a group. -/
theorem groupAggregate_lambda {function : String} (hf : aggregate? method = some function)
    (e arg : Expr) (row : Scalar) :
    groupAggregate env method [e, arg] row = (do
      let l ← ofExcept (selector? method arg)
      return .builtin function [← withParameter l.param row (scalar env l.body)]) :=
  groupAggregate.eq_6 _ _ _ _ _ _ (ne_count_of_aggregate? hf) hf
    fun h => absurd h (ne_count_of_aggregate? hf)

/-- The name of a function that the database's user defined is a constant. -/
theorem asConstant?_of_functionName? {arg : Expr} {name : String}
    (h : functionName? (some arg) = .ok name) : ∃ v, arg.asConstant? = some v := by
  unfold functionName? at h
  split at h
  · exact ⟨_, ‹_›⟩
  · cases h

/-- Bounding the rows by one. -/
theorem apply_first :
    apply env "FirstOrDefault" rest stage =
      if rest.isEmpty then do
        requireLast "FirstOrDefault"
        let stage ← edit stage (Stage.addTop (.literal 1))
        setOperation .firstOrDefault
        return stage
      else throw (.argumentCount "FirstOrDefault" 0 rest.length) := by
  rw [apply.eq_16]
  cases rest.isEmpty <;> rfl

/-- The operators that are no aggregates but counting. -/
def plainOperators : List String :=
  ["Where", "Select", "SelectMany", "OrderBy", "OrderByDescending", "ThenBy", "ThenByDescending",
    "Take", "Skip", "Distinct", "Count", "Any", "FirstOrDefault", "GroupBy"]

theorem aggregate?_plainOperators : ∀ m ∈ plainOperators, aggregate? m = none := by
  decide

/-- An aggregate of the rows, or of what the lambda makes of them. -/
theorem apply_aggregate (hm : method ∉ plainOperators) :
    apply env method rest stage =
      match aggregate? method with
      | none => throw (.unsupported (.unknownMethod method))
      | some function =>
        if 1 < rest.length then throw (.argumentCount method 1 rest.length)
        else do
          requireLast method
          let (operand, stage) ←
            if rest.isEmpty then pure (stage.layer.row, stage) else selected env method rest stage
          let stage ← edit stage (Stage.addSelect (.ofValue (.builtin function [operand])))
          setOperation .firstOrDefault
          return stage := by
  have hne : ∀ {other : String}, other ∈ plainOperators → method = other → False := by
    rintro other ho rfl
    exact hm ho
  rw [apply.eq_18 env method rest stage (hne (by decide)) (hne (by decide)) (hne (by decide))
    (hne (by decide)) (hne (by decide)) (hne (by decide)) (hne (by decide)) (hne (by decide))
    (hne (by decide)) (hne (by decide)) (hne (by decide)) (hne (by decide)) (hne (by decide))
    (hne (by decide))]
  cases aggregate? method with
  | none => rfl
  | some function =>
    dsimp only
    by_cases h : 1 < rest.length
    · rw [if_pos h, if_pos h]
      rfl
    · rw [if_neg h, if_neg h]

/-- What aggregates is a reduction. -/
theorem mem_reductions_of_aggregate? {function : String} (h : aggregate? method = some function) :
    method ∈ reductions := by
  unfold aggregate? at h
  split at h
  · decide
  · decide
  · decide
  · decide
  · cases h

end Compilation

end LambdaQuery
