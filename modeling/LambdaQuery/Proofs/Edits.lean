import LambdaQuery.Stage
import Mathlib.Algebra.Group.Int.Defs

/-!
# What changes of a stage do

Every `Stage.Edit` refuses or changes one clause of the upper layer: one equation for each of them
(`addSelect_eq`), and what follows when it does not refuse (`addSelect_eq_ok`). Bounds are combined
with those that are there by rules that limits and offsets share (`Count.Combines`).
-/

set_option autoImplicit false

namespace LambdaQuery

/-! ## Counts -/

namespace Count

/-- How two bounds are combined: one that is alone stays, two literals make the literal `g` of them,
and a parameter beside another bound is refused with `e`. -/
structure Combines (f : Option Count → Option Count → Except CompileError (Option Count))
    (g : Int64 → Int64 → Int64) (e : CompileError) : Prop where
  none_left : ∀ b, f none b = .ok b
  none_right : ∀ a, f a none = .ok a
  literals : ∀ m n, f (some (.literal m)) (some (.literal n)) = .ok (some (.literal (g m n)))
  parameter_left : ∀ name b, f (some (.parameter name)) (some b) = .error e
  parameter_right : ∀ a name, f (some a) (some (.parameter name)) = .error e

/-- The sum of two numbers, or the bound of the range that it is outside of. -/
def clampedSum (m n : Int64) : Int64 :=
  if m.toInt + n.toInt < Int64.minValue.toInt then Int64.minValue
  else if Int64.maxValue.toInt < m.toInt + n.toInt then Int64.maxValue
  else Int64.ofInt (m.toInt + n.toInt)

theorem min?_combines : Combines min? min (.unsupported .combinedLimits) where
  none_left _ := rfl
  none_right a := by rcases a with _ | _ | _ <;> rfl
  literals _ _ := rfl
  parameter_left _ _ := rfl
  parameter_right a _ := by cases a <;> rfl

theorem sum?_combines : Combines sum? clampedSum (.unsupported .combinedOffsets) where
  none_left _ := rfl
  none_right a := by rcases a with _ | _ | _ <;> rfl
  literals _ _ := rfl
  parameter_left _ _ := rfl
  parameter_right a _ := by cases a <;> rfl

section

variable {f : Option Count → Option Count → Except CompileError (Option Count)}
  {g : Int64 → Int64 → Int64} {e e' : CompileError} {a b z : Option Count}

/-- All that two bounds can come to. -/
theorem Combines.outcome (hf : Combines f g e) (a b : Option Count) :
    (a = none ∧ f a b = .ok b) ∨ (b = none ∧ f a b = .ok a) ∨
      (∃ m n, a = some (.literal m) ∧ b = some (.literal n) ∧
        f a b = .ok (some (.literal (g m n)))) ∨
      ((∃ name, a = some (.parameter name) ∨ b = some (.parameter name)) ∧ f a b = .error e) := by
  cases a with
  | none => exact .inl ⟨rfl, hf.none_left b⟩
  | some a =>
    cases b with
    | none => exact .inr (.inl ⟨rfl, hf.none_right _⟩)
    | some b =>
      cases a with
      | parameter name =>
        exact .inr (.inr (.inr ⟨⟨name, .inl rfl⟩, hf.parameter_left name b⟩))
      | literal m =>
        cases b with
        | parameter name => exact .inr (.inr (.inr ⟨⟨name, .inr rfl⟩, hf.parameter_right _ name⟩))
        | literal n => exact .inr (.inr (.inl ⟨m, n, rfl, rfl, hf.literals m n⟩))

theorem Combines.eq_ok (hf : Combines f g e) (h : f a b = .ok z) :
    a = none ∧ z = b ∨ b = none ∧ z = a ∨
      ∃ m n, a = some (.literal m) ∧ b = some (.literal n) ∧ z = some (.literal (g m n)) := by
  rcases hf.outcome a b with ⟨ha, hz⟩ | ⟨hb, hz⟩ | ⟨m, n, ha, hb, hz⟩ | ⟨-, hz⟩ <;> rw [h] at hz
  · exact .inl ⟨ha, Except.ok.inj hz⟩
  · exact .inr (.inl ⟨hb, Except.ok.inj hz⟩)
  · exact .inr (.inr ⟨m, n, ha, hb, Except.ok.inj hz⟩)
  · cases hz

/-- Only bounds one of which is a parameter are refused. -/
theorem Combines.eq_error (hf : Combines f g e) (h : f a b = .error e') : e' = e ∧
    ∃ name, a = some (.parameter name) ∨ b = some (.parameter name) := by
  rcases hf.outcome a b with ⟨-, hz⟩ | ⟨-, hz⟩ | ⟨_, _, -, -, hz⟩ | ⟨hname, hz⟩ <;> rw [h] at hz
  · cases hz
  · cases hz
  · cases hz
  · exact ⟨Except.error.inj hz, hname⟩

theorem Combines.isSome (hf : Combines f g e) (h : f a b = .ok z) :
    z.isSome = (a.isSome || b.isSome) := by
  rcases hf.eq_ok h with ⟨rfl, rfl⟩ | ⟨rfl, rfl⟩ | ⟨m, n, rfl, rfl, rfl⟩
  · rw [Option.isSome_none, Bool.false_or]
  · rw [Option.isSome_none, Bool.or_false]
  · rfl

/-- A parameter comes from bounds one of which is the parameter, and is lost of none. -/
theorem Combines.parameter (hf : Combines f g e) (h : f a b = .ok z) (name : String) :
    z = some (.parameter name) ↔ a = some (.parameter name) ∨ b = some (.parameter name) := by
  rcases hf.eq_ok h with ⟨rfl, rfl⟩ | ⟨rfl, rfl⟩ | ⟨m, n, rfl, rfl, rfl⟩ <;> simp

end

variable {a b z : Option Count}

/-- A limit that is alone, or the smaller of two literals. -/
theorem min?_eq_ok (h : min? a b = .ok z) :
    a = none ∧ z = b ∨ b = none ∧ z = a ∨
      ∃ m n, a = some (.literal m) ∧ b = some (.literal n) ∧ ∃ k, z = some (.literal k) ∧
        k.toInt = min m.toInt n.toInt := by
  have hmin : ∀ m n : Int64, (min m n).toInt = min m.toInt n.toInt := by
    intro m n
    show (if m ≤ n then m else n).toInt = _
    by_cases hmn : m ≤ n
    · rw [if_pos hmn, Int.min_eq_left (Int64.le_iff_toInt_le.mp hmn)]
    · rw [if_neg hmn]
      rw [Int64.le_iff_toInt_le] at hmn
      rw [Int.min_eq_right (by omega)]
  exact (min?_combines.eq_ok h).imp_right <| Or.imp_right fun ⟨m, n, ha, hb, hz⟩ =>
    ⟨m, n, ha, hb, _, hz, hmin m n⟩

/-- An offset that is alone, or the sum of two literals as far as there are counts. -/
theorem sum?_eq_ok (h : sum? a b = .ok z) :
    a = none ∧ z = b ∨ b = none ∧ z = a ∨
      ∃ m n, a = some (.literal m) ∧ b = some (.literal n) ∧ ∃ k, z = some (.literal k) ∧
        (0 ≤ m.toInt + n.toInt → k.toInt = min (m.toInt + n.toInt) (2 ^ 63 - 1)) := by
  have hsum : ∀ m n : Int64, 0 ≤ m.toInt + n.toInt →
      (clampedSum m n).toInt = min (m.toInt + n.toInt) (2 ^ 63 - 1) := by
    intro m n hsum
    have hmax := Int64.toInt_maxValue
    have hmin := Int64.toInt_minValue
    unfold clampedSum
    split
    · omega
    · split
      · rw [hmax]
        omega
      · rw [Int64.toInt_ofInt_of_le (by omega) (by omega)]
        omega
  exact (sum?_combines.eq_ok h).imp_right <| Or.imp_right fun ⟨m, n, ha, hb, hz⟩ =>
    ⟨m, n, ha, hb, _, hz, hsum m n⟩

end Count

/-! ## Changes of stages -/

namespace Stage

variable {s u : Stage}

theorem addSelect_eq (selection : Selection) (s : Stage) :
    addSelect selection s =
      if s.layer.selection.isSome then (.error (.structural .selectSet), s)
      else (.ok (), s.mapLayer fun l => { l with selection := some selection }) := by
  unfold addSelect
  show (if s.layer.selection.isSome = true then _ else _ : Edit Unit) s = _
  split <;> rfl

theorem addGroupBy_eq (key : Scalar) (s : Stage) :
    addGroupBy key s =
      if s.layer.hasGroupBy then (.error (.structural .groupBySet), s)
      else (.ok (), s.mapLayer fun l => { l with groupBy := [key] }) := by
  unfold addGroupBy
  show (if s.layer.hasGroupBy = true then _ else _ : Edit Unit) s = _
  split <;> rfl

theorem thenBy_eq (key : SortKey) (s : Stage) :
    thenBy key s =
      if s.layer.orderBy.isEmpty then (.error (.structural .thenByAlone), s)
      else (.ok (), s.mapLayer fun l => { l with orderBy := l.orderBy ++ [key] }) := by
  unfold thenBy
  show (if s.layer.orderBy.isEmpty = true then _ else _ : Edit Unit) s = _
  split <;> rfl

theorem addLimit_eq (count : Count) (s : Stage) :
    addLimit count s =
      match Count.min? s.layer.limit (some count) with
      | .ok limit => (.ok (), s.mapLayer ({ · with limit := limit }))
      | .error e => (.error e, s.mapLayer ({ · with limit := none })) := by
  show ((liftM (Count.min? s.layer.limit (some count)) : Edit _) >>= fun limit =>
    modify (·.mapLayer ({ · with limit := limit }))) (s.mapLayer ({ · with limit := none })) = _
  cases Count.min? s.layer.limit (some count) with
  | ok limit => rfl
  | error e => rfl

theorem addOffset_eq (count : Count) (s : Stage) :
    addOffset count s =
      match Count.sum? s.layer.offset (some count) with
      | .ok offset => (.ok (), s.mapLayer ({ · with offset := offset }))
      | .error e => (.error e, s.mapLayer ({ · with offset := none })) := by
  show ((liftM (Count.sum? s.layer.offset (some count)) : Edit _) >>= fun offset =>
    modify (·.mapLayer ({ · with offset := offset }))) (s.mapLayer ({ · with offset := none })) = _
  cases Count.sum? s.layer.offset (some count) with
  | ok offset => rfl
  | error e => rfl

theorem addTop_eq (count : Count) (s : Stage) :
    addTop count s =
      if s.hasOffset then addLimit count s
      else match Count.min? s.layer.top (some count) with
        | .ok top => (.ok (), s.mapLayer ({ · with top := top }))
        | .error e => (.error e, s.mapLayer ({ · with top := none })) := by
  have h : addTop count s = (if s.hasOffset then addLimit count else do
      modify (·.mapLayer ({ · with top := none }))
      let top ← Count.min? s.layer.top (some count)
      modify (·.mapLayer ({ · with top := top })) : Edit Unit) s := by
    unfold addTop
    show (if s.hasOffset = true then _ else _ : Edit Unit) s = _
    by_cases ho : s.hasOffset = true
    · rw [if_pos ho, if_pos ho]
    · rw [if_neg ho, if_neg ho]
      rfl
  rw [h]
  by_cases ho : s.hasOffset = true
  · rw [if_pos ho, if_pos ho]
  · rw [if_neg ho, if_neg ho]
    show ((liftM (Count.min? s.layer.top (some count)) : Edit _) >>= fun top =>
      modify (·.mapLayer ({ · with top := top }))) (s.mapLayer ({ · with top := none })) = _
    cases Count.min? s.layer.top (some count) with
    | ok top => rfl
    | error e => rfl

/-! ## What a change has done that was not refused -/

theorem ok_iff {v : Stage} {p : Prop} (hp : p) :
    ((Except.ok (), v) : Except CompileError Unit × Stage) = (.ok (), u) ↔ p ∧ u = v :=
  ⟨fun h => ⟨hp, (Prod.mk.inj h).2.symm⟩, fun h => by rw [h.2]⟩

theorem error_iff {e : CompileError} {v : Stage} {p : Prop} (hp : ¬p) :
    ((Except.error e, v) : Except CompileError Unit × Stage) = (.ok (), u) ↔ p :=
  ⟨fun h => (nomatch (Prod.mk.inj h).1), fun h => absurd h hp⟩

theorem addSelect_eq_ok {selection : Selection} :
    addSelect selection s = (.ok (), u) ↔ s.layer.selection.isSome = false ∧
      u = s.mapLayer fun l => { l with selection := some selection } := by
  rw [addSelect_eq]
  cases s.layer.selection.isSome with
  | true => exact error_iff fun h => (nomatch h.1)
  | false => exact ok_iff rfl

theorem addGroupBy_eq_ok {key : Scalar} :
    addGroupBy key s = (.ok (), u) ↔ s.layer.hasGroupBy = false ∧
      u = s.mapLayer fun l => { l with groupBy := [key] } := by
  rw [addGroupBy_eq]
  cases s.layer.hasGroupBy with
  | true => exact error_iff fun h => (nomatch h.1)
  | false => exact ok_iff rfl

theorem thenBy_eq_ok {key : SortKey} :
    thenBy key s = (.ok (), u) ↔ s.layer.orderBy.isEmpty = false ∧
      u = s.mapLayer fun l => { l with orderBy := l.orderBy ++ [key] } := by
  rw [thenBy_eq]
  cases s.layer.orderBy.isEmpty with
  | true => exact error_iff fun h => (nomatch h.1)
  | false => exact ok_iff rfl

theorem addLimit_eq_ok {count : Count} :
    addLimit count s = (.ok (), u) ↔ ∃ limit, Count.min? s.layer.limit (some count) = .ok limit ∧
      u = s.mapLayer ({ · with limit := limit }) := by
  rw [addLimit_eq]
  cases Count.min? s.layer.limit (some count) with
  | error e => exact error_iff fun ⟨_, h, _⟩ => (nomatch h)
  | ok limit =>
    refine (ok_iff (p := True) trivial).trans ⟨fun h => ⟨limit, rfl, h.2⟩, ?_⟩
    rintro ⟨_, ⟨⟩, h⟩
    exact ⟨trivial, h⟩

theorem addOffset_eq_ok {count : Count} :
    addOffset count s = (.ok (), u) ↔ ∃ offset,
      Count.sum? s.layer.offset (some count) = .ok offset ∧
        u = s.mapLayer ({ · with offset := offset }) := by
  rw [addOffset_eq]
  cases Count.sum? s.layer.offset (some count) with
  | error e => exact error_iff fun ⟨_, h, _⟩ => (nomatch h)
  | ok offset =>
    refine (ok_iff (p := True) trivial).trans ⟨fun h => ⟨offset, rfl, h.2⟩, ?_⟩
    rintro ⟨_, ⟨⟩, h⟩
    exact ⟨trivial, h⟩

theorem addTop_eq_ok {count : Count} :
    addTop count s = (.ok (), u) ↔
      if s.hasOffset then addLimit count s = (.ok (), u)
      else ∃ top, Count.min? s.layer.top (some count) = .ok top ∧
        u = s.mapLayer ({ · with top := top }) := by
  rw [addTop_eq]
  by_cases ho : s.hasOffset = true
  · rw [if_pos ho, if_pos ho]
  · rw [if_neg ho, if_neg ho]
    cases Count.min? s.layer.top (some count) with
    | error e => exact error_iff fun ⟨_, h, _⟩ => (nomatch h)
    | ok top =>
      refine (ok_iff (p := True) trivial).trans ⟨fun h => ⟨top, rfl, h.2⟩, ?_⟩
      rintro ⟨_, ⟨⟩, h⟩
      exact ⟨trivial, h⟩

end Stage

end LambdaQuery
