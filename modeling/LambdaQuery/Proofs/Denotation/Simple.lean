import LambdaQuery.Compilation.Operators
import LambdaQuery.Host.Interpreter
import LambdaQuery.Proofs.Denotation.Basic
import LambdaQuery.Proofs.Naming.Comparisons
import Mathlib

/-!
# Simple values

Booleans, 64-bit integers and strings are values of the host as well as literals of the query
language. What their comparisons come to is said once, by `Simple.test?`. The interpreter agrees
with it (`Simple.binary_of_test?`), and so does every `Interpretation` in which the operators have
their usual meaning (`Interpretation.Usual`); `Interpretation.onSimple` is one.
-/

set_option autoImplicit false

namespace LambdaQuery

inductive Simple where
  | boolean (b : Bool)
  | integer (n : Int64)
  | string (s : String)
  deriving DecidableEq

/-- Whether `x` and `y` are in the order that an operator asks for, if it asks for one. -/
def QueryBinaryOp.order? {α : Type} [LinearOrder α] (q : QueryBinaryOp) (x y : α) : Option Bool :=
  match q with
  | .lessThan => some (decide (x < y))
  | .lessThanOrEqual => some (decide (x ≤ y))
  | .greaterThan => some (decide (y < x))
  | .greaterThanOrEqual => some (decide (y ≤ x))
  | _ => none

namespace Simple

inductive Kind where
  | boolean
  | integer
  | string
  deriving DecidableEq

/-- All values are equal or not, and all but booleans have an order. -/
def Kind.Compares (k : Kind) (q : QueryBinaryOp) : Prop :=
  q = .equal ∨ q = .notEqual ∨ k ≠ .boolean

def kind : Simple → Kind
  | .boolean _ => .boolean
  | .integer _ => .integer
  | .string _ => .string

/-- The value on the host. -/
def value : Simple → Value
  | .boolean b => .boolean b
  | .integer n => .integer n
  | .string s => .string s

/-- The literal in the query language. -/
def literal : Simple → Literal
  | .boolean b => .boolean b
  | .integer n => .integer n
  | .string s => .string s

/-- What a comparison comes to. Values of different kinds are not equal; integers are ordered as
numbers, and strings by the code points of their characters. -/
def test? : QueryBinaryOp → Simple → Simple → Option Bool
  | .equal, x, y => some (decide (x = y))
  | .notEqual, x, y => some !decide (x = y)
  | q, .integer m, .integer n => q.order? m.toInt n.toInt
  | q, .string s, .string t => q.order? s t
  | _, _, _ => none

theorem kind_eq_boolean {x : Simple} (h : x.kind = .boolean) : ∃ b, x = .boolean b := by
  cases x with
  | boolean b => exact ⟨b, rfl⟩
  | integer | string => cases h

theorem kind_eq_string {x : Simple} (h : x.kind = .string) : ∃ s, x = .string s := by
  cases x with
  | string s => exact ⟨s, rfl⟩
  | boolean | integer => cases h

variable {op : BinaryOp} {q : QueryBinaryOp}

/-- What a comparison that comes to something is. -/
theorem test?_eq_some {x y : Simple} {b : Bool} (h : test? q x y = some b) :
    (q = .equal ∧ b = decide (x = y)) ∨ (q = .notEqual ∧ b = !decide (x = y)) ∨
      (∃ m n, x = .integer m ∧ y = .integer n ∧ q.order? m.toInt n.toInt = some b) ∨
      ∃ s t, x = .string s ∧ y = .string t ∧ q.order? s t = some b := by
  unfold test? at h
  split at h
  · exact .inl ⟨rfl, (Option.some.inj h).symm⟩
  · exact .inr (.inl ⟨rfl, (Option.some.inj h).symm⟩)
  · exact .inr (.inr (.inl ⟨_, _, rfl, rfl, h⟩))
  · exact .inr (.inr (.inr ⟨_, _, rfl, rfl, h⟩))
  · cases h

theorem exists_test? (hop : op.comparison? = some q) {k : Kind} (hk : k.Compares q) {x y : Simple}
    (hx : x.kind = k) (hy : y.kind = k) : ∃ b, test? q x y = some b := by
  cases op <;> cases hop
  case equal | notEqual => exact ⟨_, rfl⟩
  all_goals
    cases k
    case boolean => simp [Kind.Compares] at hk
    all_goals
      cases x <;> cases hx
      cases y <;> cases hy
      exact ⟨_, rfl⟩

theorem exists_test?_string (hop : op.comparison? = some q) (s t : String) :
    ∃ b, test? q (.string s) (.string t) = some b :=
  exists_test? hop (.inr (.inr (by decide : Kind.string ≠ .boolean))) rfl rfl

/-- By code points, capital letters come before small ones. -/
example : test? .lessThan (.string "Zoe") (.string "anna") = some true := by decide

/-! ## On the host -/

theorem value_isLiteral (x : Simple) : x.value.IsLiteral := by
  cases x <;> trivial

theorem toScalar_value (x : Simple) : x.value.toScalar = .ok (.literal x.literal) := by
  cases x <;> rfl

theorem equals_value (x y : Simple) : x.value.equals y.value = decide (x = y) := by
  cases x with
  | boolean a =>
    cases y with
    | boolean b =>
      show (a == b) = _
      rw [Bool.beq_eq_decide_eq]
      simp
    | integer | string => rfl
  | integer m =>
    cases y with
    | integer n =>
      show (some (compare m.toInt n.toInt) == some .eq) = _
      rw [Option.some_beq_some, Bool.beq_eq_decide_eq]
      simp [Int64.toInt_inj]
    | boolean | string => rfl
  | string s =>
    cases y with
    | string t =>
      show (s == t) = _
      rw [Bool.beq_eq_decide_eq]
      simp
    | boolean | integer => rfl

theorem any_equals (xs : List Simple) (x : Simple) :
    (xs.map value).any (·.equals x.value) = decide (x ∈ xs) := by
  rw [Bool.eq_iff_iff, List.any_map]
  simp [equals_value]

/-- An operator that asks for an order gets it from the comparison of its operands. -/
theorem binary_of_order? {α : Type} [LinearOrder α] (hop : op.comparison? = some q) {x y : α}
    {b : Bool} (h : q.order? x y = some b) {u v : Value}
    (huv : u.compare? v = some (compare x y)) : Value.binary op u v = .ok (.boolean b) := by
  cases op <;> cases hop <;> cases h <;>
    simp only [Value.binary, Value.ordered, huv, Bool.beq_eq_decide_eq, bne, compare_lt_iff_lt,
      compare_gt_iff_gt, ← not_lt, decide_not]

/-- **The interpreter compares simple values as their comparisons are said to come out.** -/
theorem binary_of_test? (hop : op.comparison? = some q) {x y : Simple} {b : Bool}
    (h : test? q x y = some b) : Value.binary op x.value y.value = .ok (.boolean b) := by
  obtain ⟨rfl, rfl⟩ | ⟨rfl, rfl⟩ | ⟨m, n, rfl, rfl, hmn⟩ | ⟨s, t, rfl, rfl, hst⟩ := test?_eq_some h
  · obtain rfl : op = .equal := by cases op <;> cases hop; rfl
    rw [Value.binary, equals_value]
  · obtain rfl : op = .notEqual := by cases op <;> cases hop; rfl
    rw [Value.binary, equals_value]
  · exact binary_of_order? hop hmn rfl
  · exact binary_of_order? hop hst rfl

/-! ## Three-way comparisons -/

theorem equals_string (s t : String) :
    (Value.string s).equals (.string t) = (compare s t == .eq) := by
  show (s == t) = _
  rw [Bool.beq_eq_decide_eq, Bool.beq_eq_decide_eq]
  simp

/-- Comparing the number that a three-way comparison gives with zero compares the strings. -/
theorem binary_ordinal_zero (hop : op.comparison? = some q) (s t : String) :
    Value.binary op (.integer (Value.ordinal (compare s t))) (.integer 0) =
      Value.binary op (.string s) (.string t) := by
  cases op <;> cases hop <;>
    simp only [Value.binary, Value.ordered, Value.compare?, equals_string] <;>
    cases compare s t <;> rfl

/-- Comparing zero with it compares the strings the other way round. -/
theorem binary_zero_ordinal (hop : op.comparison? = some q) (s t : String) :
    Value.binary op (.integer 0) (.integer (Value.ordinal (compare s t))) =
      Value.binary (Compilation.exchanged op) (.string s) (.string t) := by
  cases op <;> cases hop <;>
    simp only [Value.binary, Value.ordered, Value.compare?, equals_string,
      Compilation.exchanged] <;>
    cases compare s t <;> rfl

end Simple

/-! ## In the query language -/

namespace Interpretation

/-- The operators of the query language that simple values have, with their usual meaning. -/
structure Usual {V : Type} (I : Interpretation V) : Prop where
  and : ∀ a b, I.binary .and (I.literal (.boolean a)) (I.literal (.boolean b)) =
    I.literal (.boolean (a && b))
  or : ∀ a b, I.binary .or (I.literal (.boolean a)) (I.literal (.boolean b)) =
    I.literal (.boolean (a || b))
  not : ∀ b, I.unary .not (I.literal (.boolean b)) = I.literal (.boolean !b)
  conditional : ∀ b v w, I.conditional (I.literal (.boolean b)) v w = if b then v else w
  concat : ∀ s t, I.binary .stringConcat (I.literal (.string s)) (I.literal (.string t)) =
    I.literal (.string (s ++ t))
  compare : ∀ {q x y b}, Simple.test? q x y = some b →
    I.binary q (I.literal x.literal) (I.literal y.literal) = I.literal (.boolean b)
  isIn : ∀ (x : Simple) (ys : List Simple),
    I.isIn (I.literal x.literal) (ys.map (I.literal ·.literal)) false =
      I.literal (.boolean (decide (x ∈ ys)))
  /-- The two membership tests are each other's negations. -/
  notIn : ∀ v vs negated, I.unary .not (I.isIn v vs negated) = I.isIn v vs !negated

/-- A value that is no simple one is `none`. -/
def onSimple : Interpretation (Option Simple) where
  documents := []
  literal
    | .boolean b => some (.boolean b)
    | .integer n => some (.integer n)
    | .string s => some (.string s)
    | .null | .undefined | .double _ => none
  parameter _ := none
  bound _ := 0
  index _ _ := none
  binary
    | .and, some (.boolean a), some (.boolean b) => some (.boolean (a && b))
    | .or, some (.boolean a), some (.boolean b) => some (.boolean (a || b))
    | .stringConcat, some (.string s), some (.string t) => some (.string (s ++ t))
    | q, some x, some y => (Simple.test? q x y).map .boolean
    | _, _, _ => none
  unary
    | .not, some (.boolean b) => some (.boolean !b)
    | _, _ => none
  call _ _ _ := none
  aggregate _ _ := none
  array _ := none
  object _ := none
  conditional
    | some (.boolean b), v, w => if b then v else w
    | _, _, _ => none
  isIn v vs negated := some (.boolean (decide (v ∈ vs) ^^ negated))
  items _ := []
  holds v := v == some (.boolean true)
  le _ _ := true
  aggregation _ _ := none
  star _ := none
  missing := Option.isNone
  pick _ := 0

@[simp] theorem onSimple_literal (x : Simple) : onSimple.literal x.literal = some x := by
  cases x <;> rfl

theorem onSimple_usual : onSimple.Usual where
  and _ _ := rfl
  or _ _ := rfl
  not _ := rfl
  conditional _ _ _ := rfl
  concat _ _ := rfl
  compare {q x y b} h := by
    rw [onSimple_literal, onSimple_literal]
    obtain ⟨rfl, rfl⟩ | ⟨rfl, rfl⟩ | ⟨m, n, rfl, rfl, hmn⟩ | ⟨s, t, rfl, rfl, hst⟩ :=
      Simple.test?_eq_some h
    · rfl
    · rfl
    · cases q <;> cases hmn <;> rfl
    · cases q <;> cases hst <;> rfl
  isIn x ys := by
    have hmap : ys.map (onSimple.literal ·.literal) = ys.map some :=
      List.map_congr_left fun y _ => onSimple_literal y
    rw [hmap, onSimple_literal]
    show some (Simple.boolean (decide (some x ∈ ys.map some) ^^ false)) = _
    simp [onSimple]
  notIn v vs negated := by
    show some (Simple.boolean !(decide (v ∈ vs) ^^ negated)) = _
    rw [← Bool.bne_not]; rfl

end Interpretation

end LambdaQuery
