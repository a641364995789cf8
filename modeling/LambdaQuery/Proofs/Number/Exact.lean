import LambdaQuery.Host.Interpreter
import LambdaQuery.Proofs.Naming.Comparisons
import LambdaQuery.Proofs.Number.Integers

/-!
# Integers in the interpreter

An integer beyond 64 bits with a sign is compared as its nearest double, and the methods of `Math`
compute on doubles. What the interpreter says of two integers is therefore the order of the two or
of their nearest doubles (`Value.compare?_integers`), and a method of `Math` gives the double
nearest to the exact result, cut to 64 bits (`Value.callMath_integers`). Both are exact wherever
doubles do not confuse the integers at hand (`Interpreter.evaluate_integers`).
-/

set_option autoImplicit false

namespace LambdaQuery

open Double (nearest nearest_monotone nearest_of_significand)

/-! ## Exactness -/

/-- The interpreter tells the integers apart: both have 64 bits with a sign, or they are the same
number, or their nearest doubles differ. -/
def Distinguished (m n : Int) : Prop :=
  m < 2 ^ 63 ∧ n < 2 ^ 63 ∨ m = n ∨ nearest m ≠ nearest n

/-- An integer that comes back from its double: one whose significand has 53 bits, and the largest
one of 64 bits. -/
def Returned (z : Int) : Prop :=
  (∃ m e : Nat, m < 2 ^ 53 ∧ z.natAbs = m * 2 ^ e) ∧ z < 2 ^ 63 ∨ z = 2 ^ 63 - 1

theorem compare_nearest {m n : Int} (h : m = n ∨ nearest m ≠ nearest n) :
    compare (nearest m) (nearest n) = compare m n := by
  rcases h with rfl | h
  · rw [compare_eq_iff_eq.mpr rfl, compare_eq_iff_eq.mpr rfl]
  rcases lt_trichotomy m n with hlt | rfl | hlt
  · rw [compare_lt_iff_lt.mpr hlt, compare_lt_iff_lt.mpr ((nearest_monotone hlt.le).lt_of_ne h)]
  · rw [compare_eq_iff_eq.mpr rfl, compare_eq_iff_eq.mpr rfl]
  · rw [compare_gt_iff_gt.mpr hlt,
      compare_gt_iff_gt.mpr ((nearest_monotone hlt.le).lt_of_ne h.symm)]

theorem minValue_le_nearest {z : Int} (h : -2 ^ 63 ≤ z) :
    Int64.minValue.toInt ≤ nearest z := by
  have hlow : nearest (-2 ^ 63) = Int64.minValue.toInt :=
    nearest_of_significand (m := 1) (e := 63) (by decide) (by decide)
  rw [← hlow]
  exact nearest_monotone h

theorem Returned.min_nearest {z : Int} (h : Returned z) :
    min (nearest z) Int64.maxValue.toInt = z := by
  have hmax : Int64.maxValue.toInt = 2 ^ 63 - 1 := by decide
  rw [hmax]
  rcases h with ⟨⟨m, e, hm, hz⟩, hlt⟩ | rfl
  · rw [nearest_of_significand hm hz]
    omega
  · decide

theorem Returned.toInt_ofInt {z : Int} (h : Returned z) (hlow : -2 ^ 63 ≤ z) :
    (Int64.ofInt z).toInt = z := by
  refine Int64.toInt_ofInt_of_le hlow ?_
  rcases h with ⟨-, hlt⟩ | rfl
  · exact hlt
  · decide

/-! ## Comparisons -/

namespace Numeric

/-- What the interpreter takes an integer for. -/
def IsInteger (m : Int) : Numeric → Prop
  | .int i => i.toInt = m
  | .float x => x = Float.ofInt m ∧ 2 ^ 63 ≤ m ∧ m < 2 ^ 64
  | .decimal _ => False

variable {m n : Int} {x y : Numeric}

theorem IsInteger.value (h : IsInteger m x) : Double.value? x.toFloat = some (nearest m : ℚ) := by
  cases x with
  | int i =>
    subst h
    exact Double.value_ofInt64 i
  | float f =>
    obtain ⟨rfl, hlow, hhigh⟩ := h
    refine Double.value_ofInt (Nat.lt_of_le_of_lt ?_ (show 2 ^ 64 < Decimal.size by decide))
    omega
  | decimal => exact h.elim

/-- The order of two integers: that of their nearest doubles, where one has more than 64 bits with
a sign. -/
theorem compare?_integers (hx : IsInteger m x) (hy : IsInteger n y) :
    compare? x y = some (if m < 2 ^ 63 ∧ n < 2 ^ 63 then compare m n
      else compare (nearest m) (nearest n)) := by
  have hdoubles : Double.compare? x.toFloat y.toFloat = some (compare (nearest m) (nearest n)) := by
    rw [Double.compare?_of_value hx.value hy.value,
      Double.compare_of_strictMono Int.cast_strictMono]
  cases x with
  | int i =>
    cases y with
    | int j =>
      subst hx hy
      rw [if_pos ⟨i.toInt_lt, j.toInt_lt⟩]
      rfl
    | float y =>
      rw [if_neg fun h => absurd h.2 (not_lt.mpr hy.2.1)]
      exact hdoubles
    | decimal => exact hy.elim
  | float x =>
    rw [if_neg fun h => absurd h.1 (not_lt.mpr hx.2.1)]
    exact hdoubles
  | decimal => exact hx.elim

end Numeric

/-- What an operator that compares says of two integers. -/
def BinaryOp.ofIntegers? : BinaryOp → Int → Int → Option Bool
  | .equal, m, n => some (decide (m = n))
  | .notEqual, m, n => some (decide (m ≠ n))
  | .lessThan, m, n => some (decide (m < n))
  | .lessThanOrEqual, m, n => some (decide (m ≤ n))
  | .greaterThan, m, n => some (decide (n < m))
  | .greaterThanOrEqual, m, n => some (decide (n ≤ m))
  | _, _, _ => none

namespace Value

/-- The integer that a value is. -/
def integer? : Value → Option Int
  | .integer n => some n.toInt
  | .unsigned n => some n.toNat
  | _ => none

theorem ofValue?_integer {v : Value} {m : Int} (h : v.integer? = some m) :
    ∃ x, Numeric.ofValue? v = some x ∧ x.IsInteger m := by
  cases v with
  | integer n =>
    cases h
    exact ⟨_, rfl, rfl⟩
  | unsigned n =>
    cases h
    unfold Numeric.ofValue?
    dsimp only
    cases hn : int64? n.toNat with
    | some i => exact ⟨_, rfl, toInt_of_int64? hn⟩
    | none =>
      refine ⟨_, rfl, rfl, ?_, by exact_mod_cast n.toNat_lt⟩
      have hmin : Int64.minValue.toInt = -2 ^ 63 := by decide
      have hmax : Int64.maxValue.toInt = 2 ^ 63 - 1 := by decide
      unfold int64? at hn
      rw [hmin, hmax] at hn
      split at hn
      · cases hn
      · omega
  | _ => cases h

section

variable {a b : Value} {m n : Int} (ha : a.integer? = some m) (hb : b.integer? = some n)

include ha hb

/-- **Two integers are in their order, or in that of their nearest doubles.** -/
theorem compare?_integers :
    compare? a b = some (if m < 2 ^ 63 ∧ n < 2 ^ 63 then compare m n
      else compare (nearest m) (nearest n)) := by
  obtain ⟨x, hx, hm⟩ := ofValue?_integer ha
  obtain ⟨y, hy, hn⟩ := ofValue?_integer hb
  have hnumbers : compare? a b = Numeric.compare? x y := by
    cases a with
    | integer | unsigned => simp only [compare?, hx, hy]
    | _ => cases ha
  rw [hnumbers]
  exact Numeric.compare?_integers hm hn

theorem equals_integers : a.equals b = (compare? a b == some .eq) := by
  obtain ⟨x, hx, hm⟩ := ofValue?_integer ha
  obtain ⟨y, hy, hn⟩ := ofValue?_integer hb
  rw [compare?_integers ha hb, equals, hx, hy]
  exact congrArg (· == some .eq) (Numeric.compare?_integers hm hn)

theorem compare?_distinguished (h : Distinguished m n) : compare? a b = some (compare m n) := by
  rw [compare?_integers ha hb]
  rcases h with h | h
  · rw [if_pos h]
  · rw [compare_nearest h, ite_self]

/-- Integers that are not told apart count as equal. -/
theorem compare?_confused (h : ¬Distinguished m n) : compare? a b = some (compare m m) := by
  obtain ⟨hbits, hother⟩ := not_or.mp h
  have hnearest : nearest m = nearest n := of_not_not (not_or.mp hother).2
  rw [compare?_integers ha hb, if_neg hbits, compare_eq_iff_eq.mpr hnearest,
    compare_eq_iff_eq.mpr rfl]

/-- An operator says of two integers what it says of others in the same order. -/
theorem binary_integers {k : Int} (h : compare? a b = some (compare m k)) {op : BinaryOp}
    {holds : Bool} (hop : op.ofIntegers? m k = some holds) :
    binary op a b = .ok (.boolean holds) := by
  have hequals : a.equals b = decide (m = k) := by
    rw [equals_integers ha hb, h, Bool.eq_iff_iff, beq_iff_eq, Option.some_inj, decide_eq_true_iff]
    exact compare_eq_iff_eq
  have hordered : ∀ test, ordered test a b = .ok (.boolean (test (compare m k))) := by
    intro test
    rw [ordered, h]
  cases op <;> cases hop
  · rw [binary, hequals]
  · rw [binary, hequals, decide_not]
  all_goals
    rw [binary, hordered]
    congr 2
    rw [Bool.eq_iff_iff]
  · rw [beq_iff_eq, compare_lt_iff_lt, decide_eq_true_iff]
  · rw [bne_iff_ne, ne_eq, compare_gt_iff_gt, not_lt, decide_eq_true_iff]
  · rw [beq_iff_eq, compare_gt_iff_gt, decide_eq_true_iff]
  · rw [bne_iff_ne, ne_eq, compare_lt_iff_lt, not_lt, decide_eq_true_iff]

end

/-! ## Methods of `Math` -/

/-- The methods of `Math` that take integers to integers. -/
def integerMethods : List String :=
  ["Abs", "Max", "Min", "Floor", "Ceiling", "Round", "Truncate"]

/-- What the methods of `Math` give for integers. -/
def mathOnIntegers? : String → List Int → Option Int
  | "Abs", [m] => some |m|
  | "Floor", [m] | "Ceiling", [m] | "Round", [m] | "Truncate", [m] => some m
  | "Max", [m, n] => some (max m n)
  | "Min", [m, n] => some (min m n)
  | _, _ => none

theorem mathMethod?_integers {name : String} {ns : List Int64} {z : Int}
    (h : mathOnIntegers? name (ns.map Int64.toInt) = some z) :
    ∃ x, mathMethod? name (ns.map Double.ofInt64) = some x ∧
      Double.value? x = some (nearest z : ℚ) ∧ -2 ^ 63 ≤ z := by
  unfold mathOnIntegers? at h
  split at h
  all_goals rename_i hns
  case h_1 =>
    obtain ⟨k, rfl, rfl⟩ := List.map_eq_singleton_iff.mp hns
    cases h
    refine ⟨_, rfl, ?_, le_trans (by decide) (abs_nonneg _)⟩
    rw [Double.value_abs (Double.value_ofInt64 k), Double.nearest_abs, Int.cast_abs]
  case h_2 | h_3 | h_4 | h_5 =>
    obtain ⟨k, rfl, rfl⟩ := List.map_eq_singleton_iff.mp hns
    cases h
    exact ⟨_, rfl, Double.value_round (Double.value_ofInt64 k) _, k.le_toInt⟩
  case h_6 =>
    obtain ⟨j, _, rfl, rfl, hrest⟩ := List.map_eq_cons_iff.mp hns
    obtain ⟨k, rfl, rfl⟩ := List.map_eq_singleton_iff.mp hrest
    cases h
    refine ⟨_, rfl, ?_, le_max_of_le_left j.le_toInt⟩
    rw [Double.value_maximum (Double.value_ofInt64 j) (Double.value_ofInt64 k),
      nearest_monotone.map_max, Int.cast_max]
  case h_7 =>
    obtain ⟨j, _, rfl, rfl, hrest⟩ := List.map_eq_cons_iff.mp hns
    obtain ⟨k, rfl, rfl⟩ := List.map_eq_singleton_iff.mp hrest
    cases h
    refine ⟨_, rfl, ?_, le_min j.le_toInt k.le_toInt⟩
    rw [Double.value_minimum (Double.value_ofInt64 j) (Double.value_ofInt64 k),
      nearest_monotone.map_min, Int.cast_min]
  case h_8 => cases h

theorem mapM_expectNumber (ns : List Int64) :
    (ns.map Value.integer).mapM expectNumber = .ok (ns.map Double.ofInt64) := by
  induction ns with
  | nil => rfl
  | cons n ns ih =>
    rw [List.map_cons, List.mapM_cons, ih]
    rfl

/-- A method of `Math` on integers. -/
theorem callMath_map_integer (name : String) (ns : List Int64) :
    callMath name (ns.map .integer) =
      match mathMethod? name (ns.map Double.ofInt64) with
      | none => .error (.unknownFunction s!"Math.{name}")
      | some x =>
        if Double.isIntegral x && name != "Sqrt" && name != "Pow" then
          .ok (.integer (Double.toInt64 x))
        else .ok (.float x) := by
  have hall : (ns.map Value.integer).all isInteger = true := by
    rw [List.all_map]
    exact List.all_eq_true.mpr fun _ _ => rfl
  unfold callMath
  rw [mapM_expectNumber, hall]
  rfl

/-- **A method of `Math` gives the double nearest to the exact result, cut to 64 bits.** -/
theorem callMath_integers {name : String} {ns : List Int64} {z : Int}
    (h : mathOnIntegers? name (ns.map Int64.toInt) = some z) :
    callMath name (ns.map .integer) =
      .ok (.integer (Int64.ofInt (min (nearest z) Int64.maxValue.toInt))) := by
  obtain ⟨x, hx, hvalue, hlow⟩ := mathMethod?_integers h
  have hname : (name != "Sqrt") = true ∧ (name != "Pow") = true := by
    unfold mathOnIntegers? at h
    split at h <;> first | decide | cases h
  rw [callMath_map_integer, hx]
  dsimp only
  rw [Double.isIntegral_of_value hvalue, hname.1, hname.2,
    Double.toInt64_of_value hvalue (minValue_le_nearest hlow)]
  rfl

theorem callMath_refused {name : String} {ns : List Int64} (hname : name ∈ integerMethods)
    (h : mathOnIntegers? name (ns.map Int64.toInt) = none) :
    callMath name (ns.map .integer) = .error (.unknownFunction s!"Math.{name}") := by
  have hnone : mathMethod? name (ns.map Double.ofInt64) = none := by
    simp only [integerMethods, List.mem_cons, List.not_mem_nil, or_false] at hname
    rcases hname with rfl | rfl | rfl | rfl | rfl | rfl | rfl <;>
      rcases ns with _ | ⟨j, _ | ⟨k, _ | ⟨l, ns⟩⟩⟩ <;> first | rfl | cases h
  rw [callMath_map_integer, hnone]

end Value

/-! ## Evaluation -/

namespace Interpreter

/-- Every comparison of two expressions says what it says of the integers `m` and `n`. -/
def ComparesAs (i : Interpreter) (left right : Expr) (m n : Int) : Prop :=
  (∀ {op : BinaryOp} {holds : Bool} (ty : HostType), op.ofIntegers? m n = some holds →
    i.evaluate (.binary op left right ty) = .ok (.boolean holds)) ∧
  ∀ ty, i.evaluate (.call (some left) ⟨.object, "Equals"⟩ [right] ty) =
    .ok (.boolean (decide (m = n)))

theorem comparesAs_of_compare? {i : Interpreter} {left right : Expr} {a b : Value} {m n k : Int}
    (ha : i.evaluate left = .ok a) (hb : i.evaluate right = .ok b) (hm : a.integer? = some m)
    (hn : b.integer? = some n) (h : a.compare? b = some (compare m k)) :
    i.ComparesAs left right m k := by
  constructor
  · intro op holds ty hop
    have hbinary := Value.binary_integers hm hn h hop
    cases op <;> cases hop
    all_goals
      simp only [evaluate, ha, hb]
      exact hbinary
  · intro ty
    have hequal : Value.binary .equal a b = .ok (.boolean (decide (m = k))) :=
      Value.binary_integers hm hn h rfl
    simp only [evaluate, evaluateOption, evaluateList, ha, hb]
    exact hequal

/-- **Comparisons and the methods of `Math` are exact on integers** that the doubles in between
leave apart and as they are. -/
theorem evaluate_integers (i : Interpreter) :
    (∀ {left right : Expr} {a b : Value} {m n : Int},
      i.evaluate left = .ok a → i.evaluate right = .ok b →
      a.integer? = some m → b.integer? = some n →
        (Distinguished m n → i.ComparesAs left right m n) ∧
        (¬Distinguished m n → i.ComparesAs left right m m)) ∧
    (∀ {target : Option Expr} {t : Option Value} {args : List Expr} {ns : List Int64}
      {name : String} (ty : HostType), i.evaluateOption target = .ok t →
      i.evaluateList args = .ok (ns.map .integer) → name ∈ Value.integerMethods →
        (Value.mathOnIntegers? name (ns.map Int64.toInt) = none →
          ∃ e, i.evaluate (.call target ⟨.math, name⟩ args ty) = .error e) ∧
        ∀ {z : Int}, Value.mathOnIntegers? name (ns.map Int64.toInt) = some z → Returned z →
          ∃ r, i.evaluate (.call target ⟨.math, name⟩ args ty) = .ok (.integer r) ∧
            r.toInt = z) := by
  constructor
  · intro left right a b m n ha hb hm hn
    exact ⟨fun h => comparesAs_of_compare? ha hb hm hn (Value.compare?_distinguished hm hn h),
      fun h => comparesAs_of_compare? ha hb hm hn (Value.compare?_confused hm hn h)⟩
  · intro target t args ns name ty ht hargs hname
    have hcall : i.evaluate (.call target ⟨.math, name⟩ args ty) =
        Value.callMath name (ns.map .integer) := by
      simp only [evaluate, ht, hargs]
      rfl
    rw [hcall]
    constructor
    · intro h
      exact ⟨_, Value.callMath_refused hname h⟩
    · intro z h hz
      obtain ⟨-, -, -, hlow⟩ := Value.mathMethod?_integers h
      refine ⟨_, Value.callMath_integers h, ?_⟩
      rw [hz.min_nearest, hz.toInt_ofInt hlow]

/-- Integers beyond 64 bits with a sign, some with doubles of their own and some without; the larger
of two integers, and of one. -/
theorem evaluate_integers_large :
    empty.evaluate (.binary .lessThan (.constant (.unsigned 9223372036854775808) .uint64)
      (.constant (.unsigned 9223372036854779904) .uint64) .boolean) = .ok (.boolean true) ∧
    empty.evaluate (.binary .lessThan (.constant (.unsigned 9223372036854775808) .uint64)
      (.constant (.unsigned 9223372036854775809) .uint64) .boolean) = .ok (.boolean false) ∧
    (∃ r, empty.evaluate (.call none ⟨.math, "Max"⟩
        [.constant (.integer 1152921504606846976) .int64, .constant (.integer 3) .int64] .int64) =
      .ok (.integer r) ∧ r.toInt = 1152921504606846976) ∧
    ∃ e, empty.evaluate (.call none ⟨.math, "Max"⟩ [.constant (.integer 3) .int64] .int64) =
      .error e := by
  obtain ⟨hcompare, hmath⟩ := evaluate_integers empty
  have hapart : Distinguished 9223372036854775808 9223372036854779904 :=
    .inr (.inr (by decide))
  have htogether : ¬Distinguished 9223372036854775808 9223372036854775809 := by
    rintro (h | h | h)
    · exact absurd h.1 (by decide)
    · exact absurd h (by decide)
    · exact h (by decide)
  have htarget : empty.evaluateOption none = .ok none := rfl
  have hname : "Max" ∈ Value.integerMethods := by decide
  have htwo : empty.evaluateList
      [.constant (.integer 1152921504606846976) .int64, .constant (.integer 3) .int64] =
        .ok ([1152921504606846976, 3].map .integer) := rfl
  have hone : empty.evaluateList [.constant (.integer 3) .int64] = .ok ([3].map .integer) := rfl
  exact ⟨((hcompare rfl rfl rfl rfl).1 hapart).1 .boolean rfl,
    ((hcompare rfl rfl rfl rfl).2 htogether).1 .boolean rfl,
    (hmath .int64 htarget htwo hname).2 rfl (.inl ⟨⟨1, 60, by decide, by decide⟩, by decide⟩),
    (hmath .int64 htarget hone hname).1 rfl⟩

/-- Neighbours beyond 64 bits with a sign have one double and count as equal, and the larger of two
integers loses its last bit. -/
theorem evaluate_integers_confused :
    empty.evaluate (.binary .equal (.constant (.unsigned 9223372036854775808) .uint64)
      (.constant (.unsigned 9223372036854775809) .uint64) .boolean) = .ok (.boolean true) ∧
    empty.evaluate (.call none ⟨.math, "Max"⟩
        [.constant (.integer 9007199254740993) .int64, .constant (.integer 0) .int64] .int64) =
      .ok (.integer 9007199254740992) := by
  constructor
  · show Except.ok (Value.boolean (Value.equals _ _)) = _
    rw [Value.equals_integers rfl rfl, Value.compare?_integers rfl rfl]
    refine congrArg (fun b => Except.ok (Value.boolean b)) ?_
    decide
  · show Value.callMath "Max" ([9007199254740993, 0].map .integer) = _
    rw [Value.callMath_integers rfl]
    refine congrArg (fun n => Except.ok (Value.integer n)) ?_
    decide

end Interpreter

end LambdaQuery
