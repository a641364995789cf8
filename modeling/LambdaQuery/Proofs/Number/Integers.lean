import LambdaQuery.Proofs.Number.Nearest

/-!
# Doubles that are integers

Where a double is an integer, the larger of two, the magnitude and each rounding are what they are
for integers, and taking the integer out gives it back as far as 64 bits go
(`Double.toInt64_of_value`).
-/

set_option autoImplicit false

namespace LambdaQuery.Double

open Float.Model Float.Model.UnpackedFloat

/-! ## Order -/

section

variable {x y : Float} {p q : ℚ} (hx : value? x = some p) (hy : value? y = some q)

include hx

theorem isNaN_of_value : x.isNaN = false := by
  rw [value?, view_eq] at hx
  show x.toModel.unpack.isNaN = false
  cases hu : x.toModel.unpack with
  | notANumber =>
    rw [hu] at hx
    cases hx
  | infinity | zero | finite => rfl

include hy

theorem compare_of_value : x.toModel.unpack.compare y.toModel.unpack = some (compare p q) := by
  rw [value?, view_eq] at hx hy
  exact compare_value (canonical_unpack _) (canonical_unpack _) hx hy

theorem lt_iff_of_value : x < y ↔ p < q := by
  have h : x < y ↔ (x.toModel.unpack.compare y.toModel.unpack == some .lt) = true := by
    show decide (x.toModel < y.toModel) = true ↔ _
    rw [decide_eq_true_iff]
    exact Iff.rfl
  rw [h, compare_of_value hx hy, beq_iff_eq, Option.some_inj]
  exact compare_lt_iff_lt

theorem beq_of_value : (x == y) = decide (p = q) := by
  have h : (x == y) = (x.toModel.unpack.compare y.toModel.unpack == some .eq) := rfl
  rw [h, compare_of_value hx hy, Bool.eq_iff_iff, beq_iff_eq, Option.some_inj, decide_eq_true_iff]
  exact compare_eq_iff_eq

/-- **Numbers that are doubles are in the order of the doubles.** -/
theorem compare?_of_value : compare? x y = some (compare p q) := by
  unfold compare?
  rw [beq_of_value hx hy]
  simp only [lt_iff_of_value hx hy, lt_iff_of_value hy hx, decide_eq_true_iff]
  rcases lt_trichotomy p q with h | h | h
  · rw [if_pos h, compare_lt_iff_lt.mpr h]
  · rw [if_neg (not_lt.mpr h.ge), if_pos h, compare_eq_iff_eq.mpr h]
  · rw [if_neg (not_lt.mpr h.le), if_neg h.ne', if_pos h, compare_gt_iff_gt.mpr h]

theorem value_maximum : value? (maximum x y) = some (max p q) := by
  unfold maximum
  simp only [isNaN_of_value hx, isNaN_of_value hy, lt_iff_of_value hx hy, Bool.false_eq_true,
    if_false]
  split
  · rename_i h
    rw [hy, max_eq_right h.le]
  · rename_i h
    rw [hx, max_eq_left (not_lt.mp h)]

theorem value_minimum : value? (minimum x y) = some (min p q) := by
  unfold minimum
  simp only [isNaN_of_value hx, isNaN_of_value hy, lt_iff_of_value hy hx, Bool.false_eq_true,
    if_false]
  split
  · rename_i h
    rw [hy, min_eq_right h.le]
  · rename_i h
    rw [hx, min_eq_left (not_lt.mp h)]

end

theorem value_abs {x : Float} {p : ℚ} (hx : value? x = some p) : value? x.abs = some |p| := by
  have hcanonical : Canonical x.toModel.unpack := canonical_unpack _
  show value? (.ofModel (.pack x.toModel.unpack.abs)) = _
  rw [value?, view_eq] at hx
  generalize x.toModel.unpack = u at hx hcanonical ⊢
  rcases u with _ | _ | ⟨⟨⟩⟩ | ⟨⟨⟩, m, e, hm⟩ <;> cases hx
  all_goals
    refine value_pack hcanonical ?_
    simp [viewOf, View.value?, UnpackedFloat.abs, isMinus]

/-! ## Integers -/

/-- The sign and the magnitude of an integer. -/
theorem View.magnitude_of_value {negative : Bool} {m : Nat} {e z : Int}
    (h : (View.finite negative m e).value? = some (z : ℚ)) :
    z = (if negative then -(z.natAbs : Int) else z.natAbs) ∧ (m : ℚ) * 2 ^ e = z.natAbs := by
  have hnonneg : (0 : ℚ) ≤ m * 2 ^ e := by positivity
  cases negative with
  | false =>
    have hz : (m : ℚ) * 2 ^ e = z := Option.some_inj.mp h
    have hsign : 0 ≤ z := by exact_mod_cast hz ▸ hnonneg
    exact ⟨(Int.natAbs_of_nonneg hsign).symm, by rw [hz, Nat.cast_natAbs, abs_of_nonneg hsign]⟩
  | true =>
    have hz : (m : ℚ) * 2 ^ e = -z := neg_eq_iff_eq_neg.mp (Option.some_inj.mp h)
    have hsign : z ≤ 0 := by exact_mod_cast neg_nonneg.mp (hz ▸ hnonneg)
    refine ⟨?_, by rw [hz, Nat.cast_natAbs, abs_of_nonpos hsign, Int.cast_neg]⟩
    rw [if_pos rfl, Int.ofNat_natAbs_of_nonpos hsign, neg_neg]

/-- The parts of an integer: its significand ends within the integer, or in zeros. -/
theorem View.parts_of_value {v : View} {z : Int} (h : v.value? = some (z : ℚ)) :
    ∃ negative m e, v = .finite negative m e ∧
      z = (if negative then -(z.natAbs : Int) else z.natAbs) ∧
      (0 ≤ e → m * 2 ^ e.toNat = z.natAbs) ∧ (¬0 ≤ e → m = z.natAbs * 2 ^ e.natAbs) := by
  cases v with
  | nan | infinite => cases h
  | finite negative m e =>
    obtain ⟨hsign, hk⟩ := View.magnitude_of_value h
    refine ⟨negative, m, e, rfl, hsign, fun he => ?_, fun he => ?_⟩
    · obtain ⟨k, rfl⟩ := Int.eq_ofNat_of_zero_le he
      rw [zpow_natCast] at hk
      exact_mod_cast hk
    · obtain ⟨k, rfl⟩ := Int.exists_eq_neg_ofNat (by omega : e ≤ 0)
      rw [zpow_neg, zpow_natCast, mul_inv_eq_iff_eq_mul₀ (by positivity)] at hk
      rw [Int.natAbs_neg, Int.natAbs_natCast]
      exact_mod_cast hk

theorem Rounding.magnitude_mul (mode : Rounding) (negative : Bool) (q k : Nat) :
    mode.magnitude negative (q * 2 ^ k) k = q := by
  have hpos := Nat.two_pow_pos k
  unfold Rounding.magnitude
  dsimp only
  rw [Nat.shiftRight_eq_div_pow, Nat.one_shiftLeft, Nat.mul_div_cancel _ hpos, Nat.mul_mod_left]
  cases mode <;> simp

/-- The view of a word with its sign in front. -/
theorem view_ofBits (negative : Bool) {w : Nat} (hw : w < 2 ^ 63) :
    view (.ofBits (UInt64.ofNat ((if negative then 1 <<< 63 else 0) + w))) =
      viewOfParts negative (w / 2 ^ 52) (w % 2 ^ 52) := by
  have hsign : (1 <<< 63 : Nat) = 2 ^ 63 := rfl
  rw [Float.ofBits, Float.Model.ofBits, view_ofModel_pack (canonical_unpack _), viewOf_unpack,
    isMinus_unpackSign, toNat_unpackExponent, toNat_unpackMantissa, UInt64.toNat_toBitVec,
    UInt64.toNat_ofNat']
  cases negative
  · rw [if_neg Bool.false_ne_true, Nat.zero_add, Nat.mod_eq_of_lt (by omega),
      decide_eq_false (by omega), Nat.mod_eq_of_lt (b := 2048) (by omega)]
  · have hexponent : (2 ^ 63 + w) / 2 ^ 52 % 2048 = w / 2 ^ 52 := by omega
    rw [if_pos rfl, hsign, Nat.mod_eq_of_lt (by omega), decide_eq_true (by omega), hexponent]
    congr 1
    omega

/-- An integer below `2^53` is put together with a significand of 53 bits. -/
theorem view_assemble (negative : Bool) {q : Nat} (hpos : 0 < q) (hq : q < 2 ^ 53) :
    view (assemble negative q 0) =
      .finite negative (q * 2 ^ (52 - q.log2)) (-(52 - q.log2 : Nat)) := by
  have hlog : q.log2 ≤ 52 := log2_le_of_lt hq
  obtain ⟨hlow, hhigh⟩ := scaled_bounds hpos hq
  have hshift : min (52 - (q.log2 : Int)) (0 + 1074) = (52 - q.log2 : Nat) := by omega
  unfold assemble
  dsimp only
  rw [if_neg hpos.ne', hshift]
  have hs : 52 - q.log2 ≤ 52 := Nat.sub_le _ _
  generalize 52 - q.log2 = s at hlow hhigh hs ⊢
  have hfield : ((1075 - s) * 2 ^ 52 + (q * 2 ^ s - 2 ^ 52)) / 2 ^ 52 = 1075 - s := by omega
  have hrest : ((1075 - s) * 2 ^ 52 + (q * 2 ^ s - 2 ^ 52)) % 2 ^ 52 + 2 ^ 52 = q * 2 ^ s := by
    omega
  have hbiased : (0 - (s : Int) + 1075).toNat = 1075 - s := by omega
  have hexponent : ((1075 - s : Nat) : Int) - 1075 = -s := by omega
  rw [if_neg (show ¬(s : Int) < 0 by omega), Int.toNat_natCast, Nat.shiftLeft_eq q s,
    Nat.one_shiftLeft 52, if_neg (not_lt.mpr hlow), hbiased, Nat.shiftLeft_eq (1075 - s) 52,
    view_ofBits _ (by omega), viewOfParts, hfield, if_neg (by omega), if_neg (by omega), hrest,
    hexponent]

theorem value_assemble (negative : Bool) {q : Nat} (hq : q < 2 ^ 53) :
    value? (assemble negative q 0) = some (if negative then -(q : ℚ) else q) := by
  rcases Nat.eq_zero_or_pos q with rfl | hpos
  · show (view (.ofBits (UInt64.ofNat ((if negative then 1 <<< 63 else 0) + 0)))).value? = _
    rw [view_ofBits _ (by decide)]
    simp [viewOfParts, View.value?]
  · have hscaled :
        ((q * 2 ^ (52 - q.log2) : Nat) : ℚ) * 2 ^ (-((52 - q.log2 : Nat) : Int)) = q := by
      rw [zpow_neg, zpow_natCast]
      push_cast
      field_simp
    rw [value?, view_assemble _ hpos hq, View.value?, hscaled]

section

variable {x : Float} {z : Int} (hx : value? x = some (z : ℚ))

include hx

theorem value_round (mode : Rounding) : value? (round mode x) = some (z : ℚ) := by
  obtain ⟨negative, m, e, hview, hsign, -, hfraction⟩ := View.parts_of_value hx
  unfold round
  rw [hview]
  dsimp only
  split
  · exact hx
  · rename_i he
    have hlt := view_lt hview
    rw [hfraction he] at hlt ⊢
    rw [Rounding.magnitude_mul, value_assemble]
    · conv_rhs => rw [hsign]
      cases negative <;> simp
    · exact Nat.lt_of_le_of_lt (Nat.le_mul_of_pos_right _ (Nat.two_pow_pos _)) hlt

theorem isIntegral_of_value : isIntegral x = true := by
  obtain ⟨negative, m, e, hview, -, -, hfraction⟩ := View.parts_of_value hx
  unfold isIntegral
  rw [hview]
  dsimp only
  by_cases he : 0 ≤ e
  · rw [decide_eq_true he]
    rfl
  · rw [hfraction he, Nat.one_shiftLeft, Nat.mul_mod_left]
    simp

theorem integerPart?_of_value : integerPart? x = some z := by
  obtain ⟨negative, m, e, hview, hsign, hwhole, hfraction⟩ := View.parts_of_value hx
  have hmagnitude : (if 0 ≤ e then m <<< e.toNat else m >>> e.natAbs) = z.natAbs := by
    split
    · rename_i he
      rw [Nat.shiftLeft_eq, hwhole he]
    · rename_i he
      rw [hfraction he, Nat.shiftRight_eq_div_pow, Nat.mul_div_cancel _ (Nat.two_pow_pos _)]
  unfold integerPart?
  rw [hview]
  dsimp only
  rw [hmagnitude, ← hsign]

/-- **The integer comes out of a double as far as 64 bits go.** -/
theorem toInt64_of_value (hlow : Int64.minValue.toInt ≤ z) :
    toInt64 x = Int64.ofInt (min z Int64.maxValue.toInt) := by
  obtain ⟨negative, m, e, hview, -⟩ := View.parts_of_value hx
  unfold toInt64
  rw [hview]
  dsimp only
  rw [integerPart?_of_value hx, Option.getD_some, if_neg (not_lt.mpr hlow)]
  split
  · rename_i h
    rw [min_eq_right h.le, Int64.ofInt_toInt]
  · rename_i h
    rw [min_eq_left (not_lt.mp h)]

end

end LambdaQuery.Double
