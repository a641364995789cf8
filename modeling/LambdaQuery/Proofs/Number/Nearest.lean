import LambdaQuery.Number.Decimal.Arithmetic
import LambdaQuery.Proofs.Number.Finite
import LambdaQuery.Proofs.Number.Views

/-!
# The double next to an integer

A double has 53 bits for its significand: from `2^53` on not every integer is one. `Double.nearest`
is the nearest integer that is one (`Double.nearest_nearest`); it keeps the order of integers
(`Double.nearest_monotone`). The double of an integer is this integer (`Double.value_ofInt`): each
way of computing it scales the integer up and rounds it once (`Double.roundWithAccuracy_scaled`).
-/

set_option autoImplicit false

namespace LambdaQuery

open Float.Model Float.Model.UnpackedFloat

namespace Decimal

/-! ## Rounding to the even one of two -/

theorem roundEven_mul_right (num den : Nat) {c : Nat} (hc : 0 < c) :
    roundEven (num * c) (den * c) = roundEven num den := by
  have hlt : den * c < 2 * (num % den * c) ↔ den < 2 * (num % den) := by
    rw [← Nat.mul_assoc]
    exact Nat.mul_lt_mul_right hc
  have heq : 2 * (num % den * c) = den * c ↔ 2 * (num % den) = den := by
    rw [← Nat.mul_assoc]
    exact Nat.mul_left_inj hc.ne'
  unfold roundEven
  rw [Nat.mul_div_mul_right _ _ hc, Nat.mul_mod_mul_right]
  simp only [hlt, heq]

theorem roundEven_mul_self (q : Nat) {den : Nat} (hden : 0 < den) :
    roundEven (q * den) den = q := by
  unfold roundEven
  dsimp only
  rw [Nat.mul_mod_left, Nat.mul_div_cancel _ hden, if_neg (by omega)]

theorem roundEven_one (num : Nat) : roundEven num 1 = num := by
  have h := roundEven_mul_self num (Nat.one_pos)
  rwa [Nat.mul_one] at h

theorem roundEven_mono {num num' : Nat} (den : Nat) (h : num ≤ num') :
    roundEven num den ≤ roundEven num' den := by
  have hq : num / den ≤ num' / den := Nat.div_le_div_right h
  have hsplit := Nat.div_add_mod num den
  have hsplit' := Nat.div_add_mod num' den
  unfold roundEven
  dsimp only
  rcases hq.lt_or_eq with hq | hq
  · split <;> split <;> omega
  · rw [← hq] at hsplit' ⊢
    split <;> split <;> omega

/-- No multiple of the denominator is nearer. -/
theorem roundEven_nearest (num q : Nat) {den : Nat} (hden : 0 < den) :
    ((num : Int) - (roundEven num den * den : Nat)).natAbs ≤
      ((num : Int) - (q * den : Nat)).natAbs := by
  have hsplit := Nat.div_add_mod' num den
  have hlt := Nat.mod_lt num hden
  have hother : q * den ≤ num / den * den ∨ num / den * den + den ≤ q * den := by
    rcases le_or_gt q (num / den) with h | h
    · exact .inl (Nat.mul_le_mul_right _ h)
    · exact .inr (Nat.succ_mul _ _ ▸ Nat.mul_le_mul_right _ h)
  unfold roundEven
  dsimp only
  split
  · rw [Nat.succ_mul]
    omega
  · omega

end Decimal

namespace Double

/-! ## The nearest integer -/

/-- The natural number with a significand of 53 bits that is nearest to `n`, the even one of two. -/
def nearestNat (n : Nat) : Nat :=
  Decimal.roundEven n (2 ^ (n.log2 - 52)) * 2 ^ (n.log2 - 52)

/-- The integer with a significand of 53 bits that is nearest to `z`, the even one of two. -/
def nearest (z : Int) : Int :=
  if z < 0 then -nearestNat z.natAbs else nearestNat z.natAbs

theorem log2_mul_two_pow {n : Nat} (hn : n ≠ 0) (i : Nat) : (n * 2 ^ i).log2 = n.log2 + i := by
  refine (Nat.log2_eq_iff (by positivity)).mpr ⟨?_, ?_⟩
  · rw [Nat.pow_add]
    exact Nat.mul_le_mul_right _ (Nat.log2_self_le hn)
  · rw [Nat.add_right_comm, Nat.pow_add]
    exact Nat.mul_lt_mul_of_pos_right Nat.lt_log2_self (Nat.two_pow_pos i)

/-- A number with a significand of 53 bits is nearest to itself. -/
theorem nearestNat_of_significand {m : Nat} (h : m < 2 ^ 53) (e : Nat) :
    nearestNat (m * 2 ^ e) = m * 2 ^ e := by
  rcases Nat.eq_zero_or_pos m with rfl | hm
  · rw [Nat.zero_mul]
    rfl
  have hlog : m.log2 ≤ 52 := log2_le_of_lt h
  obtain ⟨k, hk⟩ := Nat.exists_eq_add_of_le (show m.log2 + e - 52 ≤ e by omega)
  have hsplit : m * 2 ^ e = m * 2 ^ k * 2 ^ (m.log2 + e - 52) := by
    rw [Nat.mul_assoc, ← Nat.pow_add, Nat.add_comm k, ← hk]
  rw [nearestNat, log2_mul_two_pow hm.ne', hsplit, Decimal.roundEven_mul_self _ (Nat.two_pow_pos _)]

theorem nearestNat_of_lt {n : Nat} (h : n < 2 ^ 53) : nearestNat n = n := by
  have hself := nearestNat_of_significand h 0
  rwa [Nat.pow_zero, Nat.mul_one] at hself

/-- A number lies between two powers of two, and so does what is nearest to it. -/
theorem nearestNat_bounds {n : Nat} (hn : n ≠ 0) :
    2 ^ n.log2 ≤ nearestNat n ∧ nearestNat n ≤ 2 ^ (n.log2 + 1) := by
  have hself : ∀ {i : Nat}, n.log2 ≤ i → Decimal.roundEven (2 ^ i) (2 ^ (n.log2 - 52)) *
      2 ^ (n.log2 - 52) = 2 ^ i := by
    intro i hi
    have hsplit : 2 ^ i = 2 ^ (i - (n.log2 - 52)) * 2 ^ (n.log2 - 52) := by
      rw [← Nat.pow_add]
      congr 1
      omega
    rw [hsplit, Decimal.roundEven_mul_self _ (Nat.two_pow_pos _)]
  constructor
  · rw [← hself (Nat.le_refl _)]
    exact Nat.mul_le_mul_right _ (Decimal.roundEven_mono _ (Nat.log2_self_le hn))
  · rw [← hself (Nat.le_succ _)]
    exact Nat.mul_le_mul_right _ (Decimal.roundEven_mono _ Nat.lt_log2_self.le)

/-- No number with a significand of 53 bits is nearer. -/
theorem nearestNat_nearest (n : Nat) {m : Nat} (hm : m < 2 ^ 53) (e : Nat) :
    ((n : Int) - nearestNat n).natAbs ≤ ((n : Int) - (m * 2 ^ e : Nat)).natAbs := by
  rcases Nat.lt_or_ge n (2 ^ 53) with hn | hn
  · rw [nearestNat_of_lt hn, Int.sub_self]
    exact Nat.zero_le _
  have hn' : n ≠ 0 := by omega
  have hlog : 53 ≤ n.log2 := (Nat.le_log2 hn').mpr hn
  obtain ⟨k, hk⟩ := Nat.exists_eq_add_of_le (show 52 ≤ n.log2 by omega)
  have hunit : n.log2 - 52 = k := by omega
  unfold nearestNat
  rw [hunit]
  rcases le_or_gt k e with hke | hek
  · obtain ⟨d, rfl⟩ := Nat.exists_eq_add_of_le hke
    rw [Nat.add_comm k d, Nat.pow_add, ← Nat.mul_assoc]
    exact Decimal.roundEven_nearest n _ (Nat.two_pow_pos k)
  · -- The other number lies below the highest power of two in `n`, which is no nearer itself.
    have hfront : 2 ^ 52 * 2 ^ k ≤ n := by
      rw [← Nat.pow_add, ← hk]
      exact Nat.log2_self_le hn'
    have hbelow : m * 2 ^ e ≤ 2 ^ 52 * 2 ^ k := by
      obtain ⟨d, rfl⟩ := Nat.exists_eq_add_of_lt hek
      calc m * 2 ^ e ≤ 2 ^ 53 * 2 ^ e := Nat.mul_le_mul_right _ hm.le
        _ = 2 ^ 52 * 2 ^ (e + 1) := by ring
        _ ≤ 2 ^ 52 * 2 ^ (e + d + 1) :=
          Nat.mul_le_mul_left _ (Nat.pow_le_pow_right (by decide) (by omega))
    have hnearest := Decimal.roundEven_nearest n (2 ^ 52) (Nat.two_pow_pos k)
    omega

theorem nearestNat_mono {m n : Nat} (h : m ≤ n) : nearestNat m ≤ nearestNat n := by
  rcases Nat.eq_zero_or_pos m with rfl | hm
  · rw [nearestNat_of_lt (by decide)]
    exact Nat.zero_le _
  have hlog : m.log2 ≤ n.log2 := log2_le_of_lt (Nat.lt_of_le_of_lt h Nat.lt_log2_self)
  rcases hlog.lt_or_eq with hlog | hlog
  · calc nearestNat m ≤ 2 ^ (m.log2 + 1) := (nearestNat_bounds hm.ne').2
      _ ≤ 2 ^ n.log2 := Nat.pow_le_pow_right (by decide) hlog
      _ ≤ nearestNat n := (nearestNat_bounds (by omega)).1
  · unfold nearestNat
    rw [hlog]
    exact Nat.mul_le_mul_right _ (Decimal.roundEven_mono _ h)

theorem nearest_neg (z : Int) : nearest (-z) = -nearest z := by
  unfold nearest
  rw [Int.natAbs_neg]
  rcases lt_trichotomy z 0 with h | rfl | h
  · rw [if_neg (by omega), if_pos h, Int.neg_neg]
  · rfl
  · rw [if_pos (by omega), if_neg (by omega)]

theorem nearest_natCast (n : Nat) : nearest n = nearestNat n := by
  rw [nearest, if_neg (by omega), Int.natAbs_natCast]

theorem nearest_of_significand {z : Int} {m e : Nat} (hm : m < 2 ^ 53) (hz : z.natAbs = m * 2 ^ e) :
    nearest z = z := by
  unfold nearest
  rw [hz, nearestNat_of_significand hm, ← hz]
  split <;> omega

/-- **No integer with a significand of 53 bits is nearer.** -/
theorem nearest_nearest (z : Int) {w : Int} {m e : Nat} (hm : m < 2 ^ 53)
    (hw : w.natAbs = m * 2 ^ e) : (z - nearest z).natAbs ≤ (z - w).natAbs := by
  have hmagnitude := nearestNat_nearest z.natAbs hm e
  have hzero := nearestNat_nearest z.natAbs (show 0 < 2 ^ 53 by decide) 0
  rw [← hw] at hmagnitude
  unfold nearest
  split <;> omega

/-- **Integers in order have nearest integers in order.** -/
theorem nearest_monotone : Monotone nearest := by
  intro m n h
  unfold nearest
  split <;> split
  · have := nearestNat_mono (m := n.natAbs) (n := m.natAbs) (by omega)
    omega
  · omega
  · omega
  · have := nearestNat_mono (m := m.natAbs) (n := n.natAbs) (by omega)
    omega

theorem nearest_abs (z : Int) : nearest |z| = |nearest z| := by
  have hzero : nearest 0 = 0 := rfl
  rcases le_total 0 z with h | h
  · rw [abs_of_nonneg h, abs_of_nonneg (hzero ▸ nearest_monotone h)]
  · rw [abs_of_nonpos h, nearest_neg, abs_of_nonpos (hzero ▸ nearest_monotone h)]

/-! ## Rounding of doubles -/

/-- An exact significand that is shifted to the right. -/
def shifted (m k : Nat) : ExtendedMantissa := (⟨m, false, false⟩ : ExtendedMantissa) >>> k

theorem mantissa_shifted (m k : Nat) : (shifted m k).mantissa = m / 2 ^ k :=
  mantissa_shiftRight _ k

/-- The residual bits tell whether anything was shifted out. -/
theorem residue_shifted (m k : Nat) :
    ((shifted m k).roundBit || (shifted m k).stickyBit) = (m % 2 ^ k != 0) := by
  induction k with
  | zero =>
    rw [Nat.pow_zero, Nat.mod_one]
    rfl
  | succ k ih =>
    show ((shifted m k).mantissa % 2 != 0 || ((shifted m k).roundBit || (shifted m k).stickyBit)) =
      _
    rw [ih, mantissa_shifted, Nat.pow_succ, Nat.mod_mul]
    have hpos := Nat.two_pow_pos k
    rcases Nat.mod_two_eq_zero_or_one (m / 2 ^ k) with h | h <;> rw [h]
    · rfl
    · rw [Bool.eq_iff_iff]
      simp

theorem shifted_succ (m k : Nat) :
    shifted m (k + 1) = ⟨m / 2 ^ (k + 1), m / 2 ^ k % 2 != 0, m % 2 ^ k != 0⟩ := by
  have hmantissa := mantissa_shifted m (k + 1)
  have hround : (shifted m (k + 1)).roundBit = ((shifted m k).mantissa % 2 != 0) := rfl
  have hsticky : (shifted m (k + 1)).stickyBit =
    ((shifted m k).roundBit || (shifted m k).stickyBit) := rfl
  rw [residue_shifted] at hsticky
  rw [mantissa_shifted] at hround
  rw [← hmantissa, ← hsticky, ← hround]

/-- Bits that are shifted out round to the even one of two. -/
theorem roundedMantissa_shifted (m k : Nat) :
    (shifted m k).roundedMantissa = Decimal.roundEven m (2 ^ k) := by
  cases k with
  | zero => exact (Decimal.roundEven_one m).symm
  | succ k =>
    have hpos := Nat.two_pow_pos k
    have hlt := Nat.mod_lt m hpos
    rw [shifted_succ]
    unfold Decimal.roundEven
    dsimp only
    rw [Nat.pow_succ, Nat.mod_mul]
    rcases Nat.mod_two_eq_zero_or_one (m / 2 ^ k) with h | h <;> rw [h]
    · rw [if_neg (by omega)]
      cases m % 2 ^ k != 0 <;> rfl
    · by_cases hzero : m % 2 ^ k = 0
      · rw [hzero]
        show m / (2 ^ k * 2) + m / (2 ^ k * 2) % 2 = _
        split <;> omega
      · rw [if_pos (by omega), bne_iff_ne.mpr hzero]
        rfl

/-- Where the target is `k` above the exponent, the significand is shifted by `k`. -/
theorem shiftToTargetExponent_exact {m k : Nat} {e : Int} (h : m.log2 = 52 + k) (he : -1074 ≤ e) :
    shiftToTargetExponent Format.binary64 m e .exact = (shifted m k, e + k) := by
  have htarget : Format.binary64.targetExponent (totalExponent m e) = e + k := by
    show max ((m.log2 : Int) + 1 + e - 53) (-1074) = _
    omega
  have hshift : (e + k - e).toNat = k := by omega
  unfold shiftToTargetExponent shiftToExponent
  dsimp only
  rw [htarget, hshift]
  rfl

/-- A significand with at least 53 bits is rounded to 53. -/
theorem roundWithAccuracy_exact (s : Sign) {m k : Nat} {e : Int} (h : m.log2 = 52 + k)
    (he : -1074 ≤ e) (hk : e + k ≤ 970) :
    ∃ m' e' hm', roundWithAccuracy Format.binary64 s m e .exact = .finite s m' e' hm' ∧
      Canonical (.finite s m' e' hm') ∧
      (m' : ℚ) * 2 ^ e' = Decimal.roundEven m (2 ^ k) * 2 ^ (e + k) := by
  have hm : m ≠ 0 := by
    rintro rfl
    rw [Nat.log2_zero] at h
    omega
  have hbounds : 2 ^ 52 ≤ Decimal.roundEven m (2 ^ k) ∧
      Decimal.roundEven m (2 ^ k) ≤ 2 ^ 53 := by
    obtain ⟨hlow, hhigh⟩ := (Nat.log2_eq_iff hm).mp h
    have hself := fun q => Decimal.roundEven_mul_self q (Nat.two_pow_pos k)
    constructor
    · rw [← hself (2 ^ 52), ← Nat.pow_add]
      exact Decimal.roundEven_mono _ hlow
    · rw [← hself (2 ^ 53), ← Nat.pow_add, Nat.add_right_comm 52 1 k]
      exact Decimal.roundEven_mono _ hhigh.le
  unfold roundWithAccuracy
  rw [shiftToTargetExponent_exact h he]
  dsimp only
  rw [roundedMantissa_shifted]
  generalize Decimal.roundEven m (2 ^ k) = r at hbounds ⊢
  by_cases hr : r < 2 ^ 53
  · have hlog : r.log2 = 52 + 0 := (Nat.log2_eq_iff (by omega)).mpr ⟨hbounds.1, hr⟩
    rw [shiftToTargetExponent_exact hlog (by omega)]
    dsimp only
    rw [mantissa_shifted, Nat.pow_zero, Nat.div_one]
    refine ⟨r, e + k + (0 : Nat), by omega, dif_neg (by omega), ?_, ?_⟩
    · exact ⟨hr, .inl hbounds.1, by omega, by omega⟩
    · simp
  · -- The significand became one bit longer.
    obtain rfl : r = 2 ^ 53 := by omega
    have hlog : (2 ^ 53 : Nat).log2 = 52 + 1 := Nat.log2_two_pow
    rw [shiftToTargetExponent_exact hlog (by omega)]
    dsimp only
    rw [mantissa_shifted]
    refine ⟨2 ^ 53 / 2 ^ 1, e + k + (1 : Nat), by decide, dif_neg (by decide), ?_, ?_⟩
    · exact ⟨by decide, .inl (by decide), by omega, by omega⟩
    · rw [zpow_add₀ (by norm_num) (e + k)]
      push_cast
      ring

/-- Scaling an integer up to a longer significand does not change what is nearest to it. -/
theorem roundEven_scaled {n i k : Nat} (hn : n ≠ 0) (h : n.log2 + i = 52 + k) :
    (Decimal.roundEven (n * 2 ^ i) (2 ^ k) : ℚ) * 2 ^ (-(i : Int) + k) = nearestNat n := by
  unfold nearestNat
  rcases Nat.le_total i k with hik | hki
  · obtain ⟨d, rfl⟩ := Nat.exists_eq_add_of_le hik
    have hd : n.log2 - 52 = d := by omega
    rw [hd, Nat.add_comm i d, Nat.pow_add, Decimal.roundEven_mul_right _ _ (Nat.two_pow_pos i)]
    have hexponent : -(i : Int) + ((d + i : Nat) : Int) = (d : Nat) := by omega
    rw [hexponent, zpow_natCast]
    push_cast
    rfl
  · obtain ⟨d, rfl⟩ := Nat.exists_eq_add_of_le hki
    have hd : n.log2 - 52 = 0 := by omega
    rw [hd, Nat.add_comm k d, Nat.pow_add, ← Nat.mul_assoc,
      Decimal.roundEven_mul_self _ (Nat.two_pow_pos k), Nat.pow_zero, Decimal.roundEven_one]
    have hexponent : -((d + k : Nat) : Int) + (k : Int) = -(d : Nat) := by omega
    rw [hexponent, zpow_neg, zpow_natCast]
    push_cast
    field_simp

/-- **An integer that is scaled up and rounded as a double is the nearest integer.** -/
theorem roundWithAccuracy_scaled {n i : Nat} (hn : n ≠ 0) (hlog : n.log2 ≤ 1000)
    (hi : 52 ≤ n.log2 + i) (hhigh : i ≤ 1074) :
    ∃ m e hm, roundWithAccuracy Format.binary64 .positive (n * 2 ^ i) (-i) .exact =
        .finite .positive m e hm ∧ Canonical (.finite .positive m e hm) ∧
      (m : ℚ) * 2 ^ e = nearestNat n := by
  obtain ⟨k, hk⟩ := Nat.exists_eq_add_of_le hi
  have hscaled : (n * 2 ^ i).log2 = 52 + k := (log2_mul_two_pow hn i).trans hk
  obtain ⟨m, e, hm, hround, hcanonical, hvalue⟩ := roundWithAccuracy_exact .positive hscaled
    (e := -i) (by omega) (by omega)
  exact ⟨m, e, hm, hround, hcanonical, hvalue.trans (roundEven_scaled hn hk)⟩

/-- A significand of 53 bits needs no rounding. -/
theorem roundWithAccuracy_self (s : Sign) {m : Nat} {e : Int} (hlow : 2 ^ 52 ≤ m)
    (hhigh : m < 2 ^ 53) (he : -1074 ≤ e) :
    roundWithAccuracy Format.binary64 s m e .exact = .finite s m e (by omega) := by
  have hshift : shiftToTargetExponent Format.binary64 m e .exact = (⟨m, false, false⟩, e) := by
    have hlog : m.log2 = 52 + 0 := (Nat.log2_eq_iff (by omega)).mpr ⟨hlow, hhigh⟩
    rw [shiftToTargetExponent_exact hlog he, Int.natCast_zero, Int.add_zero]
    rfl
  have hrounded : (⟨m, false, false⟩ : ExtendedMantissa).roundedMantissa = m := rfl
  unfold roundWithAccuracy
  rw [hshift]
  dsimp only
  rw [hrounded, hshift]
  exact dif_neg (show m ≠ 0 by omega)

/-! ## Integers -/

theorem value_pack {u : UnpackedFloat} {q : ℚ} (h : Canonical u)
    (hq : (viewOf u).value? = some q) : value? (.ofModel (.pack u)) = some q := by
  rw [value?, view_ofModel_pack h, hq]

/-- A number of at most 53 bits, scaled up to 53. -/
theorem scaled_bounds {n : Nat} (hn : 0 < n) (hlt : n < 2 ^ 53) :
    2 ^ 52 ≤ n * 2 ^ (52 - n.log2) ∧ n * 2 ^ (52 - n.log2) < 2 ^ 53 := by
  have hlog : n.log2 + (52 - n.log2) = 52 := Nat.add_sub_cancel' (log2_le_of_lt hlt)
  have hscaled := log2_mul_two_pow hn.ne' (52 - n.log2)
  rw [hlog] at hscaled
  exact (Nat.log2_eq_iff (by positivity)).mp hscaled

/-- An integer below `2^53` is a double. -/
theorem ofUInt64_exact {n : Nat} (hn : 0 < n) (hlt : n < 2 ^ 53) :
    n.toUInt64.toFloat.toModel.unpack =
      .finite .positive (n * 2 ^ (52 - n.log2)) (-(52 - n.log2 : Nat)) (by positivity) := by
  have hlog : n.log2 ≤ 52 := log2_le_of_lt hlt
  obtain ⟨hlow, hhigh⟩ := scaled_bounds hn hlt
  have hround : UnpackedFloat.ofUInt64 Format.binary64 n.toUInt64 =
      .finite .positive (n * 2 ^ (52 - n.log2)) (-(52 - n.log2 : Nat)) (by positivity) := by
    have htoNat : n.toUInt64.toNat = n := UInt64.toNat_ofNat_of_lt' (Nat.lt_trans hlt (by decide))
    have hshift : (0 - max ((n.log2 : Int) + 1 + 0 - 53) (-1074)).toNat = 52 - n.log2 := by omega
    show normalize Format.binary64 (n.toUInt64.toNat : Int) 0 .positive = _
    rw [htoNat]
    unfold UnpackedFloat.normalize
    rw [compare_gt_iff_gt.mpr (show (0 : Int) < n by omega)]
    show roundWithAccuracy Format.binary64 .positive
      (n <<< (0 - max ((n.log2 : Int) + 1 + 0 - 53) (-1074)).toNat)
      (0 - ((0 - max ((n.log2 : Int) + 1 + 0 - 53) (-1074)).toNat : Int)) .exact = _
    rw [hshift, Nat.shiftLeft_eq, Int.zero_sub]
    exact roundWithAccuracy_self _ hlow hhigh (by omega)
  show unpack Format.binary64
    (UnpackedFloat.pack Format.binary64 (UnpackedFloat.ofUInt64 Format.binary64 _)) = _
  rw [hround, unpack_pack]
  exact ⟨hhigh, .inl hlow, by omega, by omega⟩

theorem unpack_one : (Float.ofBits 0x3FF0000000000000).toModel.unpack =
    .finite .positive (2 ^ 52) (-52) (by decide) := by
  rfl

theorem mul_positive {m n : Nat} {e f : Int} (hm : 0 < m) (hn : 0 < n) :
    UnpackedFloat.mul Format.binary64 (.finite .positive m e hm) (.finite .positive n f hn) =
      roundWithAccuracy Format.binary64 .positive (m * n) (e + f) .exact := rfl

/-- Below `2^53` the double of a number is a product with one. -/
theorem value_mul_one {n : Nat} (hn : 0 < n) (hlt : n < 2 ^ 53) :
    value? (n.toUInt64.toFloat * Float.ofBits 0x3FF0000000000000) = some (nearestNat n : ℚ) := by
  have hlog : n.log2 ≤ 52 := log2_le_of_lt hlt
  obtain ⟨m, e, hm, hround, hcanonical, hvalue⟩ :=
    roundWithAccuracy_scaled hn.ne' (i := 52 - n.log2 + 52) (by omega) (by omega) (by omega)
  have hmul : UnpackedFloat.mul Format.binary64 n.toUInt64.toFloat.toModel.unpack
      (Float.ofBits 0x3FF0000000000000).toModel.unpack = .finite .positive m e hm := by
    have hexponent : -((52 - n.log2 : Nat) : Int) + -52 = -((52 - n.log2 + 52 : Nat) : Int) := by
      omega
    rw [ofUInt64_exact hn hlt, unpack_one, mul_positive, ← hround, Nat.pow_add, Nat.mul_assoc,
      hexponent]
  show value? (.ofModel (.pack (UnpackedFloat.mul Format.binary64
    n.toUInt64.toFloat.toModel.unpack (Float.ofBits 0x3FF0000000000000).toModel.unpack))) = _
  rw [hmul]
  exact value_pack hcanonical (congrArg some hvalue)

/-- Elsewhere the double of a number is a product with a power of ten. -/
theorem value_ofScientific {n : Nat} (hn : 0 < n) (hlog : n.log2 ≤ 1000) :
    value? (.ofModel (.ofScientific n 0)) = some (nearestNat n : ℚ) := by
  obtain ⟨m, e, hm, hround, hcanonical, hvalue⟩ :=
    roundWithAccuracy_scaled hn.ne' (i := 53) (by omega) (by omega) (by omega)
  have hscientific : UnpackedFloat.ofScientific Format.binary64 n 0 = .finite .positive m e hm := by
    have hexponents : (0 : Int) < 2 ^ Format.binary64.exponentBits := by decide
    have hbits : Format.binary64.mantissaBits = 53 := rfl
    unfold UnpackedFloat.ofScientific
    rw [dif_neg hn.ne', if_neg (by decide), if_neg (by omega), if_pos (Int.le_refl 0),
      mul_positive, ← hround, hbits, Nat.shiftLeft_eq, Int.toNat_zero, Nat.pow_zero, Nat.mul_one,
      Int.add_zero]
  show value? (.ofModel (.pack (UnpackedFloat.ofScientific Format.binary64 n 0))) = _
  rw [hscientific]
  exact value_pack hcanonical (congrArg some hvalue)

theorem value_zero : value? (Float.ofNat 0) = some 0 := by
  have hview : view (Float.ofNat 0) = .finite false 0 (-1074) := rfl
  rw [value?, hview]
  simp [View.value?]

/-- The double of a natural number is the nearest one. -/
theorem value_ofNat {n : Nat} (hn : n < Decimal.size) :
    value? (Float.ofNat n) = some (nearestNat n : ℚ) := by
  rcases Nat.eq_zero_or_pos n with rfl | hpos
  · rw [value_zero, nearestNat_of_lt (by decide), Nat.cast_zero]
  have hlog : n.log2 ≤ 96 := log2_le_of_lt (Nat.lt_trans hn (by decide))
  unfold Float.ofNat
  show value? (Float.ofScientific n false 0) = _
  unfold Float.ofScientific
  split
  · rename_i hlt
    exact value_mul_one hpos hlt.1
  · exact value_ofScientific hpos (by omega)

theorem value_neg {x : Float} {q : ℚ} (h : value? x = some q) : value? (-x) = some (-q) := by
  have hcanonical : Canonical x.toModel.unpack := canonical_unpack _
  show value? (.ofModel (.pack x.toModel.unpack.neg)) = _
  rw [value?, view_eq] at h
  generalize x.toModel.unpack = u at h hcanonical ⊢
  rcases u with _ | _ | ⟨⟨⟩⟩ | ⟨⟨⟩, m, e, hm⟩ <;> cases h
  all_goals
    refine value_pack hcanonical ?_
    simp [viewOf, View.value?, UnpackedFloat.neg, isMinus]

/-- **The double of an integer is the nearest one.** -/
theorem value_ofInt {z : Int} (hz : z.natAbs < Decimal.size) :
    value? (Float.ofInt z) = some (nearest z : ℚ) := by
  cases z with
  | ofNat n =>
    rw [Int.ofNat_eq_natCast, nearest_natCast]
    exact_mod_cast value_ofNat hz
  | negSucc n =>
    rw [Int.negSucc_eq, ← Int.natCast_succ, nearest_neg, nearest_natCast]
    push_cast
    exact value_neg (value_ofNat hz)

theorem value_ofInt64 (n : Int64) :
    value? (ofInt64 n) = some (nearest n.toInt : ℚ) := by
  have hlow := n.le_toInt
  have hhigh := n.toInt_lt
  refine value_ofInt (Nat.lt_of_le_of_lt ?_ (show 2 ^ 63 < Decimal.size by decide))
  omega

end Double

end LambdaQuery
