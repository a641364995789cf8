import LambdaQuery.Number.Decimal.Double
import Mathlib

/-!
# Finite doubles

The double next to an integer of 64 bits or to a decimal is a finite number
(`Decimal.isFinite_toFloat`). What is followed through the arithmetic is a bound of the exponent
(`Double.Within`): the significand of a double has 53 bits, so that each operation adds a constant
to the bound, and the bounds stay far below the largest exponent.
-/

set_option autoImplicit false

namespace LambdaQuery

open Float.Model Float.Model.UnpackedFloat

namespace Double

/-- Zero, or a number with an exponent of at most `k`. -/
def Small (k : Int) : UnpackedFloat → Prop
  | .zero _ => True
  | .finite _ _ e _ => e ≤ k
  | .infinity _ | .notANumber => False

/-- The double is zero, or a number with an exponent of at most `k`. -/
def Within (k : Int) (x : Float) : Prop := Small k x.toModel.unpack

theorem Small.isFinite {k : Int} {u : UnpackedFloat} (h : Small k u) : u.isFinite = true := by
  cases u <;> first | rfl | exact h.elim

theorem Within.isFinite {k : Int} {x : Float} (h : Within k x) : x.isFinite = true :=
  Small.isFinite h

theorem Small.mono {j k : Int} {u : UnpackedFloat} (h : Small j u) (hjk : j ≤ k) : Small k u := by
  cases u with
  | finite => exact Int.le_trans h hjk
  | zero => trivial
  | infinity | notANumber => exact h.elim

theorem Within.mono {j k : Int} {x : Float} (h : Within j x) (hjk : j ≤ k) : Within k x :=
  Small.mono h hjk

/-! ## Packing -/

/-- The exponent of a double is stored with a bias of 1075, and all ones are for no number. -/
theorem small_unpack {k : Int} {b : BitVec 64}
    (h : ((@unpackExponent Format.binary64 b).toNat : Int) ≤ k + 1075)
    (hlow : -1074 ≤ k) (hhigh : k ≤ 970) : Small k (unpack Format.binary64 b) := by
  have hones : @unpackExponent Format.binary64 b ≠ -1#_ := by
    intro hb
    rw [hb] at h
    have hnat : (-1#(Format.binary64.exponentBits)).toNat = 2047 := rfl
    omega
  have hbias : (Format.binary64.exponentBias : Int) +
      Format.binary64.mantissaBitsWithoutImplicit = 1075 := rfl
  unfold UnpackedFloat.unpack
  dsimp only
  rw [if_neg hones]
  split
  · split
    · trivial
    · rename_i hzero _
      show _ ≤ k
      rw [hzero, hbias]
      exact hlow
  · show _ ≤ k
    rw [hbias]
    omega

theorem Small.pack {k : Int} {u : UnpackedFloat} (h : Small k u) (hlow : -1074 ≤ k)
    (hhigh : k ≤ 970) :
    Small k (unpack Format.binary64 (UnpackedFloat.pack Format.binary64 u)) := by
  refine small_unpack ?_ hlow hhigh
  cases u with
  | zero s =>
    rw [UnpackedFloat.pack, packedZero, unpackExponent_packComponents]
    show (0 : Int) ≤ _
    omega
  | finite s m e hm =>
    have he : e ≤ k := h
    have hbias : (Format.binary64.exponentBias : Int) +
      Format.binary64.mantissaBitsWithoutImplicit = 1075 := rfl
    have hfit : ¬2 ^ Format.binary64.exponentBits ≤ (e + Format.binary64.exponentBias +
        Format.binary64.mantissaBitsWithoutImplicit).toNat + 1 := by
      rw [Int.add_assoc, hbias]
      show ¬2048 ≤ _
      omega
    unfold UnpackedFloat.pack
    dsimp only
    rw [if_neg hfit]
    split
    · rw [unpackExponent_packComponents, BitVec.toNat_ofNat, Int.add_assoc, hbias]
      have hmod := Nat.mod_le (e + 1075).toNat (2 ^ Format.binary64.exponentBits)
      omega
    · rw [unpackExponent_packComponents]
      show (0 : Int) ≤ _
      omega
  | infinity | notANumber => exact h.elim

/-- The significand of a double has 53 bits. -/
theorem significand_lt {b : BitVec 64} {s : Sign} {m : Nat} {e : Int} {hm : 0 < m}
    (h : unpack Format.binary64 b = .finite s m e hm) : m < 2 ^ 53 := by
  unfold UnpackedFloat.unpack at h
  dsimp only at h
  split at h
  · split at h <;> cases h
  · split at h
    · split at h
      · cases h
      · cases h
        have := (@unpackMantissa Format.binary64 b).isLt
        exact Nat.lt_trans this (by decide)
    · cases h
      exact (1#1 ++ @unpackMantissa Format.binary64 b).isLt

/-! ## Rounding -/

theorem mantissa_shiftRight (em : ExtendedMantissa) (n : Nat) :
    (em >>> n).mantissa = em.mantissa / 2 ^ n := by
  induction n with
  | zero => exact (Nat.div_one _).symm
  | succ n ih =>
    show (em >>> n).mantissa / 2 = _
    rw [ih, Nat.div_div_eq_div_mul, Nat.pow_succ]

theorem roundedMantissa_le (em : ExtendedMantissa) : em.roundedMantissa ≤ em.mantissa + 1 := by
  obtain ⟨m, _ | _, _ | _⟩ := em
  · exact Nat.le_succ m
  · exact Nat.le_succ m
  · show m + m % 2 ≤ m + 1
    omega
  · exact Nat.le_refl _

theorem mantissa_ofMantissaAndAccuracy (m : Nat) (acc : Accuracy) :
    (ExtendedMantissa.ofMantissaAndAccuracy m acc).mantissa = m := by
  unfold ExtendedMantissa.ofMantissaAndAccuracy
  split <;> rfl

/-- Rounding shifts a number to the right until the exponent is the target. -/
theorem shiftToTargetExponent_eq (m : Nat) (e : Int) (acc : Accuracy) :
    let n := (max (totalExponent m e - 53) (-1074) - e).toNat
    (shiftToTargetExponent Format.binary64 m e acc).1.mantissa = m / 2 ^ n ∧
      (shiftToTargetExponent Format.binary64 m e acc).2 = e + n := by
  refine ⟨?_, rfl⟩
  show (ExtendedMantissa.ofMantissaAndAccuracy m acc >>> (_ : Nat)).mantissa = _
  rw [mantissa_shiftRight, mantissa_ofMantissaAndAccuracy]
  rfl

theorem log2_le_of_lt {m n : Nat} (h : m < 2 ^ (n + 1)) : m.log2 ≤ n := by
  by_cases hm : m = 0
  · rw [hm]
    exact Nat.zero_le n
  · exact Nat.lt_succ_iff.mp ((Nat.log2_lt hm).mpr h)

/-- A significand that is shifted and then rounded up is at most one bit longer than without. -/
theorem log2_shifted_le {m m' n : Nat} (h : m' ≤ m / 2 ^ n + 1) : m'.log2 ≤ m.log2 + 1 - n := by
  have hm : m < 2 ^ (m.log2 + 1) := Nat.lt_log2_self
  by_cases hn : n ≤ m.log2 + 1
  · refine log2_le_of_lt (Nat.lt_of_le_of_lt h ?_)
    have hdiv : m / 2 ^ n < 2 ^ (m.log2 + 1 - n) := by
      rw [Nat.div_lt_iff_lt_mul (Nat.two_pow_pos n), ← Nat.pow_add, Nat.sub_add_cancel hn]
      exact hm
    rw [Nat.pow_succ]
    have hpos := Nat.two_pow_pos (m.log2 + 1 - n)
    omega
  · have hdiv : m / 2 ^ n = 0 := Nat.div_eq_of_lt
      (Nat.lt_trans hm (Nat.pow_lt_pow_right (by decide) (by omega)))
    rw [hdiv] at h
    exact log2_le_of_lt (Nat.lt_of_le_of_lt h (by
      rw [Nat.pow_succ]
      have := Nat.two_pow_pos (m.log2 + 1 - n)
      omega))

/-- A number below `2^k` is rounded to one with an exponent of at most `k`. -/
theorem small_roundWithAccuracy {k : Int} (s : Sign) {m : Nat} {e : Int} (acc : Accuracy)
    (h : totalExponent m e ≤ k) (hlow : -1074 ≤ k) :
    Small k (roundWithAccuracy Format.binary64 s m e acc) := by
  unfold roundWithAccuracy
  obtain ⟨hm₁, he₁⟩ := shiftToTargetExponent_eq m e acc
  generalize shiftToTargetExponent Format.binary64 m e acc = shifted at hm₁ he₁ ⊢
  obtain ⟨em₁, e₁⟩ := shifted
  dsimp only at hm₁ he₁ ⊢
  have hrounded := log2_shifted_le (hm₁ ▸ roundedMantissa_le em₁)
  obtain ⟨-, he₂⟩ := shiftToTargetExponent_eq em₁.roundedMantissa e₁ .exact
  generalize shiftToTargetExponent Format.binary64 em₁.roundedMantissa e₁ .exact = shifted at he₂ ⊢
  obtain ⟨em₂, e₂⟩ := shifted
  dsimp only at he₂ ⊢
  unfold totalExponent at *
  split
  · trivial
  · show e₂ ≤ k
    omega

theorem totalExponent_decreaseExponent_le (m : Nat) (e target : Int) :
    totalExponent (decreaseExponent m e target).1 (decreaseExponent m e target).2 ≤
      totalExponent m e := by
  have hlog : (m <<< (e - target).toNat).log2 ≤ m.log2 + (e - target).toNat := by
    refine log2_le_of_lt ?_
    rw [Nat.shiftLeft_eq, Nat.add_right_comm, Nat.pow_add]
    exact Nat.mul_lt_mul_of_pos_right Nat.lt_log2_self (Nat.two_pow_pos _)
  unfold totalExponent decreaseExponent
  dsimp only
  omega

theorem small_round {k : Int} (s : Sign) {m : Nat} {e : Int} (h : totalExponent m e ≤ k)
    (hlow : -1074 ≤ k) : Small k (UnpackedFloat.round Format.binary64 s m e) :=
  small_roundWithAccuracy s .exact
    (Int.le_trans (totalExponent_decreaseExponent_le m e _) h) hlow

theorem small_normalize {k : Int} {m : Int} {e : Int} (s : Sign)
    (h : totalExponent m.natAbs e ≤ k) (hlow : -1074 ≤ k) :
    Small k (normalize Format.binary64 m e s) := by
  unfold UnpackedFloat.normalize
  split
  · rename_i hm
    refine small_round _ ?_ hlow
    have hneg : m < 0 := compare_lt_iff_lt.mp hm
    rwa [show (-m).toNat = m.natAbs by omega]
  · trivial
  · rename_i hm
    refine small_round _ ?_ hlow
    have hpos : 0 < m := compare_gt_iff_gt.mp hm
    rwa [show m.toNat = m.natAbs by omega]

/-! ## Arithmetic -/

theorem Within.pack {k : Int} {u : UnpackedFloat} (h : Small k u) (hlow : -1074 ≤ k)
    (hhigh : k ≤ 970) : Within k (.ofModel (.pack u)) :=
  h.pack hlow hhigh

theorem log2_mul_le {m n : Nat} {i j : Nat} (hm : m < 2 ^ i) (hn : n < 2 ^ j) :
    (m * n).log2 ≤ i + j := by
  refine log2_le_of_lt (Nat.lt_of_lt_of_le (Nat.mul_lt_mul'' hm hn) ?_)
  rw [← Nat.pow_add]
  exact Nat.pow_le_pow_right (by decide) (Nat.le_succ _)

theorem small_mul_finite {k : Int} {s t : Sign} {m n : Nat} {e f : Int} {hm : 0 < m} {hn : 0 < n}
    (h : totalExponent (m * n) (e + f) ≤ k) (hlow : -1074 ≤ k) :
    Small k (UnpackedFloat.mul Format.binary64 (.finite s m e hm) (.finite t n f hn)) :=
  small_roundWithAccuracy _ .exact h hlow

theorem Within.cases {k : Int} {x : Float} (h : Within k x) :
    (∃ s, x.toModel.unpack = .zero s) ∨
      ∃ s m e hm, x.toModel.unpack = .finite s m e hm ∧ m < 2 ^ 53 ∧ e ≤ k := by
  unfold Within at h
  cases hu : x.toModel.unpack with
  | zero s => exact .inl ⟨s, rfl⟩
  | finite s m e hm =>
    rw [hu] at h
    exact .inr ⟨s, m, e, hm, rfl, significand_lt hu, h⟩
  | infinity | notANumber =>
    rw [hu] at h
    exact h.elim

section

variable {j k : Int} {x y : Float} (hx : Within j x) (hy : Within k y)

include hx

protected theorem Within.neg (hlow : -1074 ≤ j) (hhigh : j ≤ 970) : Within j (-x) := by
  refine Within.pack (u := x.toModel.unpack.neg) ?_ hlow hhigh
  rcases hx.cases with ⟨s, hu⟩ | ⟨s, m, e, hm, hu, -, he⟩
  · rw [hu]
    trivial
  · rw [hu]
    exact he

include hy

/-- A product has at most 106 bits before it is rounded. -/
protected theorem Within.mul (hlow : -1074 ≤ j + k + 107) (hhigh : j + k + 107 ≤ 970) :
    Within (j + k + 107) (x * y) := by
  refine Within.pack
    (u := UnpackedFloat.mul Format.binary64 x.toModel.unpack y.toModel.unpack) ?_ hlow hhigh
  rcases hx.cases with ⟨s, hu⟩ | ⟨s, m, e, hm, hu, hmlt, he⟩ <;>
    rcases hy.cases with ⟨t, hv⟩ | ⟨t, n, f, hn, hv, hnlt, hf⟩ <;> rw [hu, hv]
  · trivial
  · trivial
  · trivial
  · have hlog := log2_mul_le hmlt hnlt
    refine small_mul_finite ?_ hlow
    unfold totalExponent
    omega

end

/-- A sum has at most 54 bits above the smaller exponent. -/
protected theorem Within.add {k : Int} {x y : Float} (hx : Within k x) (hy : Within k y)
    (hlow : -1074 ≤ k + 55) (hhigh : k + 55 ≤ 970) : Within (k + 55) (x + y) := by
  refine Within.pack
    (u := UnpackedFloat.add Format.binary64 x.toModel.unpack y.toModel.unpack) ?_ hlow hhigh
  rcases hx.cases with ⟨s, hu⟩ | ⟨s, m, e, hm, hu, hmlt, he⟩ <;>
    rcases hy.cases with ⟨t, hv⟩ | ⟨t, n, f, hn, hv, hnlt, hf⟩ <;> rw [hu, hv]
  · show Small _ (if _ then _ else _)
    split <;> trivial
  · exact Int.le_trans hf (by omega)
  · exact Int.le_trans he (by omega)
  · have hshift : ∀ {i : Nat} {d : Int}, i < 2 ^ 53 → d ≤ k →
        i <<< (d - min e f).toNat < 2 ^ (53 + (k - min e f).toNat) := by
      intro i d hi hd
      rw [Nat.shiftLeft_eq, Nat.pow_add]
      exact Nat.mul_lt_mul_of_lt_of_le hi
        (Nat.pow_le_pow_right (by decide) (by omega)) (Nat.two_pow_pos _)
    have hsum : ∀ {i j : Nat}, (s.apply i + t.apply j).natAbs ≤ i + j := by
      intro i j
      cases s <;> cases t <;> simp only [Sign.apply] <;> omega
    have hlog : (s.apply ((m <<< (e - min e f).toNat : Nat) : Int) +
        t.apply ((n <<< (f - min e f).toNat : Nat) : Int)).natAbs.log2 ≤
          53 + (k - min e f).toNat := by
      refine log2_le_of_lt (Nat.lt_of_le_of_lt hsum ?_)
      have hfirst := hshift hmlt he
      have hsecond := hshift hnlt hf
      rw [Nat.pow_succ]
      omega
    refine small_normalize _ ?_ hlow
    show totalExponent _ (min e f) ≤ _
    unfold totalExponent
    have := min_le_left e f
    refine Int.le_trans (Int.add_le_add_right (Int.add_le_add_right
      (Int.ofNat_le.mpr hlog) 1) _) ?_
    omega

/-- A quotient is at most as large as the dividend, brought to the exponent of the divisor. -/
protected theorem Within.div {k : Int} {x y : Float} (hx : Within k x)
    (hy : ∃ s n f hn, y.toModel.unpack = .finite s n f hn ∧ -53 ≤ f) (hlow : -1074 ≤ k + 107)
    (hhigh : k + 107 ≤ 970) : Within (k + 107) (x / y) := by
  refine Within.pack
    (u := UnpackedFloat.div Format.binary64 x.toModel.unpack y.toModel.unpack) ?_ hlow hhigh
  obtain ⟨t, n, f, hn, hv, hf⟩ := hy
  rcases hx.cases with ⟨s, hu⟩ | ⟨s, m, e, hm, hu, hmlt, he⟩ <;> rw [hu, hv]
  · trivial
  · refine small_roundWithAccuracy _ _ ?_ hlow
    have hmin := min_le_left (e - f)
      (Format.binary64.targetExponent (totalExponent m e - totalExponent n f))
    show totalExponent (m <<< (e - f - min (e - f) _).toNat / n) (min (e - f) _) ≤ _
    generalize min (e - f)
      (Format.binary64.targetExponent (totalExponent m e - totalExponent n f)) = g at hmin ⊢
    have hlog : (m <<< (e - f - g).toNat / n).log2 ≤ 53 + (e - f - g).toNat := by
      refine log2_le_of_lt (Nat.lt_of_le_of_lt (Nat.div_le_self _ _) ?_)
      rw [Nat.shiftLeft_eq, Nat.add_right_comm, Nat.pow_add]
      exact Nat.mul_lt_mul_of_pos_right (Nat.lt_trans hmlt (by decide)) (Nat.two_pow_pos _)
    unfold totalExponent
    omega

/-! ## Numbers -/

theorem within_ofBits {k : Int} {a : UInt64}
    (h : ((a.toNat / 2 ^ 52 % 2048 : Nat) : Int) ≤ k + 1075) (hlow : -1074 ≤ k)
    (hhigh : k ≤ 970) : Within k (.ofBits a) := by
  refine Within.pack (small_unpack (b := a.toBitVec) ?_ hlow hhigh) hlow hhigh
  have hexponent : (@unpackExponent Format.binary64 a.toBitVec).toNat =
      a.toNat / 2 ^ 52 % 2048 := by
    show a.toNat >>> 52 % 2 ^ 11 = _
    rw [Nat.shiftRight_eq_div_pow]
  rwa [hexponent]

theorem within_ofUInt64 (n : UInt64) : Within 64 n.toFloat := by
  refine Within.pack (small_normalize _ ?_ (by decide)) (by decide) (by decide)
  have hlog : n.toNat.log2 ≤ 63 := log2_le_of_lt n.toNat_lt
  show (n.toNat.log2 : Int) + 1 + 0 ≤ 64
  omega

/-- Natural numbers up to the significands of decimals are far from the largest double. -/
theorem within_ofNat {n : Nat} (hn : n < Decimal.size) : Within 119 (Float.ofNat n) := by
  have hone : Within (-52) (Float.ofBits 0x3FF0000000000000) :=
    within_ofBits (by decide) (by decide) (by decide)
  unfold Float.ofNat
  show Within 119 (Float.ofScientific n false 0)
  unfold Float.ofScientific
  split
  · exact (within_ofUInt64 _).mul hone (by decide) (by decide)
  · refine Within.pack (u := UnpackedFloat.ofScientific Format.binary64 n 0) ?_ (by decide)
      (by decide)
    unfold UnpackedFloat.ofScientific
    split
    · trivial
    · have hexponents : (0 : Int) < 2 ^ Format.binary64.exponentBits := by decide
      rw [if_neg (by decide), if_neg (by omega), if_pos (Int.le_refl 0)]
      generalize_proofs hshifted hten
      generalize hp : n <<< Format.binary64.mantissaBits = p at hshifted ⊢
      generalize hq : 10 ^ Int.toNat 0 = q at hten ⊢
      refine small_mul_finite ?_ (by decide)
      subst hp hq
      have hlog : (n <<< 53 * 1).log2 ≤ 148 := by
        refine log2_le_of_lt ?_
        rw [Nat.shiftLeft_eq]
        have : n < 2 ^ 96 := hn
        omega
      show ((n <<< 53 * 1).log2 : Int) + 1 + (-53 + 0) ≤ 119
      omega

/-- What a double with an exponent of at least `-53` divides grows by few bits. -/
def divides : UnpackedFloat → Bool
  | .finite _ _ e _ => -53 ≤ e
  | _ => false

theorem exists_of_divides {u : UnpackedFloat} (h : divides u = true) :
    ∃ s n f hn, u = .finite s n f hn ∧ -53 ≤ f := by
  cases u with
  | finite s n f hn => exact ⟨s, n, f, hn, rfl, of_decide_eq_true h⟩
  | _ => cases h

theorem divides_tenPow :
    ∀ s : Fin 29, divides (Float.ofNat (tenPow s)).toModel.unpack = true := by
  decide +kernel

/-! ## Rounding to integers -/

theorem view_lt {x : Float} {negative : Bool} {m : Nat} {e : Int}
    (h : view x = .finite negative m e) : m < 2 ^ 53 := by
  unfold view at h
  dsimp only at h
  split at h
  · split at h <;> cases h
  · split at h
    · cases h
      exact Nat.lt_trans (Nat.mod_lt _ (by decide)) (by decide)
    · cases h
      have := Nat.mod_lt x.toBits.toNat (show 0 < 1 <<< 52 by decide)
      have : (1 <<< 52 : Nat) = 2 ^ 52 := rfl
      omega

theorem magnitude_le (mode : Rounding) (negative : Bool) (m k : Nat) :
    mode.magnitude negative m k ≤ m + 1 := by
  have hle : m >>> k ≤ m := by
    rw [Nat.shiftRight_eq_div_pow]
    exact Nat.div_le_self _ _
  unfold Rounding.magnitude
  dsimp only
  split <;> split <;> first | exact Nat.succ_le_succ hle | exact Nat.le_succ_of_le hle

/-- An integer of at most `2^53` has an exponent of at most one. -/
theorem within_assemble (negative : Bool) {m : Nat} (hm : m ≤ 2 ^ 53) :
    Within 1 (assemble negative m 0) := by
  have hbits : ∀ word : Nat, word < 2 ^ 52 * 1077 →
      Within 1 (.ofBits (UInt64.ofNat ((if negative then 1 <<< 63 else 0) + word))) := by
    intro word hword
    refine within_ofBits ?_ (by decide) (by decide)
    rw [UInt64.toNat_ofNat']
    have hsign : (1 <<< 63 : Nat) = 2 ^ 63 := rfl
    split <;> omega
  unfold assemble
  dsimp only
  split
  · exact hbits 0 (by decide)
  · have hlog : m.log2 ≤ 53 := log2_le_of_lt (Nat.lt_of_le_of_lt hm (by decide))
    have hshift : min (52 - (m.log2 : Int)) (0 + 1074) = 52 - (m.log2 : Int) := by omega
    rw [hshift]
    refine hbits _ ?_
    have hsignificand : (if 52 - (m.log2 : Int) < 0 then m >>> (52 - (m.log2 : Int)).natAbs
        else m <<< (52 - (m.log2 : Int)).toNat) < 2 ^ 53 := by
      split
      · rw [Nat.shiftRight_eq_div_pow]
        refine Nat.lt_of_le_of_lt (Nat.div_le_div_left (Nat.pow_le_pow_right (n := 2) (by decide)
          (show 1 ≤ _ by omega)) (by decide)) ?_
        omega
      · have hm' : m < 2 ^ (m.log2 + 1) := Nat.lt_log2_self
        rw [Nat.shiftLeft_eq]
        refine Nat.lt_of_lt_of_le (Nat.mul_lt_mul_of_pos_right hm' (Nat.two_pow_pos _)) ?_
        rw [← Nat.pow_add]
        exact Nat.pow_le_pow_right (by decide) (by omega)
    generalize (if 52 - (m.log2 : Int) < 0 then m >>> (52 - (m.log2 : Int)).natAbs
        else m <<< (52 - (m.log2 : Int)).toNat) = significand at hsignificand ⊢
    have hone : (1 <<< 52 : Nat) = 2 ^ 52 := rfl
    rw [hone, Nat.shiftLeft_eq]
    split <;> omega

/-- Rounding to an integer keeps a double within its bound. -/
protected theorem Within.round (mode : Rounding) {k : Int} {x : Float} (hx : Within k x)
    (hk : 1 ≤ k) : Within k (Double.round mode x) := by
  unfold Double.round
  split
  · rename_i hview
    split
    · exact hx
    · exact (within_assemble _ (Nat.le_trans (magnitude_le _ _ _ _) (view_lt hview))).mono hk
  · exact hx

/-! ## Integers of 64 bits -/

theorem isFinite_ofInt {n : Int} (hn : n.natAbs < Decimal.size) :
    (Float.ofInt n).isFinite = true := by
  cases n with
  | ofNat n => exact (within_ofNat hn).isFinite
  | negSucc n => exact ((within_ofNat hn).neg (by decide) (by decide)).isFinite

theorem isFinite_ofUInt64 (n : UInt64) : (ofUInt64 n).isFinite = true :=
  (within_ofNat (Nat.lt_trans n.toNat_lt (by decide))).isFinite

/-! ## Decimals -/

theorem Within.ite {k : Int} {x y : Float} {c : Prop} [Decidable c] (hx : Within k x)
    (hy : Within k y) : Within k (if c then x else y) := by
  split
  · exact hx
  · exact hy

end Double

namespace Decimal

/-- **The double of a decimal is a finite number.** -/
theorem isFinite_toFloat (d : Decimal) : d.toFloat.isFinite = true := by
  have hsize : tenPow d.scale < Decimal.size :=
    Nat.lt_of_le_of_lt (Nat.pow_le_pow_right (by decide) d.scale_le) (by decide)
  have hunit := Double.within_ofNat hsize
  have hwhole : Double.Within 119 (Float.ofNat (d.significand / tenPow d.scale)) :=
    Double.within_ofNat (Nat.lt_of_le_of_lt (Nat.div_le_self _ _) d.significand_lt)
  have hrest : Double.Within 119 (Float.ofNat (d.significand % tenPow d.scale)) :=
    Double.within_ofNat (Nat.lt_of_le_of_lt (Nat.mod_le _ _) d.significand_lt)
  have hdivides := Double.exists_of_divides
    (Double.divides_tenPow ⟨d.scale, Nat.lt_succ_of_le d.scale_le⟩)
  have hfraction := hrest.div hdivides (by decide) (by decide)
  have hsum := (hwhole.mono (by decide)).add hfraction (by decide) (by decide)
  have hscaled := (hsum.mul hunit (by decide) (by decide)).round .nearest (by decide)
  have hquotient := hscaled.div hdivides (by decide) (by decide)
  have hmagnitude := Double.Within.ite (c := (Float.ofNat (d.significand % tenPow d.scale) /
    Float.ofNat (tenPow d.scale) == 0) = true) (hwhole.mono (by decide)) hquotient
  exact (Double.Within.ite (hmagnitude.neg (by decide) (by decide)) hmagnitude).isFinite

end Decimal

end LambdaQuery
