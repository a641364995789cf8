import LambdaQuery.Number.Double
import Mathlib

/-!
# Doubles as numbers

The arithmetic of doubles takes them apart as `UnpackedFloat`, `Double.view` as sign, significand
and power of two; both see the same (`Double.view_eq`). What comes out of a word is canonical
(`Double.Canonical`): its significand has 53 bits, or fewer at the smallest exponent. Canonical
numbers are packed without loss (`Double.view_ofModel_pack`), and they compare as the rational
numbers that they are (`Double.compare_value`).
-/

set_option autoImplicit false

namespace LambdaQuery.Double

open Float.Model Float.Model.UnpackedFloat

/-! ## Words -/

/-- The sign as `Double.view` gives it. -/
def isMinus : Sign → Bool
  | .negative => true
  | .positive => false

/-- The view of an unpacked double. -/
def viewOf : UnpackedFloat → View
  | .notANumber => .nan
  | .infinity s => .infinite (isMinus s)
  | .zero s => .finite (isMinus s) 0 (-1074)
  | .finite s m e _ => .finite (isMinus s) m e

/-- The view of a word with these parts. -/
def viewOfParts (negative : Bool) (exponent fraction : Nat) : View :=
  if exponent = 2047 then if fraction = 0 then .infinite negative else .nan
  else if exponent = 0 then .finite negative fraction (-1074)
  else .finite negative (fraction + 2 ^ 52) (exponent - 1075)

section

variable (b : BitVec 64)

theorem toNat_unpackExponent :
    (@unpackExponent Format.binary64 b).toNat = b.toNat / 2 ^ 52 % 2048 := by
  show b.toNat >>> 52 % 2 ^ 11 = _
  rw [Nat.shiftRight_eq_div_pow]

theorem toNat_unpackMantissa :
    (@unpackMantissa Format.binary64 b).toNat = b.toNat % 2 ^ 52 := by
  show b.toNat >>> 0 % 2 ^ 52 = _
  rw [Nat.shiftRight_zero]

theorem unpackSign_eq_zero : @unpackSign Format.binary64 b = 0#1 ↔ b.toNat < 2 ^ 63 := by
  have hb : b.toNat < 2 ^ 64 := b.isLt
  have h : (@unpackSign Format.binary64 b).toNat = b.toNat / 2 ^ 63 % 2 := by
    show b.toNat >>> 63 % 2 ^ 1 = _
    rw [Nat.shiftRight_eq_div_pow]
  rw [← BitVec.toNat_inj, h]
  show _ = 0 ↔ _
  omega

theorem isMinus_unpackSign :
    isMinus (Sign.ofBitVec (@unpackSign Format.binary64 b)) = decide (2 ^ 63 ≤ b.toNat) := by
  unfold Sign.ofBitVec
  split
  · rename_i h
    rw [unpackSign_eq_zero] at h
    exact (decide_eq_false (by omega)).symm
  · rename_i h
    rw [unpackSign_eq_zero] at h
    exact (decide_eq_true (by omega)).symm

end

/-- A significand with its implicit bit. -/
theorem toNat_implicit (m : BitVec 52) : (1#1 ++ m).toNat = m.toNat + 2 ^ 52 := by
  rw [BitVec.toNat_append, ← Nat.shiftLeft_add_eq_or_of_lt m.isLt]
  show 1 <<< 52 + m.toNat = _
  omega

theorem bias_eq : (Format.binary64.exponentBias : Int) +
    Format.binary64.mantissaBitsWithoutImplicit = 1075 := rfl

theorem eq_ones_iff (e : BitVec 11) : e = -1#_ ↔ e.toNat = 2047 := by
  rw [← BitVec.toNat_inj]
  exact Iff.rfl

theorem eq_zeros_iff {n : Nat} (v : BitVec n) : v = 0#_ ↔ v.toNat = 0 := by
  rw [← BitVec.toNat_inj, BitVec.toNat_ofNat, Nat.zero_mod]

/-- The view of a word. -/
theorem viewOf_unpack (b : BitVec 64) :
    viewOf (unpack Format.binary64 b) =
      viewOfParts (isMinus (Sign.ofBitVec (@unpackSign Format.binary64 b)))
        (@unpackExponent Format.binary64 b).toNat (@unpackMantissa Format.binary64 b).toNat := by
  unfold UnpackedFloat.unpack viewOfParts
  dsimp only
  rw [bias_eq]
  simp only [eq_ones_iff, eq_zeros_iff]
  split
  · split <;> rfl
  · split
    · rename_i h
      split
      · rename_i hm
        rw [hm]
        rfl
      · rw [h]
        rfl
    · show View.finite _ _ _ = _
      rw [toNat_implicit]

/-- **The view of a double is what its arithmetic sees.** -/
theorem view_eq (x : Float) : view x = viewOf x.toModel.unpack := by
  show _ = viewOf (unpack Format.binary64 x.toBits.toBitVec)
  rw [viewOf_unpack, isMinus_unpackSign, toNat_unpackExponent, toNat_unpackMantissa]
  unfold view
  dsimp only
  rw [Nat.shiftRight_eq_div_pow]
  rfl

/-! ## Canonical numbers -/

/-- A significand of 53 bits, or a shorter one at the smallest exponent. -/
def Canonical : UnpackedFloat → Prop
  | .finite _ m e _ => m < 2 ^ 53 ∧ (2 ^ 52 ≤ m ∨ e = -1074) ∧ -1074 ≤ e ∧ e ≤ 971
  | _ => True

theorem canonical_unpack (b : BitVec 64) : Canonical (unpack Format.binary64 b) := by
  have hmantissa : (@unpackMantissa Format.binary64 b).toNat < 2 ^ 52 :=
    (@unpackMantissa Format.binary64 b).isLt
  have hexponent : (@unpackExponent Format.binary64 b).toNat < 2048 :=
    (@unpackExponent Format.binary64 b).isLt
  unfold UnpackedFloat.unpack
  dsimp only
  rw [bias_eq]
  simp only [eq_ones_iff, eq_zeros_iff]
  split
  · split <;> trivial
  · split
    · rename_i h
      split
      · trivial
      · rw [h]
        exact ⟨by omega, .inr (by decide), by decide, by decide⟩
    · refine ⟨?_, .inl ?_, by omega, by omega⟩
      · rw [toNat_implicit]
        omega
      · rw [toNat_implicit]
        exact Nat.le_add_left _ _

theorem unpackSign_packComponents {spec : Format} (s : Sign) (e : BitVec spec.exponentBits)
    (m : BitVec spec.mantissaBitsWithoutImplicit) :
    unpackSign (packComponents spec s e m) = s.toBitVec := by
  refine BitVec.eq_of_getLsbD_eq fun i hi => ?_
  obtain rfl : i = 0 := by omega
  simp [unpackSign, packComponents, BitVec.getLsbD_append, BitVec.getElem_append]

/-- The view of a word that is put together. -/
theorem viewOf_packComponents (s : Sign) (e : BitVec 11) (m : BitVec 52) :
    viewOf (unpack Format.binary64 (packComponents Format.binary64 s e m)) =
      viewOfParts (isMinus s) e.toNat m.toNat := by
  have hsign : Sign.ofBitVec s.toBitVec = s := by cases s <;> rfl
  rw [viewOf_unpack, unpackSign_packComponents, unpackExponent_packComponents,
    unpackMantissa_packComponents, hsign]

/-- Canonical numbers are packed without loss. -/
theorem viewOf_unpack_pack {u : UnpackedFloat} (h : Canonical u) :
    viewOf (unpack Format.binary64 (pack Format.binary64 u)) = viewOf u := by
  cases u with
  | notANumber => rfl
  | infinity s => cases s <;> rfl
  | zero s => cases s <;> rfl
  | finite s m e hm =>
    obtain ⟨hlt, hnormal, hlow, hhigh⟩ := h
    unfold UnpackedFloat.pack
    dsimp only
    rw [Int.add_assoc, bias_eq, if_neg (show ¬2 ^ 11 ≤ (e + 1075).toNat + 1 by omega)]
    by_cases hbits : 2 ^ 52 ≤ m
    · have hlog : m.log2 + 1 = Format.binary64.mantissaBits := by
        rw [(Nat.log2_eq_iff hm.ne').mpr ⟨hbits, hlt⟩]
        rfl
      rw [if_pos hlog, viewOf_packComponents]
      have hfraction : m % 2 ^ 52 + 2 ^ 52 = m := by omega
      have hexponent : (e + 1075).toNat % 2 ^ 11 = (e + 1075).toNat :=
        Nat.mod_eq_of_lt (by omega)
      show viewOfParts _ ((e + 1075).toNat % 2 ^ 11) (m % 2 ^ 52) = _
      rw [viewOfParts, hexponent, if_neg (by omega), if_neg (by omega), hfraction]
      show View.finite _ _ _ = View.finite _ _ _
      congr 1
      omega
    · have hlog : ¬m.log2 + 1 = Format.binary64.mantissaBits := by
        have hlt : m.log2 < 52 := (Nat.log2_lt hm.ne').mpr (by omega)
        show ¬m.log2 + 1 = 53
        omega
      rw [if_neg hlog, viewOf_packComponents]
      show viewOfParts _ 0 (m % 2 ^ 52) = _
      rw [viewOfParts, if_neg (by decide), if_pos rfl, Nat.mod_eq_of_lt (by omega)]
      show View.finite _ _ _ = View.finite _ _ _
      rw [hnormal.resolve_left hbits]

theorem viewOf_injective {u v : UnpackedFloat} (h : viewOf u = viewOf v) : u = v := by
  rcases u with ⟨⟨⟩⟩ | _ | ⟨⟨⟩⟩ | ⟨⟨⟩, m, e, hm⟩ <;>
    rcases v with ⟨⟨⟩⟩ | _ | ⟨⟨⟩⟩ | ⟨⟨⟩, n, f, hn⟩ <;>
    cases h <;> first | rfl | contradiction

/-- Packing keeps canonical numbers. -/
theorem unpack_pack {u : UnpackedFloat} (h : Canonical u) :
    unpack Format.binary64 (pack Format.binary64 u) = u :=
  viewOf_injective (viewOf_unpack_pack h)

theorem view_ofModel_pack {u : UnpackedFloat} (h : Canonical u) :
    view (.ofModel (.pack u)) = viewOf u := by
  rw [view_eq]
  exact viewOf_unpack_pack h

/-! ## Values -/

/-- The number that a finite double is. -/
def View.value? : View → Option ℚ
  | .finite negative m e => some (if negative then -(m * 2 ^ e) else m * 2 ^ e)
  | _ => none

/-- The number that a finite double is. -/
def value? (x : Float) : Option ℚ := (view x).value?

/-- At exponents in order, significands of 53 bits and no less keep that order. -/
theorem mul_zpow_lt {m n : Nat} {e f : Int} (hm : m < 2 ^ 53) (hn : 2 ^ 52 ≤ n) (h : e < f) :
    (m : ℚ) * 2 ^ e < n * 2 ^ f :=
  calc (m : ℚ) * 2 ^ e < 2 ^ 53 * 2 ^ e := by
        have : (m : ℚ) < 2 ^ 53 := by exact_mod_cast hm
        gcongr
    _ = 2 ^ 52 * 2 ^ (e + 1) := by
        rw [zpow_add_one₀ (by norm_num)]
        ring
    _ ≤ n * 2 ^ f := by
        have : (2 : ℚ) ^ 52 ≤ n := by exact_mod_cast hn
        gcongr
        · norm_num
        · exact h

theorem compare_of_strictMono {α β : Type} [LinearOrder α] [LinearOrder β] {f : α → β}
    (hf : StrictMono f) (x y : α) : compare (f x) (f y) = compare x y := by
  rw [← cmp_eq_compare, ← cmp_eq_compare, hf.cmp_map_eq]

/-- Canonical magnitudes compare by exponent and then by significand. -/
theorem compare_magnitude {m n : Nat} {e f : Int} (hm : m < 2 ^ 53) (hn : n < 2 ^ 53)
    (hme : 2 ^ 52 ≤ m ∨ e = -1074) (hnf : 2 ^ 52 ≤ n ∨ f = -1074) (he : -1074 ≤ e)
    (hf : -1074 ≤ f) :
    (compare e f).then (compare m n) = compare ((m : ℚ) * 2 ^ e) (n * 2 ^ f) := by
  rcases lt_trichotomy e f with h | rfl | h
  · rw [compare_lt_iff_lt.mpr h,
      compare_lt_iff_lt.mpr (mul_zpow_lt hm (hnf.resolve_right (by omega)) h)]
    rfl
  · have hmono : StrictMono fun i : Nat => (i : ℚ) * 2 ^ e := by
      intro i j hij
      have hij : (i : ℚ) < j := by exact_mod_cast hij
      show (i : ℚ) * 2 ^ e < j * 2 ^ e
      gcongr
    rw [compare_eq_iff_eq.mpr rfl]
    exact (compare_of_strictMono hmono m n).symm
  · rw [compare_gt_iff_gt.mpr h,
      compare_gt_iff_gt.mpr (mul_zpow_lt hn (hme.resolve_right (by omega)) h)]
    rfl

theorem compare_neg (p q : ℚ) : compare (-p) (-q) = (compare p q).swap := by
  have hneg : StrictAnti fun r : ℚ => -r := fun _ _ => neg_lt_neg
  rw [← cmp_eq_compare, ← cmp_eq_compare, cmp_swap]
  exact hneg.cmp_map_eq p q

/-- **Finite doubles compare as the numbers that they are.** -/
theorem compare_value {u v : UnpackedFloat} {p q : ℚ} (hu : Canonical u) (hv : Canonical v)
    (hp : (viewOf u).value? = some p) (hq : (viewOf v).value? = some q) :
    u.compare v = some (compare p q) := by
  have hpos : ∀ {m : Nat} {e : Int}, 0 < m → (0 : ℚ) < m * 2 ^ e := by
    intro m e hm
    positivity
  cases u with
  | notANumber | infinity => cases hp
  | zero s =>
    obtain rfl : p = 0 := by simpa [viewOf, View.value?] using hp.symm
    cases v with
    | notANumber | infinity => cases hq
    | zero t =>
      obtain rfl : q = 0 := by simpa [viewOf, View.value?] using hq.symm
      rfl
    | finite t n f hn =>
      cases hq
      cases t with
      | positive => exact congrArg some (compare_lt_iff_lt.mpr (hpos hn)).symm
      | negative => exact congrArg some (compare_gt_iff_gt.mpr (neg_neg_of_pos (hpos hn))).symm
  | finite s m e hm =>
    cases hp
    cases v with
    | notANumber | infinity => cases hq
    | zero t =>
      obtain rfl : q = 0 := by simpa [viewOf, View.value?] using hq.symm
      cases s with
      | positive => exact congrArg some (compare_gt_iff_gt.mpr (hpos hm)).symm
      | negative => exact congrArg some (compare_lt_iff_lt.mpr (neg_neg_of_pos (hpos hm))).symm
    | finite t n f hn =>
      cases hq
      have hmagnitude := compare_magnitude hu.1 hv.1 hu.2.1 hv.2.1 hu.2.2.1 hv.2.2.1
      cases s <;> cases t
      · show some ((compare e f).then (compare m n)).swap =
          some (compare (-((m : ℚ) * 2 ^ e)) (-((n : ℚ) * 2 ^ f)))
        rw [compare_neg, hmagnitude]
      · exact congrArg some
          (compare_lt_iff_lt.mpr ((neg_neg_of_pos (hpos hm)).trans (hpos hn))).symm
      · exact congrArg some
          (compare_gt_iff_gt.mpr ((neg_neg_of_pos (hpos hn)).trans (hpos hm))).symm
      · exact congrArg some hmagnitude

end LambdaQuery.Double
