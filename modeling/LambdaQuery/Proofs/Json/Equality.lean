import LambdaQuery.Proofs.Json.Records
import Mathlib.Data.List.Nodup
import Mathlib.Data.List.Perm.Subperm
import Mathlib.Tactic.Ring

/-!
# Equal values and their JSON

Values that compare as equal need not have the same JSON: zero and negative zero are equal, and so
are decimals with different scales, which may come next to different doubles. Exact values, which
have integers for all numbers, have the same JSON as whatever they are equal to
(`Value.toJson_eq_of_beq`).
-/

set_option autoImplicit false

namespace LambdaQuery

mutual

/-- JSON without doubles. -/
def Json.Exact : Json → Prop
  | .num (.float _) => False
  | .arr items => Json.AllExact items
  | .obj members => Json.MembersExact members
  | _ => True

def Json.AllExact : List Json → Prop
  | [] => True
  | j :: js => j.Exact ∧ Json.AllExact js

def Json.MembersExact : List (String × Json) → Prop
  | [] => True
  | (_, j) :: ms => j.Exact ∧ Json.MembersExact ms

end

mutual

theorem Json.eq_of_beq : ∀ {j j' : Json}, j'.Exact → Json.beq j j' = true → j = j'
  | .null, .null, _, _ => rfl
  | .bool a, .bool b, _, h => congrArg _ (LawfulBEq.eq_of_beq h)
  | .num (.int m), .num (.int n), _, h => by
    rw [show m = n from LawfulBEq.eq_of_beq (show (m == n) = true from h)]
  | .num (.float _), .num (.int _), _, h => nomatch h
  | .num _, .num (.float _), hj, _ => hj.elim
  | .str a, .str b, _, h => congrArg _ (LawfulBEq.eq_of_beq h)
  | .arr a, .arr b, hj, h => congrArg _ (Json.eq_of_beqItems hj h)
  | .obj a, .obj b, hj, h => congrArg _ (Json.eq_of_beqMembers hj h)

theorem Json.eq_of_beqItems : ∀ {js js' : List Json}, Json.AllExact js' →
    Json.beqItems js js' = true → js = js'
  | [], [], _, _ => rfl
  | j :: js, j' :: js', hj, h => by
    simp only [Json.beqItems, Bool.and_eq_true] at h
    rw [Json.eq_of_beq hj.1 h.1, Json.eq_of_beqItems hj.2 h.2]

theorem Json.eq_of_beqMembers : ∀ {ms ms' : List (String × Json)}, Json.MembersExact ms' →
    Json.beqMembers ms ms' = true → ms = ms'
  | [], [], _, _ => rfl
  | (n, j) :: ms, (n', j') :: ms', hj, h => by
    simp only [Json.beqMembers, Bool.and_eq_true, beq_iff_eq] at h
    rw [h.1.1, Json.eq_of_beq hj.1 h.1.2, Json.eq_of_beqMembers hj.2 h.2]

end

/-! ## Values -/

namespace Value

mutual

/-- No two fields of an object have one name. -/
def Proper : Value → Prop
  | .array items => AllProper items
  | .object fields => (Record.names fields).Nodup ∧ FieldsProper fields
  | _ => True

def AllProper : List Value → Prop
  | [] => True
  | v :: vs => v.Proper ∧ AllProper vs

def FieldsProper : List (String × Value) → Prop
  | [] => True
  | (_, v) :: fs => v.Proper ∧ FieldsProper fs

end

mutual

/-- All numbers are integers of 64 bits. -/
def Exact : Value → Prop
  | .float _ | .query _ => False
  | .decimal d => d.isWhole = true ∧ d.toInt64?.isSome = true
  | .geometry shape => shape.Exact
  | .array items => AllExact items
  | .object fields => FieldsExact fields
  | _ => True

def AllExact : List Value → Prop
  | [] => True
  | v :: vs => v.Exact ∧ AllExact vs

def FieldsExact : List (String × Value) → Prop
  | [] => True
  | (_, v) :: fs => v.Exact ∧ FieldsExact fs

end

end Value

namespace Decimal

/-- The integer part, with the sign. -/
def whole (d : Decimal) : Int :=
  let m : Nat := d.significand / tenPow d.scale
  if d.negative then -m else m

theorem natAbs_unscaled (d : Decimal) :
    (d.unscaled 28).natAbs = d.significand * tenPow (28 - d.scale) := by
  unfold unscaled
  split
  · rw [Int.natAbs_neg, Int.natAbs_natCast]
  · rw [Int.natAbs_natCast]

theorem tenPow_split (d : Decimal) : tenPow d.scale * tenPow (28 - d.scale) = tenPow 28 := by
  show 10 ^ d.scale * 10 ^ (28 - d.scale) = 10 ^ 28
  rw [← pow_add, Nat.add_sub_cancel' d.scale_le]

theorem tenPow_pos (n : Nat) : 0 < tenPow n := Nat.pow_pos (by decide)

theorem isWhole_iff (d : Decimal) : d.isWhole = true ↔ tenPow d.scale ∣ d.significand := by
  rw [isWhole, beq_iff_eq]
  exact Nat.dvd_iff_mod_eq_zero.symm

theorem unscaled_of_isWhole {d : Decimal} (h : d.isWhole = true) :
    d.unscaled 28 = d.whole * tenPow 28 := by
  obtain ⟨m, hm⟩ := d.isWhole_iff.mp h
  have hdiv : d.significand / tenPow d.scale = m := by
    rw [hm, Nat.mul_div_cancel_left _ (tenPow_pos _)]
  have hmul : d.significand * tenPow (28 - d.scale) = m * tenPow 28 := by
    rw [hm, Nat.mul_comm (tenPow d.scale), Nat.mul_assoc, d.tenPow_split]
  simp only [unscaled, whole, hdiv, hmul]
  split <;> push_cast <;> ring

/-- A decimal that equals a whole one is whole, and has the same integer part. -/
theorem whole_of_beq {a b : Decimal} (hb : b.isWhole = true) (h : (a == b) = true) :
    a.isWhole = true ∧ a.toInt64? = b.toInt64? := by
  have hunscaled : a.unscaled 28 = b.unscaled 28 := by
    have hcompare : Ord.compare (a.unscaled 28) (b.unscaled 28) = .eq := LawfulBEq.eq_of_beq h
    exact Std.LawfulEqOrd.eq_of_compare hcompare
  have ha : a.isWhole = true := by
    have hnat : a.significand * tenPow (28 - a.scale) = b.whole.natAbs * tenPow 28 := by
      rw [← natAbs_unscaled, hunscaled, unscaled_of_isWhole hb, Int.natAbs_mul, Int.natAbs_natCast]
    rw [isWhole_iff]
    refine ⟨b.whole.natAbs, Nat.eq_of_mul_eq_mul_right (tenPow_pos (28 - a.scale)) ?_⟩
    rw [hnat, ← a.tenPow_split]
    ring
  refine ⟨ha, ?_⟩
  rw [unscaled_of_isWhole ha, unscaled_of_isWhole hb] at hunscaled
  have hpos : (tenPow 28 : Int) ≠ 0 := by exact_mod_cast (tenPow_pos 28).ne'
  show int64? a.whole = int64? b.whole
  rw [mul_right_cancel₀ hpos hunscaled]

end Decimal

/-! ## Equal values -/

theorem Record.mem_of_get? {α : Type} {r : Record α} {name : String} {a : α}
    (h : get? r name = some a) : (name, a) ∈ r := by
  induction r with
  | nil => cases h
  | cons e r ih =>
    obtain ⟨n, b⟩ := e
    unfold get? at h
    split at h
    · rename_i hn
      cases h
      exact hn ▸ List.mem_cons_self
    · exact List.mem_cons_of_mem _ (ih h)

namespace Value

theorem mem_toJsonFields {fields : List (String × Value)} {name : String} {v : Value}
    (h : (name, v) ∈ fields) : (name, v.toJson) ∈ toJsonFields fields := by
  induction fields with
  | nil => cases h
  | cons f fields ih =>
    rcases List.mem_cons.mp h with rfl | h
    · exact List.mem_cons_self
    · exact List.mem_cons_of_mem _ (ih h)

theorem FieldsExact.mem {fields : List (String × Value)} (h : FieldsExact fields) {name : String}
    {v : Value} (hm : (name, v) ∈ fields) : v.Exact := by
  induction fields with
  | nil => cases hm
  | cons f fields ih =>
    rcases List.mem_cons.mp hm with rfl | hm
    · exact h.1
    · exact ih h.2 hm

/-- Fields that all have an equal one, and no other, are as good as those. -/
theorem object_congr {as bs : List (String × Value)} (ha : (Record.names as).Nodup)
    (hlength : as.length = bs.length) (hsub : toJsonFields as ⊆ toJsonFields bs) :
    (Value.object as).toJson = (Value.object bs).toJson := by
  have hlen : ∀ fields : List (String × Value), (toJsonFields fields).length = fields.length :=
    fun fields => by
      have h := congrArg List.length (names_toJsonFields fields)
      simpa [Record.names] using h
  rw [← names_toJsonFields] at ha
  have hperm : (toJsonFields as).Perm (toJsonFields bs) :=
    ((List.Nodup.of_map _ ha).subperm hsub).perm_of_length_le (by rw [hlen, hlen, hlength])
  rw [toJson, toJson, Json.object_eq, Json.object_eq, Json.entered_congr hperm ha]

mutual

/-- **What equals an exact value has the same JSON.** -/
theorem toJson_eq_of_beq : ∀ {b v : Value}, v.Exact → b.Proper → Value.beq b v = true →
    b.toJson = v.toJson
  | .null, .null, _, _, _ => rfl
  | .boolean a, .boolean b, _, _, h => by rw [show a = b from LawfulBEq.eq_of_beq h]
  | .integer m, .integer n, _, _, h => by rw [show m = n from LawfulBEq.eq_of_beq h]
  | .unsigned m, .unsigned n, _, _, h => by rw [show m = n from LawfulBEq.eq_of_beq h]
  | .char a, .char b, _, _, h => by rw [show a = b from LawfulBEq.eq_of_beq h]
  | .string a, .string b, _, _, h => by rw [show a = b from LawfulBEq.eq_of_beq h]
  | .guid a, .guid b, _, _, h => by rw [show a = b from LawfulBEq.eq_of_beq h]
  | .geometry a, .geometry b, hv, _, h =>
    Json.eq_of_beq hv (show Json.beq a b = true from h)
  | .decimal a, .decimal b, hv, _, h => by
    obtain ⟨hwhole, hsome⟩ := hv
    obtain ⟨n, hn⟩ := Option.isSome_iff_exists.mp hsome
    obtain ⟨ha, hint⟩ := Decimal.whole_of_beq hwhole h
    simp only [toJson, hint, hn, ha, hwhole, if_true]
  | .float _, .float _, hv, _, _ => hv.elim
  | .query _, .query _, hv, _, _ => hv.elim
  | .array as, .array bs, hv, hb, h => congrArg Json.arr (toJsonItems_eq_of_beq hv hb h)
  | .object as, .object bs, hv, hb, h => by
    simp only [beq, Bool.and_eq_true, beq_iff_eq] at h
    exact object_congr hb.1 h.1 (toJsonFields_subset hv hb.2 h.2)

theorem toJsonItems_eq_of_beq : ∀ {as bs : List Value}, AllExact bs → AllProper as →
    beqItems as bs = true → toJsonItems as = toJsonItems bs
  | [], [], _, _, _ => rfl
  | a :: as, b :: bs, hv, hb, h => by
    simp only [beqItems, Bool.and_eq_true] at h
    rw [toJsonItems, toJsonItems, toJson_eq_of_beq hv.1 hb.1 h.1,
      toJsonItems_eq_of_beq hv.2 hb.2 h.2]

theorem toJsonFields_subset : ∀ {as bs : List (String × Value)}, FieldsExact bs →
    FieldsProper as → fieldsIn as bs = true → toJsonFields as ⊆ toJsonFields bs
  | [], _, _, _, _ => List.nil_subset _
  | (name, a) :: as, bs, hv, hb, h => by
    simp only [fieldsIn, Bool.and_eq_true] at h
    obtain ⟨h, hrest⟩ := h
    split at h
    · rename_i b hget
      have hmem := Record.mem_of_get? hget
      rw [toJsonFields, toJson_eq_of_beq (hv.mem hmem) hb.1 h]
      exact List.cons_subset.mpr ⟨mem_toJsonFields hmem, toJsonFields_subset hv hb.2 hrest⟩
    · cases h

end

end Value

end LambdaQuery
