import LambdaQuery.Proofs.Json.Members
import LambdaQuery.Proofs.Json.Values
import LambdaQuery.Proofs.Number.Finite

/-!
# JSON of finite numbers

JSON has integers of 64 bits and finite doubles (`Json.Finite`), and all of it has a scalar
(`Json.Finite.toScalar`). The JSON of values without infinities is such JSON, plain
(`Value.finite_toJson`) and as documents store it (`Naming.KeepsFinite.wireJson`).
-/

set_option autoImplicit false

namespace LambdaQuery

namespace Json

/-- An integer that 64 bits hold, with a sign or without, or a finite double. -/
def Number.Finite : Number → Prop
  | .int n => -2 ^ 63 ≤ n ∧ n < 2 ^ 64
  | .float x => x.isFinite = true

/-- The numbers in it are those that a JSON text may have. -/
inductive Finite : Json → Prop
  | null : Finite .null
  | bool (b : Bool) : Finite (.bool b)
  | num {n : Number} (h : n.Finite) : Finite (.num n)
  | str (s : String) : Finite (.str s)
  | arr {items : List Json} (h : ∀ j ∈ items, j.Finite) : Finite (.arr items)
  | obj {members : List (String × Json)} (h : ∀ m ∈ members, m.2.Finite) : Finite (.obj members)

theorem Number.Finite.isFinite {n : Number} (h : n.Finite) : n.toFloat.isFinite = true := by
  cases n with
  | int n =>
    obtain ⟨hlow, hhigh⟩ := h
    refine Double.isFinite_ofInt ?_
    show n.natAbs < 2 ^ 96
    omega
  | float x => exact h

theorem finite_int (n : Int64) : (int n).Finite := by
  have hlow := n.le_toInt
  have hhigh := n.toInt_lt
  exact .num ⟨hlow, by omega⟩

theorem finite_unsigned (n : UInt64) : (unsigned n).Finite := by
  have := n.toNat_lt
  exact .num ⟨by omega, by omega⟩

theorem finite_float (x : Float) : (float x).Finite := by
  unfold float
  split
  · rename_i h
    exact .num h
  · exact .null

theorem mem_insert {ms : List (String × Json)} {name : String} {v : Json} :
    ∀ {m : String × Json}, m ∈ insert ms name v → m = (name, v) ∨ m ∈ ms := by
  induction ms with
  | nil => exact fun hm => .inl (List.mem_singleton.mp hm)
  | cons w ms ih =>
    intro m hm
    rw [insert] at hm
    split at hm
    · exact List.mem_cons.mp hm
    split at hm
    · exact (List.mem_cons.mp hm).imp_right (List.mem_cons_of_mem _)
    · rcases List.mem_cons.mp hm with rfl | hm
      · exact .inr List.mem_cons_self
      · exact (ih hm).imp_right (List.mem_cons_of_mem _)

theorem mem_entered {ms : List (String × Json)} {m : String × Json} (h : m ∈ entered ms) :
    m ∈ ms := by
  have hfold : ∀ {ms acc : List (String × Json)},
      m ∈ ms.foldl (fun ms m => insert ms m.1 m.2) acc → m ∈ ms ∨ m ∈ acc := by
    intro ms
    induction ms with
    | nil => exact fun hm => .inr hm
    | cons w ms ih =>
      intro acc hm
      rcases ih hm with hm | hm
      · exact .inl (List.mem_cons_of_mem _ hm)
      · rcases mem_insert hm with rfl | hm
        · exact .inl List.mem_cons_self
        · exact .inr hm
  exact (hfold h).resolve_right List.not_mem_nil

theorem finite_object {ms : List (String × Json)} (h : ∀ m ∈ ms, m.2.Finite) :
    (object ms).Finite :=
  .obj fun m hm => h m (mem_entered hm)

/-! ## Scalars -/

theorem toScalars_eq_ok {js : List Json} (h : ∀ j ∈ js, ∃ s, j.toScalar = .ok s) :
    ∃ ss, toScalars js = .ok ss := by
  induction js with
  | nil => exact ⟨[], rfl⟩
  | cons j js ih =>
    obtain ⟨⟨s, hs⟩, hjs⟩ := List.forall_mem_cons.mp h
    obtain ⟨ss, hss⟩ := ih hjs
    exact ⟨s :: ss, by rw [toScalars, hs, hss]; rfl⟩

theorem toProperties_eq_ok {ms : List (String × Json)}
    (h : ∀ m ∈ ms, ∃ s, m.2.toScalar = .ok s) : ∃ ps, toProperties ms = .ok ps := by
  induction ms with
  | nil => exact ⟨[], rfl⟩
  | cons m ms ih =>
    obtain ⟨⟨s, hs⟩, hms⟩ := List.forall_mem_cons.mp h
    obtain ⟨ps, hps⟩ := ih hms
    exact ⟨(m.1, s) :: ps, by rw [toProperties, hs, hps]; rfl⟩

/-- **JSON of finite numbers has a scalar.** -/
theorem Finite.toScalar {j : Json} (h : j.Finite) : ∃ s, j.toScalar = .ok s := by
  induction h with
  | null | bool | str => exact ⟨_, rfl⟩
  | @num n h =>
    rw [Json.toScalar]
    cases n.toInt64? with
    | some i => exact ⟨_, rfl⟩
    | none =>
      dsimp only
      rw [Scalar.double?, if_pos h.isFinite]
      exact ⟨_, rfl⟩
  | arr _ ih =>
    obtain ⟨ss, hss⟩ := toScalars_eq_ok ih
    exact ⟨.array ss, by rw [Json.toScalar, hss]; rfl⟩
  | obj _ ih =>
    obtain ⟨ps, hps⟩ := toProperties_eq_ok ih
    exact ⟨.object ps, by rw [Json.toScalar, hps]; rfl⟩

end Json

/-! ## Values -/

namespace Value

/-- A double is a finite number, and so are the numbers of a geometry; there is no prepared
query. -/
def Finite : Value → Prop
  | .float x => x.isFinite = true
  | .geometry shape => shape.Finite
  | .query _ => False
  | _ => True

theorem finite_toJson_decimal (d : Decimal) : (Value.decimal d).toJson.Finite := by
  rw [toJson]
  split
  · split
    · exact Json.finite_int _
    · exact Json.finite_float _
  · exact Json.finite_float _

mutual

/-- **The plain JSON of a value without infinities has finite numbers.** -/
theorem finite_toJson : ∀ {v : Value}, v.Throughout Finite → v.toJson.Finite
  | .null, _ => .null
  | .boolean b, _ => .bool b
  | .integer n, _ => Json.finite_int n
  | .unsigned n, _ => Json.finite_unsigned n
  | .float x, _ => Json.finite_float x
  | .decimal d, _ => finite_toJson_decimal d
  | .char _, _ | .string _, _ | .guid _, _ => .str _
  | .array _, h => .arr (finite_toJsonItems h.2)
  | .object _, h => Json.finite_object (finite_toJsonFields h.2)
  | .geometry _, h => h
  | .query _, h => h.elim

theorem finite_toJsonItems : ∀ {vs : List Value}, AllThroughout Finite vs →
    ∀ j ∈ toJsonItems vs, j.Finite
  | [], _ => nofun
  | _ :: _, h => List.forall_mem_cons.mpr ⟨finite_toJson h.1, finite_toJsonItems h.2⟩

theorem finite_toJsonFields : ∀ {fields : List (String × Value)}, FieldsThroughout Finite fields →
    ∀ m ∈ toJsonFields fields, m.2.Finite
  | [], _ => nofun
  | (_, _) :: _, h => List.forall_mem_cons.mpr ⟨finite_toJson h.1, finite_toJsonFields h.2⟩

end

end Value

/-! ## Documents -/

/-- A converter makes JSON of finite numbers from such JSON. -/
def Converter.KeepsFinite (c : Converter) : Prop :=
  ∀ j j', j.Finite → c.convert j = .ok j' → j'.Finite

theorem Converter.keepsFinite_enumAsString (variants : List (Int64 × String)) :
    (Converter.enumAsString variants).KeepsFinite := by
  intro j j' hj h
  unfold Converter.convert at h
  dsimp only at h
  split at h
  · cases h
    exact hj
  · split at h
    · cases h
      exact .str _
    · cases h

namespace Naming

/-- No converter makes numbers that are not finite. -/
def KeepsFinite (n : Naming) : Prop := ∀ m c, n.converter? m = some c → c.KeepsFinite

variable {n : Naming}

theorem KeepsFinite.converted (hn : n.KeepsFinite) {m : Member} {j j' : Json} (hj : j.Finite)
    (h : n.converted m j = .ok j') : j'.Finite := by
  unfold Naming.converted at h
  split at h
  · rename_i c hc
    exact hn m c hc j j' hj h
  · cases h
    exact hj

mutual

/-- **What a document stores of a value without infinities has finite numbers.** -/
theorem KeepsFinite.wireJson (hn : n.KeepsFinite) :
    ∀ {v : Value} {ty : HostType} {j : Json}, v.Throughout Value.Finite →
      n.wireJson ty v = .ok j → j.Finite
  | .array items, ty, j, hv, h => by
    rw [Naming.wireJson] at h
    split at h
    · obtain ⟨js, hitems, h⟩ := bind_eq_ok.mp h
      cases h
      exact .arr (hn.wireItems hv.2 hitems)
    · cases h
      exact Value.finite_toJson hv
  | .object fields, ty, j, hv, h => by
    rw [Naming.wireJson] at h
    split at h
    · obtain ⟨ms, hfields, h⟩ := bind_eq_ok.mp h
      cases h
      exact Json.finite_object (hn.wireFields hv.2 hfields)
    · cases h
      exact Value.finite_toJson hv
  | .null, _, _, hv, h | .boolean _, _, _, hv, h | .integer _, _, _, hv, h
  | .unsigned _, _, _, hv, h | .float _, _, _, hv, h | .decimal _, _, _, hv, h
  | .char _, _, _, hv, h | .string _, _, _, hv, h | .guid _, _, _, hv, h
  | .geometry _, _, _, hv, h | .query _, _, _, hv, h => by
    cases h
    exact Value.finite_toJson hv

theorem KeepsFinite.wireItems (hn : n.KeepsFinite) :
    ∀ {vs : List Value} {ty : HostType} {js : List Json}, Value.AllThroughout Value.Finite vs →
      n.wireItems ty vs = .ok js → ∀ j ∈ js, j.Finite
  | [], _, _, _, h => by
    cases h
    nofun
  | v :: vs, ty, js, hvs, h => by
    rw [Naming.wireItems] at h
    obtain ⟨j, hj, h⟩ := bind_eq_ok.mp h
    obtain ⟨rest, hrest, h⟩ := bind_eq_ok.mp h
    cases h
    exact List.forall_mem_cons.mpr ⟨hn.wireJson hvs.1 hj, hn.wireItems hvs.2 hrest⟩

theorem KeepsFinite.wireFields (hn : n.KeepsFinite) :
    ∀ {fields : List (String × Value)} {owner : HostType} {ms : List (String × Json)},
      Value.FieldsThroughout Value.Finite fields → n.wireFields owner fields = .ok ms →
        ∀ m ∈ ms, m.2.Finite
  | [], _, _, _, h => by
    cases h
    nofun
  | (name, v) :: fields, owner, ms, hvs, h => by
    rw [Naming.wireFields] at h
    obtain ⟨j, hj, h⟩ := bind_eq_ok.mp h
    obtain ⟨j', hconverted, h⟩ := bind_eq_ok.mp h
    obtain ⟨rest, hrest, h⟩ := bind_eq_ok.mp h
    cases h
    exact List.forall_mem_cons.mpr
      ⟨hn.converted (hn.wireJson hvs.1 hj) hconverted, hn.wireFields hvs.2 hrest⟩

end

end Naming

end LambdaQuery
