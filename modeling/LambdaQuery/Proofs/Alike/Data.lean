import LambdaQuery.Proofs.Alike.Outcome

/-!
# Scalars of data

`Scalar.Data`: literals, and arrays and objects of them. They are what JSON and host values become
(`Json.toScalar`, `Value.toScalar`), and they come out related by every congruence.
-/

set_option autoImplicit false

namespace LambdaQuery

inductive Scalar.Data : Scalar → Prop where
  | literal (value : Literal) : Scalar.Data (.literal value)
  | array {items : List Scalar} (h : ∀ s ∈ items, Scalar.Data s) : Scalar.Data (.array items)
  | object {properties : List (String × Scalar)} (h : ∀ p ∈ properties, Scalar.Data p.2) :
    Scalar.Data (.object properties)

namespace Scalar

theorem Data.names {s : Scalar} (h : s.Data) : s.names = [] := by
  induction h with
  | literal value => rfl
  | array h ih =>
    refine List.eq_nil_iff_forall_not_mem.mpr fun n hn => ?_
    obtain ⟨s, hs, hn⟩ := Scalar.mem_namesAll.mp hn
    rw [ih s hs] at hn
    cases hn
  | object h ih =>
    refine List.eq_nil_iff_forall_not_mem.mpr fun n hn => ?_
    obtain ⟨p, hp, hn⟩ := Scalar.mem_namesProperties.mp hn
    rw [ih p hp] at hn
    cases hn

theorem Data.isAggregate {s : Scalar} (h : s.Data) : s.isAggregate = false := by
  cases h <;> rfl

theorem Data.isMembership {s : Scalar} (h : s.Data) : s.isMembership = false := by
  cases h <;> rfl

theorem Data.isIndex {s : Scalar} (h : s.Data) : s.isIndex = false := by
  cases h <;> rfl

end Scalar

theorem Scalar.double?_data {x : Float} {s : Scalar} (h : Scalar.double? x = .ok s) : s.Data := by
  unfold Scalar.double? at h
  split at h
  · obtain rfl := Except.ok.inj h
    exact .literal _
  · cases h

/-! ## What becomes data -/

mutual

theorem Json.toScalar_data : ∀ {j : Json} {s : Scalar}, j.toScalar = .ok s → s.Data
  | .null, s, h => by
    obtain rfl := Except.ok.inj h
    exact .literal _
  | .bool b, s, h => by
    obtain rfl := Except.ok.inj h
    exact .literal _
  | .num n, s, h => by
    simp only [Json.toScalar] at h
    split at h
    · obtain rfl := Except.ok.inj h
      exact .literal _
    · exact Scalar.double?_data h
  | .str t, s, h => by
    obtain rfl := Except.ok.inj h
    exact .literal _
  | .arr items, s, h => by
    obtain ⟨ss, hss, h⟩ := bind_eq_ok.mp h
    obtain rfl := Except.ok.inj h
    exact .array (Json.toScalars_data hss)
  | .obj members, s, h => by
    obtain ⟨ps, hps, h⟩ := bind_eq_ok.mp h
    obtain rfl := Except.ok.inj h
    exact .object (Json.toProperties_data hps)

theorem Json.toScalars_data : ∀ {js : List Json} {ss : List Scalar}, Json.toScalars js = .ok ss →
    ∀ s ∈ ss, s.Data
  | [], ss, h => by
    obtain rfl := Except.ok.inj h
    exact fun s hs => nomatch hs
  | j :: js, ss, h => by
    obtain ⟨s, hs, h⟩ := bind_eq_ok.mp h
    obtain ⟨rest, hrest, h⟩ := bind_eq_ok.mp h
    obtain rfl := Except.ok.inj h
    intro t ht
    rcases List.mem_cons.mp ht with rfl | ht
    · exact Json.toScalar_data hs
    · exact Json.toScalars_data hrest t ht

theorem Json.toProperties_data : ∀ {ms : List (String × Json)} {ps : List (String × Scalar)},
    Json.toProperties ms = .ok ps → ∀ p ∈ ps, p.2.Data
  | [], ps, h => by
    obtain rfl := Except.ok.inj h
    exact fun p hp => nomatch hp
  | (name, j) :: ms, ps, h => by
    obtain ⟨s, hs, h⟩ := bind_eq_ok.mp h
    obtain ⟨rest, hrest, h⟩ := bind_eq_ok.mp h
    obtain rfl := Except.ok.inj h
    intro p hp
    rcases List.mem_cons.mp hp with rfl | hp
    · exact Json.toScalar_data hs
    · exact Json.toProperties_data hrest p hp

end

mutual

theorem Value.toScalar_data : ∀ {v : Value} {s : Scalar}, v.toScalar = .ok s → s.Data
  | .null, s, h => by
    obtain rfl := Except.ok.inj h
    exact .literal _
  | .boolean b, s, h => by
    obtain rfl := Except.ok.inj h
    exact .literal _
  | .integer n, s, h => by
    obtain rfl := Except.ok.inj h
    exact .literal _
  | .unsigned n, s, h => by
    simp only [Value.toScalar] at h
    split at h
    · obtain rfl := Except.ok.inj h
      exact .literal _
    · exact Scalar.double?_data h
  | .float x, s, h => Scalar.double?_data h
  | .decimal d, s, h => by
    simp only [Value.toScalar] at h
    split at h
    · split at h
      · obtain rfl := Except.ok.inj h
        exact .literal _
      · exact Scalar.double?_data h
    · exact Scalar.double?_data h
  | .char c, s, h => by
    obtain rfl := Except.ok.inj h
    exact .literal _
  | .string t, s, h => by
    obtain rfl := Except.ok.inj h
    exact .literal _
  | .guid g, s, h => by
    obtain rfl := Except.ok.inj h
    exact .literal _
  | .geometry shape, s, h => Json.toScalar_data h
  | .array items, s, h => by
    obtain ⟨ss, hss, h⟩ := bind_eq_ok.mp h
    obtain rfl := Except.ok.inj h
    exact .array (Value.toScalars_data hss)
  | .object fields, s, h => Json.toScalar_data h
  | .query q, s, h => Json.toScalar_data h

theorem Value.toScalars_data : ∀ {vs : List Value} {ss : List Scalar},
    Value.toScalars vs = .ok ss → ∀ s ∈ ss, s.Data
  | [], ss, h => by
    obtain rfl := Except.ok.inj h
    exact fun s hs => nomatch hs
  | v :: vs, ss, h => by
    obtain ⟨s, hs, h⟩ := bind_eq_ok.mp h
    obtain ⟨rest, hrest, h⟩ := bind_eq_ok.mp h
    obtain rfl := Except.ok.inj h
    intro t ht
    rcases List.mem_cons.mp ht with rfl | ht
    · exact Value.toScalar_data hs
    · exact Value.toScalars_data hrest t ht

end

/-- Data come out the same. -/
theorem Setting.Congruence.data {κ : Setting} {Q : Scope → Scope → Scalar → Scalar → Prop}
    (hQ : κ.Congruence Q) {t t' : Scope} {s : Scalar} (h : s.Data) : Q t t' s s := by
  induction h with
  | literal value => exact hQ.literal value
  | array _ ih => exact hQ.array (List.forall₂_same.mpr ih)
  | object _ ih => exact hQ.object (List.forall₂_same.mpr fun p hp => ⟨rfl, ih p hp⟩)

end LambdaQuery
