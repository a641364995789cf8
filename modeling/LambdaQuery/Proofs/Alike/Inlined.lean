import LambdaQuery.Proofs.Alike.Constants
import LambdaQuery.Proofs.Computations

/-!
# Constants without parameters

Where no parameter is registered, a constant becomes the scalar of its value: `constant_primitive`,
`constant_items` and `constant_inlined` say of which. The scalar is also that of the value's plain
JSON, if objects keep the names of their fields (`Compilation.toScalar_toJson_of_constant`).
-/

set_option autoImplicit false

namespace LambdaQuery

/-! ## Primitive values -/

/-- Values that hold no others and no JSON of their own. -/
def Value.IsPrimitive : Value → Prop
  | .array _ | .object _ | .geometry _ | .query _ => False
  | _ => True

theorem int64?_toInt (n : Int64) : int64? n.toInt = some n := by
  unfold int64?
  rw [if_pos ⟨Int64.minValue_le_toInt n, Int64.toInt_le n⟩, Int64.ofInt_toInt]

/-- A literal of 64 bits. -/
theorem Json.toScalar_int (n : Int64) : (Json.int n).toScalar = .ok (.integer n) := by
  simp only [Json.int, Json.toScalar, Json.Number.toInt64?, int64?_toInt]

/-- The plain JSON of an integer is that integer. -/
theorem Value.toInt64?_toJson {v : Value} {n : Int64} (h : v.toInt64? = some n) :
    v.toJson.toInt64? = some n := by
  cases v with
  | integer m =>
    obtain rfl := Option.some.inj h
    exact int64?_toInt m
  | unsigned m => exact h
  | decimal d =>
    simp only [Value.toInt64?] at h
    split at h
    · rename_i hwhole
      simp only [Value.toJson, h, hwhole, if_true]
      exact int64?_toInt n
    · cases h
  | _ => cases h

theorem Json.toScalar_float {x : Float} {s : Scalar} (h : Scalar.double? x = .ok s) :
    (Json.float x).toScalar = .ok s := by
  have hx : x.isFinite = true := by
    unfold Scalar.double? at h
    split at h
    · assumption
    · cases h
  rw [Json.float, if_pos hx]
  exact h

/-- The plain JSON of a primitive value becomes the scalar of the value. -/
theorem Value.toScalar_toJson {v : Value} (hv : v.IsPrimitive) {s : Scalar}
    (h : v.toScalar = .ok s) : v.toJson.toScalar = .ok s := by
  cases v with
  | null => exact h
  | boolean => exact h
  | integer n =>
    rw [← h]
    exact Json.toScalar_int n
  | unsigned n => exact h
  | float x => exact Json.toScalar_float h
  | decimal d =>
    simp only [Value.toScalar] at h
    simp only [Value.toJson]
    cases hn : d.toInt64? with
    | none =>
      simp only [hn] at h ⊢
      exact Json.toScalar_float h
    | some n =>
      simp only [hn] at h ⊢
      by_cases hw : d.isWhole = true
      · rw [if_pos hw] at h ⊢
        rw [← h]
        exact Json.toScalar_int n
      · rw [if_neg hw] at h ⊢
        exact Json.toScalar_float h
  | char => exact h
  | string => exact h
  | guid => exact h
  | array => exact hv.elim
  | object => exact hv.elim
  | geometry => exact hv.elim
  | query => exact hv.elim

mutual

/-- Objects keep the names of their fields where documents store the value under the type. -/
def Value.Plain (n : Naming) (ty : HostType) : Value → Prop
  | .object fields => n.wireJson ty (.object fields) = .ok (Value.object fields).toJson
  | .array items => Value.AllPlain n (ty.element?.getD .object) items
  | _ => True

def Value.AllPlain (n : Naming) (ty : HostType) : List Value → Prop
  | [] => True
  | v :: vs => v.Plain n ty ∧ Value.AllPlain n ty vs

end

mutual

/-- Where no type is known, all values are plain. -/
theorem Value.plain_object (n : Naming) : ∀ v : Value, v.Plain n .object
  | .object _ => rfl
  | .array items => Value.allPlain_object n items
  | .null | .boolean _ | .integer _ | .unsigned _ | .float _ | .decimal _ | .char _ | .string _
  | .guid _ | .geometry _ | .query _ => trivial

theorem Value.allPlain_object (n : Naming) : ∀ vs : List Value, Value.AllPlain n .object vs
  | [] => trivial
  | v :: vs => ⟨v.plain_object n, Value.allPlain_object n vs⟩

end

/-! ## Constants -/

namespace Compilation

section

variable {options : Options} {ty : HostType} (sc : Scope)

theorem find?_unbound (hoptions : options.parameters = []) (v : Value) :
    options.parameters.find? (·.value == v) = none := by
  rw [hoptions]
  rfl

theorem constant_inlined {v : Value} (hfree : options.parameters.find? (·.value == v) = none)
    (hv : ∀ items, v ≠ .array items) :
    constant options ty v sc =
      if ty.isDocumentQuery then (.error (.unsupported .queryValue), sc)
      else inlined options.naming ty v sc := by
  rw [constant.eq_2 _ _ _ fun items he => hv items he]
  split
  · rfl
  · show (bindConstant options v >>= _) sc = _
    rw [Compilation.run_bind, bindConstant_eq, hfree]

theorem constant_items {items : List Value}
    (hfree : options.parameters.find? (·.value == .array items) = none) :
    constant options ty (.array items) sc =
      if ty.isDocumentQuery then (.error (.unsupported .queryValue), sc)
      else (Scalar.array <$> constants options (ty.element?.getD .object) items) sc := by
  rw [constant]
  split
  · rfl
  · show (bindConstant options (.array items) >>= _) sc = _
    rw [Compilation.run_bind, bindConstant_eq, hfree]
    rfl

/-- A constant that is bound to a parameter. -/
theorem constant_bound {v : Value} {bound : BoundParameter}
    (hfind : options.parameters.find? (·.value == v) = some bound) :
    constant options ty v sc =
      if ty.isDocumentQuery then (.error (.unsupported .queryValue), sc)
      else if isParameterName bound.queryName then
        (.ok (.parameter bound.queryName), sc.useParameter ⟨bound.queryName, v.toJson⟩)
      else (.error (.unsupported (.parameterName bound.name)), sc) := by
  have hparameter : ∀ {f : Option String → Compilation Scalar},
      (∀ name, f (some name) = pure (.parameter name)) → (bindConstant options v >>= f) sc =
        if isParameterName bound.queryName then
          (.ok (.parameter bound.queryName), sc.useParameter ⟨bound.queryName, v.toJson⟩)
        else (.error (.unsupported (.parameterName bound.name)), sc) := by
    intro f hf
    rw [Compilation.run_bind, bindConstant_eq, hfind]
    dsimp only
    by_cases hname : isParameterName bound.queryName = true
    · rw [if_pos hname, if_pos hname]
      dsimp only
      rw [hf]
      rfl
    · rw [if_neg hname, if_neg hname]
  cases v with
  | array items =>
    rw [constant]
    split
    · rfl
    · exact hparameter fun _ => rfl
  | _ =>
    rw [constant]
    · split
      · rfl
      · exact hparameter fun _ => rfl
    · intro items h
      cases h

variable (hoptions : options.parameters = [])

include hoptions

/-- A primitive constant becomes its literal. -/
theorem constant_primitive {v : Value} (hv : v.IsPrimitive) :
    constant options ty v sc =
      if ty.isDocumentQuery then (.error (.unsupported .queryValue), sc)
      else (ofExcept v.toScalar : Compilation Scalar) sc := by
  rw [constant_inlined sc (find?_unbound hoptions v)]
  · cases v <;> first | rfl | exact hv.elim
  · rintro items rfl
    exact hv

theorem constant_object {fields : List (String × Value)}
    (hplain : (Value.object fields).Plain options.naming ty) :
    constant options ty (.object fields) sc =
      if ty.isDocumentQuery then (.error (.unsupported .queryValue), sc)
      else (ofExcept (Value.object fields).toJson.toScalar : Compilation Scalar) sc := by
  rw [constant_inlined sc (find?_unbound hoptions _) (by simp)]
  split
  · rfl
  · show (ofHost (options.naming.wireJson ty (.object fields)) >>= _ : Compilation Scalar) sc = _
    rw [Value.Plain] at hplain
    rw [Compilation.run_bind, hplain]
    rfl

omit hoptions sc

/-- What a constant becomes if it becomes anything. -/
theorem eq_ok_of_ite {x : Compilation Scalar} {sc t : Scope} {s : Scalar} {error : CompileError}
    (h : (if ty.isDocumentQuery then (.error error, sc) else x sc) = (.ok s, t)) :
    x sc = (.ok s, t) := by
  split at h
  · cases h
  · exact h

theorem toScalar_toJson_of_primitive (hoptions : options.parameters = []) {v : Value}
    {sc t : Scope} {s : Scalar} (h : constant options ty v sc = (.ok s, t)) (hv : v.IsPrimitive) :
    v.toJson.toScalar = .ok s ∧ t = sc := by
  rw [constant_primitive sc hoptions hv] at h
  exact (ofExcept_eq_ok.mp (eq_ok_of_ite h)).imp_left (Value.toScalar_toJson hv)

mutual

/-- **The scalar of a constant is that of its plain JSON**, and the scope stays. -/
theorem toScalar_toJson_of_constant (hoptions : options.parameters = []) :
    ∀ {v : Value} {ty : HostType} {sc t : Scope} {s : Scalar}, v.Plain options.naming ty →
      constant options ty v sc = (.ok s, t) → v.toJson.toScalar = .ok s ∧ t = sc
  | .array items, ty, sc, t, s, hplain, h => by
    have h := eq_ok_of_ite (constant_items sc (find?_unbound hoptions _) ▸ h)
    rw [← bind_pure_comp] at h
    obtain ⟨ss, u, hss, h⟩ := bind_eq_ok.mp h
    obtain ⟨rfl, rfl⟩ := pure_eq_ok.mp h
    obtain ⟨hitems, rfl⟩ := toScalars_toJson_of_constants hoptions hplain hss
    rw [Value.toJson, Json.toScalar, hitems]
    exact ⟨rfl, rfl⟩
  | .object fields, ty, sc, t, s, hplain, h =>
    ofExcept_eq_ok.mp (eq_ok_of_ite (constant_object sc hoptions hplain ▸ h))
  | .geometry shape, ty, sc, t, s, _, h => by
    rw [constant_inlined sc (find?_unbound hoptions _) (by simp)] at h
    exact ofExcept_eq_ok.mp (eq_ok_of_ite h)
  | .query q, ty, sc, t, s, _, h => by
    rw [constant_inlined sc (find?_unbound hoptions _) (by simp)] at h
    exact nomatch (eq_ok_of_ite h)
  | .null, _, _, _, _, _, h | .boolean _, _, _, _, _, _, h | .integer _, _, _, _, _, _, h
  | .unsigned _, _, _, _, _, _, h | .float _, _, _, _, _, _, h | .decimal _, _, _, _, _, _, h
  | .char _, _, _, _, _, _, h | .string _, _, _, _, _, _, h | .guid _, _, _, _, _, _, h =>
    toScalar_toJson_of_primitive hoptions h trivial

theorem toScalars_toJson_of_constants (hoptions : options.parameters = []) :
    ∀ {vs : List Value} {ty : HostType} {sc t : Scope} {ss : List Scalar},
      Value.AllPlain options.naming ty vs → constants options ty vs sc = (.ok ss, t) →
        Json.toScalars (Value.toJsonItems vs) = .ok ss ∧ t = sc
  | [], ty, sc, t, ss, _, h => by
    rw [constants] at h
    obtain ⟨rfl, rfl⟩ := pure_eq_ok.mp h
    exact ⟨rfl, rfl⟩
  | v :: vs, ty, sc, t, ss, hplain, h => by
    rw [constants] at h
    obtain ⟨s, u, hs, h⟩ := bind_eq_ok.mp h
    obtain ⟨ss, w, hss, h⟩ := bind_eq_ok.mp h
    obtain ⟨rfl, rfl⟩ := pure_eq_ok.mp h
    obtain ⟨hv, rfl⟩ := toScalar_toJson_of_constant hoptions hplain.1 hs
    obtain ⟨hvs, rfl⟩ := toScalars_toJson_of_constants hoptions hplain.2 hss
    rw [Value.toJsonItems, Json.toScalars, hv, hvs]
    exact ⟨rfl, rfl⟩

end

end

end Compilation

end LambdaQuery
