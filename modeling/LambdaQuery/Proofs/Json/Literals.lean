import LambdaQuery.Proofs.Alike.Inlined
import LambdaQuery.Proofs.Json.Finite

/-!
# Literals and parameter values

A constant reaches the database in its text, as the scalar of the value, or as a parameter, with the
plain JSON of the value. `Value.toScalar_eq_toJson`: the scalar of the value is the scalar of its
JSON, wherever the doubles in it are finite. The two encoders choose between integers and doubles by
themselves; they agree since JSON tells the two apart (`Json.toScalar_decimal`), and since no
decimal is so large that its double would be null in JSON.
-/

set_option autoImplicit false

namespace LambdaQuery

/-- The JSON of a finite double is that double. -/
theorem Json.toScalar_float_of_finite {x : Float} (hx : x.isFinite = true) :
    (Json.float x).toScalar = Scalar.double? x := by
  rw [Json.float, if_pos hx]
  rfl

namespace Value

/-- A double is a finite number. -/
def FiniteDouble : Value → Prop
  | .float x => x.isFinite = true
  | _ => True

/-- A decimal is an integer in JSON where it is one as a literal, and a double elsewhere. -/
theorem toScalar_toJson_decimal (d : Decimal) :
    (Value.decimal d).toJson.toScalar = (Value.decimal d).toScalar := by
  have hdouble := Json.toScalar_float_of_finite d.isFinite_toFloat
  rw [toJson, toScalar]
  cases d.toInt64? with
  | none => exact hdouble
  | some n =>
    dsimp only
    split
    · exact Json.toScalar_int n
    · exact hdouble

mutual

theorem toScalar_toJson_of_finite : ∀ {v : Value}, v.Throughout FiniteDouble →
    v.toJson.toScalar = v.toScalar
  | .integer n, _ => Json.toScalar_int n
  | .float _, h => Json.toScalar_float_of_finite h
  | .decimal d, _ => toScalar_toJson_decimal d
  | .array items, h => by
    rw [toJson, toScalar, Json.toScalar, toScalars_toJson_of_finite h.2]
  | .null, _ | .boolean _, _ | .unsigned _, _ | .char _, _ | .string _, _ | .guid _, _
  | .object _, _ | .geometry _, _ | .query _, _ => rfl

theorem toScalars_toJson_of_finite : ∀ {vs : List Value}, AllThroughout FiniteDouble vs →
    Json.toScalars (toJsonItems vs) = toScalars vs
  | [], _ => rfl
  | v :: vs, h => by
    rw [toJsonItems, Json.toScalars, toScalars, toScalar_toJson_of_finite h.1,
      toScalars_toJson_of_finite h.2]

end

/-- **A literal and a parameter value are the same data**: the scalar of a value without infinities
is the scalar of its plain JSON, and one exists if the other does. -/
theorem toScalar_eq_toJson {v : Value} (h : v.Throughout FiniteDouble) :
    v.toScalar = v.toJson.toScalar :=
  (toScalar_toJson_of_finite h).symm

/-- The largest unsigned integer, decimals with and without fraction, and an integer of a geometry
that needs all 64 bits, beside an object in an array. -/
theorem toScalar_eq_toJson_mixed :
    let v : Value := .array [.unsigned 18446744073709551615,
      .decimal ⟨true, 300, 2, by decide, by decide⟩, .decimal ⟨false, 25, 1, by decide, by decide⟩,
      .geometry (.obj [("type", .str "Point"), ("srid", .num (.int 9223372036854775808))]),
      .object [("b", .float 0.5), ("a", .array [.null])]]
    v.Throughout FiniteDouble ∧ ∃ s, v.toScalar = .ok s ∧ v.toJson.toScalar = .ok s := by
  intro v
  have hhalf : (0.5 : Float).isFinite = true := by decide
  have hgeometry : (Json.obj [("type", .str "Point"),
      ("srid", .num (.int 9223372036854775808))]).Finite :=
    .obj (by
      simp only [List.forall_mem_cons, List.not_mem_nil, false_imp_iff, implies_true, and_true]
      exact ⟨.str _, .num ⟨by decide, by decide⟩⟩)
  have hv : v.Throughout FiniteDouble :=
    ⟨trivial, trivial, trivial, trivial, trivial,
      ⟨trivial, hhalf, ⟨trivial, trivial, trivial⟩, trivial⟩, trivial⟩
  have hfinite : v.Throughout Finite :=
    ⟨trivial, trivial, trivial, trivial, hgeometry,
      ⟨trivial, hhalf, ⟨trivial, trivial, trivial⟩, trivial⟩, trivial⟩
  obtain ⟨s, hs⟩ := (finite_toJson hfinite).toScalar
  exact ⟨hv, s, (toScalar_eq_toJson hv).trans hs, hs⟩

end Value

end LambdaQuery
