import LambdaQuery.Proofs.Folding.Spelling
import LambdaQuery.Proofs.Json.Finite
import Mathlib

/-!
# Constants as documents store them

A constant is sent as a document stores its value: `Compilation.constant_eq_wireJson`. The constant
and the document go through the value on their own, a constant array by array and a document by the
type; where an array is nullable and has documents in it, only the document finds their type
(`HostType.hidesDocuments`), so that the names of their fields differ:
`Compilation.constant_ne_wireJson`.
-/

set_option autoImplicit false

namespace LambdaQuery

namespace HostType

/-- A query over documents occurs in the type. -/
def hasQuery : HostType → Bool
  | .documentQuery _ => true
  | .array element => hasQuery element
  | .nullable inner => hasQuery inner
  | _ => false

/-- Under the type no fields of a model are stored. -/
def isPlain : HostType → Bool
  | .model _ | .nullable (.model _) => false
  | .array element | .nullable (.array element) => isPlain element
  | _ => true

/-- Documents are stored in an array that is nullable. -/
def hidesDocuments : HostType → Bool
  | .array element => hidesDocuments element
  | .nullable (.array element) => !isPlain element
  | _ => false

theorem isDocumentQuery_of_hasQuery {ty : HostType} (h : ty.hasQuery = false) :
    ty.isDocumentQuery = false := by
  cases ty <;> first | rfl | cases h

theorem isPlain_of_underlying {ty element : HostType} (h : ty.isPlain = true)
    (hty : ty.underlying = .array element) : element.isPlain = true := by
  cases ty with
  | array => cases hty; exact h
  | nullable inner =>
    obtain rfl : inner = .array element := hty
    exact h
  | _ => cases hty

theorem underlying_ne_model {ty : HostType} (h : ty.isPlain = true) (name : String) :
    ty.underlying ≠ .model name := by
  intro hty
  cases ty with
  | model => cases h
  | nullable inner =>
    obtain rfl : inner = .model name := hty
    cases h
  | _ => cases hty

end HostType

/-! ## Documents -/

namespace Naming

variable {n : Naming}

mutual

/-- Where no models are stored, values are stored as their plain JSON. -/
theorem wireJson_of_isPlain : ∀ {v : Value} {ty : HostType}, ty.isPlain = true →
    n.wireJson ty v = .ok v.toJson
  | .array items, ty, h => by
    rw [wireJson]
    split
    · rename_i element hty
      rw [wireItems_of_isPlain (HostType.isPlain_of_underlying h hty)]
      rfl
    · rfl
  | .object fields, ty, h => by
    rw [wireJson]
    split
    · rename_i name hty
      exact absurd hty (HostType.underlying_ne_model h name)
    · rfl
  | .null, _, _ | .boolean _, _, _ | .integer _, _, _ | .unsigned _, _, _ | .float _, _, _
  | .decimal _, _, _ | .char _, _, _ | .string _, _, _ | .guid _, _, _ | .geometry _, _, _
  | .query _, _, _ => rfl

theorem wireItems_of_isPlain : ∀ {vs : List Value} {ty : HostType}, ty.isPlain = true →
    n.wireItems ty vs = .ok (Value.toJsonItems vs)
  | [], _, _ => rfl
  | v :: vs, ty, h => by
    rw [wireItems, wireJson_of_isPlain h, wireItems_of_isPlain h]
    rfl

end

/-- A document stores the items of an array under the type that they have as constants. -/
theorem wireJson_items_of_element {ty : HostType} (hquery : ty.hasQuery = false)
    (hdocuments : ty.hidesDocuments = false) (items : List Value) :
    n.wireJson ty (.array items) = (n.wireItems (ty.element?.getD .object) items).map .arr := by
  have hplain : n.wireItems .object items = .ok (Value.toJsonItems items) :=
    wireItems_of_isPlain rfl
  have hitems : (Except.ok (Value.array items).toJson : Except HostError Json) =
      (n.wireItems .object items).map Json.arr := by
    rw [hplain]
    rfl
  cases ty with
  | array element =>
    show _ = (n.wireItems element items).map Json.arr
    simp only [wireJson, HostType.underlying]
    cases n.wireItems element items <;> rfl
  | nullable inner =>
    refine Eq.trans ?_ hitems
    cases inner with
    | array element =>
      have helement : element.isPlain = true := by simpa [HostType.hidesDocuments] using hdocuments
      simp only [wireJson, HostType.underlying]
      rw [wireItems_of_isPlain helement]
      rfl
    | _ => rfl
  | documentQuery => cases hquery
  | _ => exact hitems

end Naming

/-! ## Constants -/

theorem Value.toScalar_of_finite {v : Value} (hv : v.IsPrimitive) (h : v.Throughout Value.Finite) :
    ∃ s, v.toScalar = .ok s := by
  have hdouble : ∀ {x : Float}, x.isFinite = true → ∃ s, Scalar.double? x = .ok s :=
    fun hx => ⟨_, if_pos hx⟩
  cases v with
  | unsigned n =>
    rw [Value.toScalar]
    split
    · exact ⟨_, rfl⟩
    · exact hdouble (Double.isFinite_ofUInt64 n)
  | float x => exact hdouble h
  | decimal d =>
    rw [Value.toScalar]
    split
    · split
      · exact ⟨_, rfl⟩
      · exact hdouble d.isFinite_toFloat
    · exact hdouble d.isFinite_toFloat
  | array | object | geometry | query => exact hv.elim
  | _ => exact ⟨_, rfl⟩

/-- The scalar of what a document stores of a value. -/
def Naming.stored (n : Naming) (ty : HostType) (v : Value) : Except CompileError Scalar := do
  (← (n.wireJson ty v).mapError .host).toScalar

/-- The scalars of what a document stores of items. -/
def Naming.storedItems (n : Naming) (ty : HostType) (vs : List Value) :
    Except CompileError (List Scalar) := do
  Json.toScalars (← (n.wireItems ty vs).mapError .host)

namespace Naming

theorem stored_array {n : Naming} {ty : HostType} (hquery : ty.hasQuery = false)
    (hdocuments : ty.hidesDocuments = false) (items : List Value) :
    n.stored ty (.array items) =
      (n.storedItems (ty.element?.getD .object) items).map Scalar.array := by
  rw [stored, storedItems, wireJson_items_of_element hquery hdocuments]
  cases n.wireItems (ty.element?.getD .object) items with
  | error => rfl
  | ok js =>
    show (Json.arr js).toScalar = (Json.toScalars js).map Scalar.array
    rw [Json.toScalar]
    cases Json.toScalars js <;> rfl

/-- An item whose JSON has a scalar can be made that scalar before the next item is looked at. -/
theorem storedItems_cons {n : Naming} {ty : HostType} {v : Value} (vs : List Value)
    (h : ∀ j, n.wireJson ty v = .ok j → ∃ s, j.toScalar = .ok s) :
    n.storedItems ty (v :: vs) =
      (do return (← n.stored ty v) :: (← n.storedItems ty vs) : Except _ _) := by
  rw [stored, storedItems, storedItems, wireItems]
  cases hj : n.wireJson ty v with
  | error => rfl
  | ok j =>
    obtain ⟨s, hs⟩ := h j hj
    cases n.wireItems ty vs with
    | error =>
      simp only [Except.mapError, bind, Except.bind, hs]
    | ok js =>
      simp only [Except.mapError, bind, Except.bind, pure, Except.pure, Json.toScalars, hs]

end Naming

namespace Compilation

variable {options : Options}

theorem constant_eq_stored_of_primitive (hoptions : options.parameters = []) {v : Value}
    (hv : v.IsPrimitive) (hfinite : v.Throughout Value.Finite) {ty : HostType}
    (hquery : ty.hasQuery = false) (sc : Scope) :
    constant options ty v sc =
      (ofExcept (options.naming.stored ty v) : Compilation Scalar) sc := by
  obtain ⟨s, hs⟩ := Value.toScalar_of_finite hv hfinite
  have hstored : options.naming.stored ty v = .ok s := by
    rw [Naming.stored, Naming.wireJson_primitive hv]
    exact Value.toScalar_toJson hv hs
  rw [constant_primitive sc hoptions hv, HostType.isDocumentQuery_of_hasQuery hquery, hs, hstored]
  rfl

mutual

/-- A constant is the scalar of what a document stores of it. -/
theorem constant_eq_stored (hoptions : options.parameters = []) (hn : options.naming.KeepsFinite) :
    ∀ {v : Value} {ty : HostType}, ty.hasQuery = false → ty.hidesDocuments = false →
      v.Throughout Value.Finite → ∀ sc,
        constant options ty v sc = (ofExcept (options.naming.stored ty v) : Compilation Scalar) sc
  | .array items, ty, hquery, hdocuments, hv, sc => by
    have helement : (ty.element?.getD .object).hasQuery = false ∧
        (ty.element?.getD .object).hidesDocuments = false := by
      cases ty with
      | array => exact ⟨hquery, hdocuments⟩
      | documentQuery => cases hquery
      | _ => exact ⟨rfl, rfl⟩
    rw [constant_items sc (find?_unbound hoptions _), HostType.isDocumentQuery_of_hasQuery hquery,
      Naming.stored_array hquery hdocuments]
    show (Scalar.array <$> constants options _ items) sc = _
    rw [← bind_pure_comp, Compilation.run_bind,
      constants_eq_stored hoptions hn helement.1 helement.2 hv.2 sc]
    cases options.naming.storedItems (ty.element?.getD .object) items <;> rfl
  | .object fields, ty, hquery, _, _, sc => by
    rw [constant_inlined sc (find?_unbound hoptions _) (by simp),
      HostType.isDocumentQuery_of_hasQuery hquery]
    show (ofHost (options.naming.wireJson ty (.object fields)) >>= _ : Compilation Scalar) sc = _
    rw [Compilation.run_bind, Naming.stored]
    cases options.naming.wireJson ty (.object fields) <;> rfl
  | .geometry shape, ty, hquery, _, _, sc => by
    rw [constant_inlined sc (find?_unbound hoptions _) (by simp),
      HostType.isDocumentQuery_of_hasQuery hquery]
    rfl
  | .query q, _, _, _, hv, _ => hv.elim
  | .null, _, hquery, _, hv, sc | .boolean _, _, hquery, _, hv, sc
  | .integer _, _, hquery, _, hv, sc | .unsigned _, _, hquery, _, hv, sc
  | .float _, _, hquery, _, hv, sc | .decimal _, _, hquery, _, hv, sc
  | .char _, _, hquery, _, hv, sc | .string _, _, hquery, _, hv, sc
  | .guid _, _, hquery, _, hv, sc =>
    constant_eq_stored_of_primitive hoptions (by trivial) hv hquery sc

theorem constants_eq_stored (hoptions : options.parameters = []) (hn : options.naming.KeepsFinite) :
    ∀ {vs : List Value} {ty : HostType}, ty.hasQuery = false → ty.hidesDocuments = false →
      Value.AllThroughout Value.Finite vs → ∀ sc,
        constants options ty vs sc =
          (ofExcept (options.naming.storedItems ty vs) : Compilation (List Scalar)) sc
  | [], _, _, _, _, _ => rfl
  | v :: vs, ty, hquery, hdocuments, hvs, sc => by
    have hscalar : ∀ j, options.naming.wireJson ty v = .ok j → ∃ s, j.toScalar = .ok s :=
      fun j hj => (hn.wireJson hvs.1 hj).toScalar
    rw [constants, Compilation.run_bind, constant_eq_stored hoptions hn hquery hdocuments hvs.1 sc,
      Naming.storedItems_cons vs hscalar]
    cases options.naming.stored ty v with
    | error => rfl
    | ok s =>
      show (constants options ty vs >>= fun ss => pure (s :: ss) : Compilation _) sc = _
      rw [Compilation.run_bind, constants_eq_stored hoptions hn hquery hdocuments hvs.2 sc]
      cases options.naming.storedItems ty vs <;> rfl

end

/-- **A constant is sent as a document stores it.** It is refused where the document cannot be
made, with the same error, and otherwise is the scalar of the JSON in the document. -/
theorem constant_eq_wireJson (env : Environment) (hfree : env.options.parameters = [])
    (hn : env.options.naming.KeepsFinite) {ty : HostType} (hquery : ty.hasQuery = false)
    (hdocuments : ty.hidesDocuments = false) {v : Value} (hv : v.Throughout Value.Finite)
    (s : Scope) :
    (∀ error, env.options.naming.wireJson ty v = .error error →
      scalar env (.constant v ty) s = (.error (.host error), s)) ∧
    ∀ j, env.options.naming.wireJson ty v = .ok j →
      ∃ a, j.toScalar = .ok a ∧ scalar env (.constant v ty) s = (.ok a, s) := by
  have hstored := constant_eq_stored hfree hn hquery hdocuments hv s
  refine ⟨fun error herror => ?_, fun j hj => ?_⟩
  · rw [scalar, hstored, Naming.stored, herror]
    rfl
  · obtain ⟨a, ha⟩ := (hn.wireJson hv hj).toScalar
    refine ⟨a, ha, ?_⟩
    rw [scalar, hstored, Naming.stored, hj]
    show (ofExcept j.toScalar : Compilation Scalar) s = _
    rw [ha]
    rfl

/-- Documents in arrays, whose status is stored by name: one with a name for the status and one
without. -/
theorem constant_eq_wireJson_documents :
    let status : FieldInfo := ⟨none, none, some (.enumAsString [(1, "Active")])⟩
    let env : Environment :=
      ⟨⟨⟨.camelCase, [("Row", [("Status", status)])]⟩, [], false⟩, Interpreter.empty.evaluate⟩
    let ty : HostType := .array (.array (.nullable (.model "Row")))
    let rows (status : Int64) : Value :=
      .array [.array [.object [("Status", .integer status), ("Price", .integer 5)], .null]]
    let s := Scope.initial
    scalar env (.constant (rows 1) ty) s =
        (.ok (.array [.array [.object [("price", .integer 5), ("status", .string "Active")],
          .null]]), s) ∧
      scalar env (.constant (rows 7) ty) s = (.error (.host (.typeError (.ordinal 7))), s) := by
  intro status env ty rows s
  have hn : env.options.naming.KeepsFinite := by
    intro m c hc
    obtain ⟨info, hinfo, hc⟩ := Option.bind_eq_some_iff.mp hc
    obtain ⟨model, -, hfield⟩ := Option.bind_eq_some_iff.mp hinfo
    obtain ⟨fields, hfields, hfield⟩ := Option.bind_eq_some_iff.mp hfield
    obtain rfl : fields = [("Status", status)] := by
      simpa [env, Record.get?, eq_comm] using (Option.ite_none_right_eq_some.mp hfields).2
    obtain rfl : info = status := by
      simpa [Record.get?, eq_comm] using (Option.ite_none_right_eq_some.mp hfield).2
    cases hc
    exact Converter.keepsFinite_enumAsString _
  have hrows : ∀ status, (rows status).Throughout Value.Finite := by
    intro status
    simp only [rows, Value.Throughout, Value.AllThroughout, Value.FieldsThroughout, Value.Finite,
      and_self]
  have hquery : ty.hasQuery = false := rfl
  have hdocuments : ty.hidesDocuments = false := rfl
  obtain ⟨-, hnamed⟩ := constant_eq_wireJson env rfl hn hquery hdocuments (hrows 1) s
  obtain ⟨hunnamed, -⟩ := constant_eq_wireJson env rfl hn hquery hdocuments (hrows 7) s
  let stored : Json :=
    .arr [.arr [.obj [("price", .int 5), ("status", .str "Active")], .null]]
  have hfields : env.options.naming.wireFields (.model "Row")
      [("Status", .integer 1), ("Price", .integer 5)] =
        .ok [("status", .str "Active"), ("price", .int 5)] := by
    simp only [env, status]
    cbv
  have hjson : env.options.naming.wireJson ty (rows 1) = .ok stored := by
    simp only [ty, rows, Naming.wireJson, Naming.wireItems, HostType.underlying, hfields]
    rfl
  obtain ⟨a, ha, hscalar⟩ := hnamed stored hjson
  have hstored : stored.toScalar = .ok (.array [.array [.object [("price", .integer 5),
      ("status", .string "Active")], .null]]) := rfl
  obtain rfl := Except.ok.inj (ha.symm.trans hstored)
  exact ⟨hscalar, hunnamed _ rfl⟩

/-- A document in a nullable array is sent with the names of host code. -/
theorem constant_ne_wireJson :
    let env : Environment := ⟨⟨⟨.camelCase, []⟩, [], false⟩, Interpreter.empty.evaluate⟩
    let ty : HostType := .nullable (.array (.model "Row"))
    let rows : Value := .array [.object [("Price", .integer 5)]]
    env.options.naming.wireJson ty rows = .ok (.arr [.obj [("price", .int 5)]]) ∧
      scalar env (.constant rows ty) Scope.initial =
        (.ok (.array [.object [("Price", .integer 5)]]), Scope.initial) := by
  intro env ty rows
  simp only [env, ty, rows]
  refine ⟨?_, ?_⟩ <;> cbv

end Compilation

end LambdaQuery
