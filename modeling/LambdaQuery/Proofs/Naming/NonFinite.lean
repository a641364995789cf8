import LambdaQuery.Proofs.Json.Values
import LambdaQuery.Proofs.Naming.Comparisons
import Mathlib

/-!
# Numbers that are not finite

The query language has no infinities and no NaN. A constant that has one, in arrays of arrays
(`Value.ListsNonFinite`), is refused: `Compilation.constant_refuses_nonFinite`. Without converters
nothing else than what is unsupported keeps a constant from being compiled
(`Compilation.onlyUnsupported_constant`), so that the refusal is of this kind also where another
item is in the way. In an object the number has become null before it could be refused:
`Compilation.constant_nulls_nonFinite`.
-/

set_option autoImplicit false

namespace LambdaQuery

/-! ## Values -/

/-- An infinity or NaN that is the value, or an item of an array in it that is in no object. -/
inductive Value.ListsNonFinite : Value → Prop
  | float {x : Float} (h : x.isFinite = false) : ListsNonFinite (.float x)
  | array {items : List Value} {v : Value} (hv : v ∈ items) (h : v.ListsNonFinite) :
      ListsNonFinite (.array items)

theorem Value.AllThroughout.mem {P : Value → Prop} {vs : List Value}
    (h : Value.AllThroughout P vs) {v : Value} (hv : v ∈ vs) : v.Throughout P := by
  induction vs with
  | nil => cases hv
  | cons w ws ih =>
    rcases List.mem_cons.mp hv with rfl | hv
    · exact h.1
    · exact ih h.2 hv

theorem Scalar.unsupported_of_double? {x : Float} {e : CompileError}
    (h : Scalar.double? x = .error e) : ∃ why, e = .unsupported why := by
  unfold Scalar.double? at h
  split at h
  · cases h
  · cases h
    exact ⟨_, rfl⟩

theorem Value.unsupported_of_toScalar {v : Value} (hv : v.IsPrimitive) {e : CompileError}
    (h : v.toScalar = .error e) : ∃ why, e = .unsupported why := by
  cases v with
  | unsigned n =>
    rw [Value.toScalar] at h
    split at h
    · cases h
    · exact Scalar.unsupported_of_double? h
  | float x => exact Scalar.unsupported_of_double? h
  | decimal d =>
    rw [Value.toScalar] at h
    split at h
    · split at h
      · cases h
      · exact Scalar.unsupported_of_double? h
    · exact Scalar.unsupported_of_double? h
  | array | object | geometry | query => exact hv.elim
  | _ => cases h

namespace Naming

variable {n : Naming}

mutual

/-- Without converters every value is stored. -/
theorem wireJson_eq_ok (hn : ∀ m, n.converter? m = none) :
    ∀ (v : Value) (ty : HostType), ∃ j, n.wireJson ty v = .ok j
  | .array items, ty => by
    rw [wireJson]
    split
    · obtain ⟨js, hjs⟩ := wireItems_eq_ok hn items _
      exact ⟨.arr js, by rw [hjs]; rfl⟩
    · exact ⟨_, rfl⟩
  | .object fields, ty => by
    rw [wireJson]
    split
    · rename_i name _
      obtain ⟨ms, hms⟩ := wireFields_eq_ok hn fields (.model name)
      exact ⟨Json.object ms, by rw [hms]; rfl⟩
    · exact ⟨_, rfl⟩
  | .null, _ | .boolean _, _ | .integer _, _ | .unsigned _, _ | .float _, _ | .decimal _, _
  | .char _, _ | .string _, _ | .guid _, _ | .geometry _, _ | .query _, _ => ⟨_, rfl⟩

theorem wireItems_eq_ok (hn : ∀ m, n.converter? m = none) :
    ∀ (vs : List Value) (ty : HostType), ∃ js, n.wireItems ty vs = .ok js
  | [], _ => ⟨[], rfl⟩
  | v :: vs, ty => by
    obtain ⟨j, hj⟩ := wireJson_eq_ok hn v ty
    obtain ⟨js, hjs⟩ := wireItems_eq_ok hn vs ty
    exact ⟨j :: js, by rw [wireItems, hj, hjs]; rfl⟩

theorem wireFields_eq_ok (hn : ∀ m, n.converter? m = none) :
    ∀ (fields : List (String × Value)) (owner : HostType),
      ∃ ms, n.wireFields owner fields = .ok ms
  | [], _ => ⟨[], rfl⟩
  | (name, v) :: fields, owner => by
    obtain ⟨j, hj⟩ := wireJson_eq_ok hn v (n.fieldType ⟨owner, name⟩)
    obtain ⟨ms, hms⟩ := wireFields_eq_ok hn fields owner
    refine ⟨(n.wireName ⟨owner, name⟩, j) :: ms, ?_⟩
    simp only [wireFields, hj, hms, converted, hn, bind, Except.bind, pure, Except.pure]

end

end Naming

/-! ## Refusals -/

namespace Compilation

/-- Where the computation fails, something is not supported. -/
def OnlyUnsupported {α : Type} (x : Compilation α) : Prop :=
  ∀ s e t, x s = (.error e, t) → ∃ why, e = .unsupported why

namespace OnlyUnsupported

variable {α β : Type} {x : Compilation α}

protected theorem pure (a : α) : (pure a : Compilation α).OnlyUnsupported := by
  intro s e t h
  cases h

protected theorem throw (why : Unsupported) :
    (throw (.unsupported why) : Compilation α).OnlyUnsupported := by
  intro s e t h
  cases h
  exact ⟨why, rfl⟩

protected theorem bind {f : α → Compilation β} (hx : x.OnlyUnsupported)
    (hf : ∀ a, (f a).OnlyUnsupported) : (x >>= f).OnlyUnsupported := by
  intro s e t h
  rw [Compilation.run_bind] at h
  cases hrun : x s with
  | mk r u =>
    rw [hrun] at h
    cases r with
    | error error =>
      cases h
      exact hx s _ _ hrun
    | ok a => exact hf a u e t h

protected theorem ofExcept {r : Except CompileError α}
    (h : ∀ e, r = .error e → ∃ why, e = .unsupported why) :
    (ofExcept r : Compilation α).OnlyUnsupported := by
  intro s e t hrun
  cases r with
  | error error =>
    cases hrun
    exact h _ rfl
  | ok => cases hrun

end OnlyUnsupported

variable {options : Options}

theorem onlyUnsupported_bindConstant (v : Value) : (bindConstant options v).OnlyUnsupported := by
  intro s e t h
  rw [bindConstant_eq] at h
  split at h
  · cases h
  · split at h
    · cases h
    · cases h
      exact ⟨_, rfl⟩

theorem inlined_primitive (n : Naming) (ty : HostType) {v : Value} (hv : v.IsPrimitive) :
    inlined n ty v = ofExcept v.toScalar := by
  cases v <;> first | rfl | exact hv.elim

theorem onlyUnsupported_inlined (hn : ∀ m, options.naming.converter? m = none) (ty : HostType)
    {v : Value} (hv : ∀ items, v ≠ .array items) :
    (inlined options.naming ty v).OnlyUnsupported := by
  cases v with
  | array items => exact absurd rfl (hv items)
  | object fields =>
    obtain ⟨j, hj⟩ := Naming.wireJson_eq_ok hn (.object fields) ty
    show (ofHost (options.naming.wireJson ty (.object fields)) >>= _).OnlyUnsupported
    rw [hj]
    exact .ofExcept fun e h => Json.unsupported_of_toScalar h
  | geometry shape => exact .ofExcept fun e h => Json.unsupported_of_toScalar h
  | query => exact .throw _
  | null | boolean | integer | unsigned | float | decimal | char | string | guid =>
    rw [inlined_primitive _ _ (by trivial)]
    exact .ofExcept fun e h => Value.unsupported_of_toScalar (by trivial) h

theorem onlyUnsupported_leaf (hn : ∀ m, options.naming.converter? m = none) (ty : HostType)
    {v : Value} (hv : ∀ items, v ≠ .array items) : (constant options ty v).OnlyUnsupported := by
  rw [constant.eq_2 _ _ _ fun items he => hv items he]
  split
  · exact .throw _
  · refine .bind (onlyUnsupported_bindConstant v) fun bound => ?_
    cases bound with
    | some name => exact .pure _
    | none => exact onlyUnsupported_inlined hn ty hv

mutual

/-- Without converters only what is unsupported keeps a constant from being compiled. -/
theorem onlyUnsupported_constant (hn : ∀ m, options.naming.converter? m = none) :
    ∀ (v : Value) (ty : HostType), (constant options ty v).OnlyUnsupported
  | .array items, ty => by
    rw [constant]
    split
    · exact .throw _
    · refine .bind (onlyUnsupported_bindConstant _) fun bound => ?_
      cases bound with
      | some name => exact .pure _
      | none => exact .bind (onlyUnsupported_constants hn items _) fun _ => .pure _
  | .null, ty | .boolean _, ty | .integer _, ty | .unsigned _, ty | .float _, ty | .decimal _, ty
  | .char _, ty | .string _, ty | .guid _, ty | .object _, ty | .geometry _, ty | .query _, ty =>
    onlyUnsupported_leaf hn ty nofun

theorem onlyUnsupported_constants (hn : ∀ m, options.naming.converter? m = none) :
    ∀ (vs : List Value) (ty : HostType), (constants options ty vs).OnlyUnsupported
  | [], _ => by
    rw [constants]
    exact .pure _
  | v :: vs, ty => by
    rw [constants]
    exact .bind (onlyUnsupported_constant hn v ty) fun _ =>
      .bind (onlyUnsupported_constants hn vs ty) fun _ => .pure _

end

/-- An item that is refused under every type and in every scope keeps its list from being
compiled. -/
theorem constants_eq_error {vs : List Value} {v : Value} (hv : v ∈ vs)
    (hrefused : ∀ ty s, ∃ e t, constant options ty v s = (.error e, t)) :
    ∀ (ty : HostType) (s : Scope), ∃ e t, constants options ty vs s = (.error e, t) := by
  induction vs with
  | nil => cases hv
  | cons w ws ih =>
    intro ty s
    rw [constants, Compilation.run_bind]
    cases hrun : constant options ty w s with
    | mk r u =>
      cases r with
      | error e => exact ⟨e, u, rfl⟩
      | ok a =>
        dsimp only
        rcases List.mem_cons.mp hv with rfl | hv
        · obtain ⟨e, t, h⟩ := hrefused ty s
          rw [h] at hrun
          cases hrun
        · obtain ⟨e, t, h⟩ := ih hv ty u
          rw [Compilation.run_bind, h]
          exact ⟨e, t, rfl⟩

theorem constant_eq_error {v : Value} (h : v.ListsNonFinite)
    (hfree : v.Throughout fun w => options.parameters.find? (·.value == w) = none) :
    ∀ (ty : HostType) (s : Scope), ∃ e t, constant options ty v s = (.error e, t) := by
  induction h with
  | @float x hx =>
    intro ty s
    rw [constant_inlined s hfree (by simp)]
    split
    · exact ⟨_, _, rfl⟩
    · have hdouble : (Value.float x).toScalar = .error (.unsupported (.nonFinite x)) :=
        if_neg (by rw [hx]; decide)
      rw [inlined_primitive _ _ (by trivial), hdouble]
      exact ⟨_, _, rfl⟩
  | @array items v hv _ ih =>
    intro ty s
    rw [constant_items s hfree.1]
    split
    · exact ⟨_, _, rfl⟩
    · obtain ⟨e, t, h⟩ := constants_eq_error hv (ih (hfree.2.mem hv)) (ty.element?.getD .object) s
      rw [← bind_pure_comp, Compilation.run_bind, h]
      exact ⟨e, t, rfl⟩

/-- **Numbers that are not finite do not reach a query**, where no object holds them: without
converters, and without a parameter for the constant or a part of it, the constant is refused as
unsupported under every type. -/
theorem constant_refuses_nonFinite (env : Environment)
    (hn : ∀ m, env.options.naming.converter? m = none) {v : Value} (h : v.ListsNonFinite)
    (hfree : v.Throughout fun w => env.options.parameters.find? (·.value == w) = none)
    (ty : HostType) (s : Scope) :
    ∃ why t, scalar env (.constant v ty) s = (.error (.unsupported why), t) := by
  obtain ⟨e, t, hrun⟩ := constant_eq_error h hfree ty s
  obtain ⟨why, rfl⟩ := onlyUnsupported_constant hn v ty s e t hrun
  exact ⟨why, t, by rw [scalar, hrun]⟩

/-- An infinity in an array in an array; the parameter is for another value. -/
theorem constant_refuses_nonFinite_nested :
    let env : Environment :=
      ⟨⟨⟨.camelCase, []⟩, [⟨"p", .string "a"⟩], false⟩, Interpreter.empty.evaluate⟩
    let v : Value := .array [.string "b", .array [.integer 1, .float (1.0 / 0.0)]]
    ∃ why t, scalar env (.constant v (.array .object)) .initial =
      (.error (.unsupported why), t) := by
  intro env v
  have hx : (1.0 / 0.0 : Float).isFinite = false := by decide
  have hlists : v.ListsNonFinite :=
    .array (.tail _ (.head _)) (.array (.tail _ (.head _)) (.float hx))
  have hfree : v.Throughout fun w => env.options.parameters.find? (·.value == w) = none :=
    ⟨rfl, by cbv, ⟨rfl, rfl, rfl, trivial⟩, trivial⟩
  have hn : ∀ m, env.options.naming.converter? m = none := by
    intro m
    unfold Naming.converter? Naming.info?
    cases m.owner.modelName? <;> rfl
  exact constant_refuses_nonFinite env hn hlists hfree _ _

/-- An infinity in an object becomes null, so that the constant has a scalar. -/
theorem constant_nulls_nonFinite :
    let env : Environment := ⟨⟨⟨.declared, []⟩, [], false⟩, Interpreter.empty.evaluate⟩
    scalar env (.constant (.object [("X", .float (1.0 / 0.0))]) .anonymous) .initial =
      (.ok (.object [("X", .null)]), .initial) := by
  intro env
  have hx : (1.0 / 0.0 : Float).isFinite = false := by decide
  have hjson : (Value.object [("X", .float (1.0 / 0.0))]).toJson = .obj [("X", .null)] := by
    show Json.obj [("X", Json.float (1.0 / 0.0))] = _
    rw [Json.float, hx]
    rfl
  have hplain : (Value.object [("X", .float (1.0 / 0.0))]).Plain env.options.naming .anonymous := by
    rw [Value.Plain]
    rfl
  rw [scalar, constant_object _ rfl hplain, hjson]
  rfl

end Compilation

end LambdaQuery
