import LambdaQuery.Compilation.Operators
import LambdaQuery.Host.Interpreter
import LambdaQuery.Proofs.Json.Records
import Mathlib

/-!
# Paths in documents

A filter finds a member of a stored document because both spell it in the same way. `Naming.Leads`
says that a path of members leads from a value of a model to a value inside of it; along such a path
the scalar of the members is a chain of keys (`Compilation.scalar_accesses`), and in the JSON of the
document these keys lead to the JSON of the value (`Naming.Leads.follow`). Main statement:
`Compilation.scalar_reaches_wireJson`.
-/

set_option autoImplicit false

namespace LambdaQuery

/-- The access to a member: its static type is that of the expression. -/
structure Access where
  member : Member
  ty : HostType

/-- Accesses to members one after the other, each of what the one before gives. -/
def Expr.accesses (e : Expr) (path : List Access) : Expr :=
  path.foldl (fun e a => .member (some e) a.member a.ty) e

/-- Keys one after the other. -/
def Scalar.keyed (s : Scalar) (keys : List String) : Scalar := keys.foldl Scalar.property s

namespace Json

/-- The value behind keys of objects inside of each other. -/
def follow (j : Json) : List String → Option Json
  | [] => some j
  | key :: keys =>
    match j with
    | .obj ms => (Record.get? ms key).bind (follow · keys)
    | _ => none

theorem follow_object_cons {ms : List (String × Json)} (h : (ms.map (·.1)).Nodup) (key : String)
    (keys : List String) :
    (object ms).follow (key :: keys) = (Record.get? ms key).bind (follow · keys) := by
  rw [object_eq, follow, get?_entered, Record.ofList_of_nodup ms h]

end Json

namespace Naming

variable (n : Naming)

/-- The fields of an object of a model have names of their own on the wire. -/
def Distinct (model : String) (fields : List (String × Value)) : Prop :=
  (fields.map fun f => n.wireName ⟨.model model, f.1⟩).Nodup

/-- `path` leads from a value of a model to the value `w` of the member `m`: through objects whose
fields are told apart on the wire, and through members that hold a model as it is. -/
inductive Leads : String → Value → List Access → Member → Value → Prop
  | last {model name : String} {fields : List (String × Value)} {w : Value} (ty : HostType)
      (distinct : n.Distinct model fields) (found : Record.get? fields name = some w) :
      Leads model (.object fields) [⟨⟨.model model, name⟩, ty⟩] ⟨.model model, name⟩ w
  | through {model name next : String} {fields : List (String × Value)} {v w : Value}
      {path : List Access} {m : Member} (distinct : n.Distinct model fields)
      (found : Record.get? fields name = some v)
      (registered : n.fieldType ⟨.model model, name⟩ = .model next)
      (plain : n.converter? ⟨.model model, name⟩ = none) (rest : Leads next v path m w) :
      Leads model (.object fields) (⟨⟨.model model, name⟩, .model next⟩ :: path) m w

/-- The keys of a path. -/
def keys (path : List Access) : List String := path.map fun a => n.wireName a.member

variable {n}

theorem wireFields_cons_eq_ok {owner : HostType} {name : String} {v : Value}
    {fields : List (String × Value)} {ms : List (String × Json)}
    (h : n.wireFields owner ((name, v) :: fields) = .ok ms) :
    ∃ j₀ j rest, n.wireJson (n.fieldType ⟨owner, name⟩) v = .ok j₀ ∧
      n.converted ⟨owner, name⟩ j₀ = .ok j ∧ n.wireFields owner fields = .ok rest ∧
      ms = (n.wireName ⟨owner, name⟩, j) :: rest := by
  unfold wireFields at h
  cases hj₀ : n.wireJson (n.fieldType ⟨owner, name⟩) v with
  | error e => simp [hj₀, bind, Except.bind] at h
  | ok j₀ =>
    cases hj : n.converted ⟨owner, name⟩ j₀ with
    | error e => simp [hj₀, hj, bind, Except.bind] at h
    | ok j =>
      cases hrest : n.wireFields owner fields with
      | error e => simp [hj₀, hj, hrest, bind, Except.bind] at h
      | ok rest =>
        simp only [hj₀, hj, hrest, bind, Except.bind, pure, Except.pure, Except.ok.injEq] at h
        exact ⟨j₀, j, rest, rfl, hj, rfl, h.symm⟩

/-- The fields of an object are written under their names on the wire, in order. -/
theorem wireFields_names {owner : HostType} {fields : List (String × Value)}
    {ms : List (String × Json)} (h : n.wireFields owner fields = .ok ms) :
    ms.map (·.1) = fields.map fun f => n.wireName ⟨owner, f.1⟩ := by
  induction fields generalizing ms with
  | nil =>
    cases h
    rfl
  | cons f fields ih =>
    obtain ⟨j₀, j, rest, -, -, hrest, rfl⟩ := wireFields_cons_eq_ok h
    rw [List.map_cons, List.map_cons, ih hrest]

/-- A field is found under its name on the wire, unless one before it has the same name there. -/
theorem get?_wireFields {owner : HostType} {fields : List (String × Value)}
    {ms : List (String × Json)} {name : String} {v : Value}
    (h : n.wireFields owner fields = .ok ms)
    (hdistinct : (fields.map fun f => n.wireName ⟨owner, f.1⟩).Nodup)
    (hv : Record.get? fields name = some v) :
    ∃ j₀ j, n.wireJson (n.fieldType ⟨owner, name⟩) v = .ok j₀ ∧
      n.converted ⟨owner, name⟩ j₀ = .ok j ∧
      Record.get? ms (n.wireName ⟨owner, name⟩) = some j := by
  induction fields generalizing ms with
  | nil => cases hv
  | cons f fields ih =>
    obtain ⟨name', v'⟩ := f
    obtain ⟨j₀, j, rest, hj₀, hj, hrest, rfl⟩ := wireFields_cons_eq_ok h
    obtain ⟨hfirst, hfields⟩ := List.nodup_cons.mp hdistinct
    rw [Record.get?] at hv
    split at hv
    · rename_i hname
      obtain rfl : v' = v := by simpa using hv
      subst hname
      exact ⟨j₀, j, hj₀, hj, by rw [Record.get?, if_pos rfl]⟩
    · obtain ⟨k₀, k, hk₀, hk, hget⟩ := ih hrest hfields hv
      refine ⟨k₀, k, hk₀, hk, ?_⟩
      have hne : n.wireName ⟨owner, name'⟩ ≠ n.wireName ⟨owner, name⟩ := fun heq => by
        have hnone : Record.get? rest (n.wireName ⟨owner, name'⟩) = none :=
          Record.get?_eq_none.mpr (by rwa [Record.names, wireFields_names hrest])
        rw [heq, hget] at hnone
        cases hnone
      rw [Record.get?, if_neg hne, hget]

theorem wireJson_object_eq_ok {model : String} {fields : List (String × Value)} {j : Json}
    (h : n.wireJson (.model model) (.object fields) = .ok j) :
    ∃ ms, n.wireFields (.model model) fields = .ok ms ∧ j = Json.object ms := by
  simp only [wireJson, HostType.underlying] at h
  cases hms : n.wireFields (.model model) fields with
  | error e => simp [hms, bind, Except.bind] at h
  | ok ms =>
    simp only [hms, bind, Except.bind, pure, Except.pure, Except.ok.injEq] at h
    exact ⟨ms, rfl, h.symm⟩

/-- The member of a stored object under the name of one of its fields is the field's JSON. -/
theorem follow_wireJson {model name : String} {fields : List (String × Value)} {v : Value}
    {j : Json} (h : n.wireJson (.model model) (.object fields) = .ok j)
    (hdistinct : n.Distinct model fields) (hv : Record.get? fields name = some v) :
    ∃ j₀ j₁, n.wireJson (n.fieldType ⟨.model model, name⟩) v = .ok j₀ ∧
      n.converted ⟨.model model, name⟩ j₀ = .ok j₁ ∧
      ∀ keys, j.follow (n.wireName ⟨.model model, name⟩ :: keys) = j₁.follow keys := by
  obtain ⟨ms, hms, rfl⟩ := wireJson_object_eq_ok h
  obtain ⟨j₀, j₁, hj₀, hj₁, hget⟩ := get?_wireFields hms hdistinct hv
  refine ⟨j₀, j₁, hj₀, hj₁, fun keys => ?_⟩
  rw [Json.follow_object_cons (by rwa [wireFields_names hms]), hget, Option.bind_some]

namespace Leads

variable {model : String} {v w : Value} {path : List Access} {m : Member}

/-- In the JSON of a document the keys of a path lead to the JSON of the value that it leads to. -/
theorem follow (h : n.Leads model v path m w) {j : Json}
    (hj : n.wireJson (.model model) v = .ok j) :
    ∃ j₀ j₁, n.wireJson (n.fieldType m) w = .ok j₀ ∧ n.converted m j₀ = .ok j₁ ∧
      j.follow (n.keys path) = some j₁ := by
  induction h generalizing j with
  | last ty distinct found =>
    obtain ⟨j₀, j₁, hj₀, hj₁, hfollow⟩ := follow_wireJson hj distinct found
    exact ⟨j₀, j₁, hj₀, hj₁, hfollow []⟩
  | through distinct found registered plain rest ih =>
    obtain ⟨j₀, j₁, hj₀, hj₁, hfollow⟩ := follow_wireJson hj distinct found
    -- Without a converter the inner document is stored as it is.
    obtain rfl : j₀ = j₁ := by simpa [converted, plain] using hj₁
    rw [registered] at hj₀
    obtain ⟨k₀, k₁, hk₀, hk₁, hkeys⟩ := ih hj₀
    exact ⟨k₀, k₁, hk₀, hk₁, (hfollow _).trans hkeys⟩

end Leads

end Naming

namespace Compilation

open Naming

/-- A member of a model is a property, under its name on the wire. -/
theorem memberOf_model (n : Naming) (model : String) (m : Member) (s : Scalar) :
    memberOf n (.model model) m s = .property s (n.wireName m) := by
  simp [memberOf, HostType.isNullable, HostType.underlying]

variable (env : Environment)

theorem scalar_accesses {v w : Value} {path : List Access} {m : Member} {model : String}
    (h : env.options.naming.Leads model v path m w) {e : Expr} (hty : e.ty = .model model)
    {s : Scope} {row : Scalar} (he : scalar env e s = (.ok row, s)) :
    scalar env (e.accesses path) s = (.ok (row.keyed (env.options.naming.keys path)), s) := by
  have hmember : ∀ {e : Expr} {model : String} {row : Scalar} (m : Member) (ty : HostType),
      e.ty = .model model → scalar env e s = (.ok row, s) →
      scalar env (.member (some e) m ty) s =
        (.ok (row.property (env.options.naming.wireName m)), s) := by
    intro e model row m ty hty he
    rw [scalar]
    simp [bind, ExceptT.bind, ExceptT.mk, ExceptT.bindCont, StateT.bind, he, pure, ExceptT.pure,
      StateT.pure, hty, memberOf_model]
  induction h generalizing e row with
  | last ty _ _ => exact hmember _ ty hty he
  | through _ _ _ _ _ ih => exact ih rfl (hmember _ _ hty he)

/-- Filters name the keys that documents carry: the scalar of a path of members is a chain of keys,
and in the JSON of a document these keys lead to what the document stores of the value at the end of
the path. -/
theorem scalar_reaches_wireJson {r model : String} {s : Scope} {row : Scalar}
    (hr : s.lookup? r = some row) {v w : Value} {path : List Access} {m : Member}
    (h : env.options.naming.Leads model v path m w) {j : Json}
    (hj : env.options.naming.wireJson (.model model) v = .ok j) :
    scalar env ((Expr.parameter r (.model model)).accesses path) s =
        (.ok (row.keyed (env.options.naming.keys path)), s) ∧
      ∃ j₀ j₁, env.options.naming.wireJson (env.options.naming.fieldType m) w = .ok j₀ ∧
        env.options.naming.converted m j₀ = .ok j₁ ∧
        j.follow (env.options.naming.keys path) = some j₁ := by
  have hrow : scalar env (.parameter r (.model model)) s = (.ok row, s) := by
    rw [scalar]
    simp [bind, ExceptT.bind, ExceptT.mk, ExceptT.bindCont, StateT.bind, get, getThe,
      MonadStateOf.get, liftM, monadLift, MonadLift.monadLift, ExceptT.lift, Functor.map,
        StateT.map,
      StateT.get, pure, ExceptT.pure, StateT.pure, hr]
  obtain ⟨j₀, j₁, hj₀, hj₁, hkeys⟩ := h.follow hj
  exact ⟨scalar_accesses env h rfl hrow, j₀, j₁, hj₀, hj₁, hkeys⟩

/-- The status inside of a row, which has a name and an encoding of its own. -/
theorem scalar_reaches_wireJson_status :
    let status : FieldInfo := ⟨some "State", none, some (.enumAsString [(1, "Active")])⟩
    let schema : Schema :=
      [("Row", [("Size", ⟨none, some (.model "Size"), none⟩)]), ("Size", [("Status", status)])]
    let env : Environment := ⟨⟨⟨.camelCase, schema⟩, [], false⟩, Interpreter.empty.evaluate⟩
    let v := Value.object [("Tag", .string "a"),
      ("Size", .object [("Unit", .string "m"), ("Status", .integer 1)])]
    let path : List Access :=
      [⟨⟨.model "Row", "Size"⟩, .model "Size"⟩, ⟨⟨.model "Size", "Status"⟩, .int32⟩]
    let s := Scope.initial.bindTo "r" (.ref "root")
    let j := Json.obj [("size", .obj [("State", .str "Active"), ("unit", .str "m")]),
      ("tag", .str "a")]
    env.options.naming.wireJson (.model "Row") v = .ok j ∧
      scalar env ((Expr.parameter "r" (.model "Row")).accesses path) s =
          (.ok ((Scalar.ref "root").keyed ["size", "State"]), s) ∧
        ∃ j₀ j₁, env.options.naming.wireJson .object (.integer 1) = .ok j₀ ∧
          env.options.naming.converted ⟨.model "Size", "Status"⟩ j₀ = .ok j₁ ∧
          j.follow ["size", "State"] = some j₁ := by
  intro status schema env v path s j
  have hleads : env.options.naming.Leads "Row" v path ⟨.model "Size", "Status"⟩ (.integer 1) :=
    .through (by unfold Naming.Distinct; decide) rfl rfl rfl
      (.last _ (by unfold Naming.Distinct; decide) rfl)
  have hj : env.options.naming.wireJson (.model "Row") v = .ok j := by
    -- The names come first: evaluating one goes through the case data.
    have htag : env.options.naming.wireName ⟨.model "Row", "Tag"⟩ = "tag" := by decide
    have hsize : env.options.naming.wireName ⟨.model "Row", "Size"⟩ = "size" := by decide
    have hunit : env.options.naming.wireName ⟨.model "Size", "Unit"⟩ = "unit" := by decide
    have hinner : env.options.naming.fieldType ⟨.model "Row", "Size"⟩ = .model "Size" := rfl
    simp only [v, Naming.wireJson, Naming.wireFields, HostType.underlying, hinner, htag, hsize,
      hunit]
    cbv
  have hkeys : env.options.naming.keys path = ["size", "State"] := by decide
  exact ⟨hj, hkeys ▸ scalar_reaches_wireJson env rfl hleads hj⟩

end Compilation

end LambdaQuery
