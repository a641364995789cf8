import LambdaQuery.Host.Error
import LambdaQuery.Host.Value.Json
import LambdaQuery.Naming.CamelCase

/-!
# Names on the wire

How the members of document models are spelled in stored documents, and how their values are
encoded. A query names a member exactly as `Naming.wireJson` writes it: by the name that the schema
gives, and otherwise by the policy.
-/

set_option autoImplicit false

namespace LambdaQuery

/-- The spelling of members for which the schema has no name. -/
inductive NamingPolicy where
  /-- As in host code. -/
  | declared
  | camelCase
  | custom (wireName : Member → String)

/-- The encoding of a member's values, given for their plain JSON. -/
inductive Converter where
  /-- Enumerations are stored by the names of their variants. -/
  | enumAsString (variants : List (Int64 × String))
  | custom (convert : Json → Except HostError Json)

/-- The name of the variant with an ordinal, the last one given. -/
def Converter.variant? (variants : List (Int64 × String)) (ordinal : Int64) : Option String :=
  (variants.reverse.find? (·.1 == ordinal)).map (·.2)

/-- Encodes a value. Only integers are ordinals; other values of enumerations stay. -/
def Converter.convert (c : Converter) (j : Json) : Except HostError Json :=
  match c with
  | .enumAsString variants =>
    match j.toInt64? with
    | none => .ok j
    | some ordinal =>
      match Converter.variant? variants ordinal with
      | some name => .ok (.str name)
      | none => .error (.typeError (.ordinal ordinal))
  | .custom convert => convert j

/-- What the schema knows of a field. -/
structure FieldInfo where
  wireName : Option String
  ty : Option HostType
  converter : Option Converter

def FieldInfo.empty : FieldInfo := ⟨none, none, none⟩

/-- The fields of the models, by the names of host code. -/
abbrev Schema := Record (Record FieldInfo)

def Schema.field? (schema : Schema) (model field : String) : Option FieldInfo := do
  Record.get? (← Record.get? schema model) field

structure Naming where
  policy : NamingPolicy
  schema : Schema

namespace Naming

def info? (n : Naming) (m : Member) : Option FieldInfo := do
  n.schema.field? (← m.owner.modelName?) m.name

def wireName (n : Naming) (m : Member) : String :=
  match (n.info? m).bind (·.wireName) with
  | some name => name
  | none =>
    match n.policy with
    | .declared => m.name
    | .camelCase => camelCase m.name
    | .custom wireName => wireName m

def converter? (n : Naming) (m : Member) : Option Converter := (n.info? m).bind (·.converter)

/-- The type that the schema gives a member. -/
def fieldType (n : Naming) (m : Member) : HostType := ((n.info? m).bind (·.ty)).getD .object

/-- A member's value after its converter. -/
def converted (n : Naming) (m : Member) (j : Json) : Except HostError Json :=
  match n.converter? m with
  | some c => c.convert j
  | none => .ok j

mutual

/-- The JSON of a value of type `ty` in a stored document. Of two fields with one name on the wire
the later one stays. -/
def wireJson (n : Naming) (ty : HostType) : Value → Except HostError Json
  | .object fields =>
    match ty.underlying with
    | .model name => do return Json.object (← n.wireFields (.model name) fields)
    | _ => .ok (Value.object fields).toJson
  | .array items =>
    match ty.underlying with
    | .array element => do return .arr (← n.wireItems element items)
    | _ => .ok (Value.array items).toJson
  | v => .ok v.toJson

def wireItems (n : Naming) (element : HostType) : List Value → Except HostError (List Json)
  | [] => .ok []
  | v :: vs => do return (← n.wireJson element v) :: (← n.wireItems element vs)

def wireFields (n : Naming) (owner : HostType) :
    List (String × Value) → Except HostError (List (String × Json))
  | [] => .ok []
  | (name, v) :: rest => do
    let m : Member := ⟨owner, name⟩
    let j ← n.converted m (← n.wireJson (n.fieldType m) v)
    return (n.wireName m, j) :: (← n.wireFields owner rest)

end

end Naming

end LambdaQuery
