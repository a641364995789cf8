import LambdaQuery.Json.Reader
import LambdaQuery.Naming.Basic

/-!
# Options of a compilation

How members are named, which values are bound to parameters of the query, and how the text is laid
out. Options are read from JSON, where every field may be missing.
-/

set_option autoImplicit false

namespace LambdaQuery

/-- A value that the query takes as a parameter. -/
structure BoundParameter where
  name : String
  value : Value

structure Options where
  naming : Naming
  parameters : List BoundParameter
  /-- Whether every clause has its own line. -/
  pretty : Bool

def Options.default : Options := ⟨⟨.declared, []⟩, [], false⟩

namespace Options

def policyOfJson? (j : Json) : Option NamingPolicy :=
  Json.choice? (fun
    | "default" => some .declared
    | "camel_case" => some .camelCase
    | _ => none) j

/-- An ordinal written as an integer of JSON. -/
def ordinal? (s : String) : Option Int64 :=
  match Json.Reader.numeral? s.toList with
  | some (n, []) => n.value?.bind (·.toInt64?)
  | _ => none

def variantsOfJson? : Json → Option (List (Int64 × String))
  | .obj ms => ms.mapM fun (key, name) => do some (← ordinal? key, ← name.toString?)
  | _ => none

def converterOfJson? (j : Json) : Option Converter :=
  match j.variant? with
  | some ("enum_as_string", some v) => (variantsOfJson? v.1).map .enumAsString
  | _ => none

def fieldOfJson? (j : Json) : Option FieldInfo := do
  let wireName ← (← j.optional? "wire_name").mapM (·.1.toString?)
  let ty ← (← j.optional? "ty").mapM (HostType.ofJson? ·.1)
  let converter ← (← j.optional? "converter").mapM (converterOfJson? ·.1)
  some ⟨wireName, ty, converter⟩

def modelOfJson? (j : Json) : Option (Record FieldInfo) :=
  j.defaulted? "fields" [] (Json.record? fieldOfJson?)

def schemaOfJson? (j : Json) : Option Schema :=
  j.defaulted? "models" [] (Json.record? modelOfJson?)

def parameterOfJson? (j : Json) : Option BoundParameter := do
  let name ← j.text? "name"
  some ⟨name, ← Value.decode? (← j.required? "value").1⟩

def ofJson? (j : Json) : Option Options := do
  let policy ← j.defaulted? "naming" .declared policyOfJson?
  let schema ← j.defaulted? "schema" [] schemaOfJson?
  let parameters ← j.defaulted? "parameters" [] (Json.list? parameterOfJson?)
  let pretty ← j.defaulted? "pretty" false Json.toBool?
  some ⟨⟨policy, schema⟩, parameters, pretty⟩

end Options

end LambdaQuery
