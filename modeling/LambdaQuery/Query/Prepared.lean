import LambdaQuery.Json.Member

/-!
# Prepared queries

The text of a query with the values of its parameters, as it is handed to the database.
-/

set_option autoImplicit false

namespace LambdaQuery

/-- A named parameter and the JSON value bound to it. -/
structure QueryParameter where
  name : String
  value : Json

structure PreparedQuery where
  text : String
  parameters : List QueryParameter

namespace QueryParameter

instance : BEq QueryParameter where
  beq a b := a.name == b.name && a.value == b.value

def toJson (p : QueryParameter) : Json := .obj [("name", .str p.name), ("value", p.value)]

def ofJson? (j : Json) : Option QueryParameter := do
  let name ← j.text? "name"
  let value ← j.required? "value"
  some ⟨name, value.1.sorted⟩

end QueryParameter

namespace PreparedQuery

instance : BEq PreparedQuery where
  beq a b := a.text == b.text && a.parameters == b.parameters

def toJson (q : PreparedQuery) : Json :=
  .obj [("queryText", .str q.text), ("parameters", .arr (q.parameters.map (·.toJson)))]

def ofJson? (j : Json) : Option PreparedQuery := do
  let text ← j.text? "queryText"
  let parameters ← j.defaulted? "parameters" [] (Json.list? QueryParameter.ofJson?)
  some ⟨text, parameters⟩

end PreparedQuery

end LambdaQuery
