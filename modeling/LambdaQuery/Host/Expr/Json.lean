import LambdaQuery.Host.Expr.Basic
import LambdaQuery.Host.Value.Json

/-!
# Expressions as JSON

`Expr.encode` writes every field of a node, null for one that is absent; `Expr.decode?` reads nodes
whose absent fields are missing as well.
-/

set_option autoImplicit false

namespace LambdaQuery

def Member.encode (m : Member) : Json :=
  .obj [("owner", m.owner.toJson), ("name", .str m.name)]

def Member.decode? (j : Json) : Option Member := do
  let owner ← HostType.ofJson? (← j.required? "owner").1
  some ⟨owner, ← j.text? "name"⟩

def Declaring.encode : Declaring → Json
  | .queryable => .str "queryable"
  | .enumerable => .str "enumerable"
  | .list => .str "list"
  | .string => .str "string"
  | .math => .str "math"
  | .typeCheck => .str "type_check"
  | .userFunction => .str "user_function"
  | .queryEscape => .str "query_escape"
  | .object => .str "object"
  | .host qualified => .obj [("host", .str qualified)]

def Declaring.ofTag? : String → Option Declaring
  | "queryable" => some .queryable
  | "enumerable" => some .enumerable
  | "list" => some .list
  | "string" => some .string
  | "math" => some .math
  | "type_check" => some .typeCheck
  | "user_function" => some .userFunction
  | "query_escape" => some .queryEscape
  | "object" => some .object
  | _ => none

def Declaring.decode? (j : Json) : Option Declaring :=
  match j.variant? with
  | some (tag, none) => Declaring.ofTag? tag
  | some ("host", some ⟨.str qualified, _⟩) => some (.host qualified)
  | some (tag, some ⟨.null, _⟩) => Declaring.ofTag? tag
  | _ => none

def Method.encode (m : Method) : Json :=
  .obj [("declaring", m.declaring.encode), ("name", .str m.name)]

def Method.decode? (j : Json) : Option Method := do
  let declaring ← Declaring.decode? (← j.required? "declaring").1
  some ⟨declaring, ← j.text? "name"⟩

def Param.encode (p : Param) : Json := .obj [("name", .str p.name), ("ty", p.ty.toJson)]

def Param.decode? (j : Json) : Option Param := do
  let name ← j.text? "name"
  some ⟨name, ← HostType.ofJson? (← j.required? "ty").1⟩

/-! ## Writing -/

/-- The node of a kind, with its fields. -/
def Json.node (kind : String) (fields : List (String × Json)) : Json :=
  .obj (("kind", .str kind) :: fields)

/-- A binding, with its fields. -/
def Json.binding (kind : String) (member : Member) (name : String) (content : Json) : Json :=
  .obj [("binding", .str kind), ("member", member.encode), (name, content)]

mutual

def Expr.encode : Expr → Json
  | .constant value ty => Json.node "constant" [("value", value.encode), ("ty", ty.toJson)]
  | .parameter name ty => Json.node "parameter" [("name", .str name), ("ty", ty.toJson)]
  | .member object accessed ty => Json.node "member"
      [("object", Expr.encodeOption object), ("member", accessed.encode), ("ty", ty.toJson)]
  | .binary op left right ty => Json.node "binary"
      [("op", .str op.name), ("left", left.encode), ("right", right.encode), ("ty", ty.toJson)]
  | .unary op operand ty => Json.node "unary"
      [("op", .str op.name), ("operand", operand.encode), ("ty", ty.toJson)]
  | .conditional test ifTrue ifFalse ty => Json.node "conditional"
      [("test", test.encode), ("if_true", ifTrue.encode), ("if_false", ifFalse.encode),
       ("ty", ty.toJson)]
  | .call target method args ty => Json.node "call"
      [("target", Expr.encodeOption target), ("method", method.encode),
       ("args", .arr (Expr.encodeList args)), ("ty", ty.toJson)]
  | .construct args members ty => Json.node "new"
      [("args", .arr (Expr.encodeList args)),
       ("members", match members with
         | none => .null
         | some members => .arr (members.map (·.encode))),
       ("ty", ty.toJson)]
  | .memberInit base bindings ty => Json.node "member_init"
      [("new", base.encode), ("bindings", .arr (Binding.encodeList bindings)), ("ty", ty.toJson)]
  | .listInit base items ty => Json.node "list_init"
      [("new", base.encode), ("initializers", .arr (Expr.encodeList items)), ("ty", ty.toJson)]
  | .newArray items ty => Json.node "new_array"
      [("elements", .arr (Expr.encodeList items)), ("ty", ty.toJson)]
  | .lambda params body => Json.node "lambda"
      [("params", .arr (params.map (·.encode))), ("body", body.encode)]
  | .invoke target args ty => Json.node "invoke"
      [("target", target.encode), ("args", .arr (Expr.encodeList args)), ("ty", ty.toJson)]

def Expr.encodeOption : Option Expr → Json
  | none => .null
  | some e => e.encode

def Expr.encodeList : List Expr → List Json
  | [] => []
  | e :: es => e.encode :: Expr.encodeList es

def Binding.encode : Binding → Json
  | .assign member value => Json.binding "assignment" member "value" value.encode
  | .nested member bindings =>
    Json.binding "member_member" member "bindings" (.arr (Binding.encodeList bindings))
  | .collect member items =>
    Json.binding "list" member "initializers" (.arr (Expr.encodeList items))

def Binding.encodeList : List Binding → List Json
  | [] => []
  | b :: bs => b.encode :: Binding.encodeList bs

end

/-! ## Reading -/

/-- The type of a node. -/
def Json.nodeType? (j : Json) : Option HostType := do
  HostType.ofJson? (← j.required? "ty").1

/-- The items of a member that must be an array. -/
def Json.requiredItems? (j : Json) (name : String) :
    Option { items : List Json // sizeOf items < sizeOf j } := do
  let v ← j.required? name
  let items ← v.1.toItems?
  some ⟨items.1, Nat.lt_trans items.2 v.2⟩

mutual

def Expr.decode? (j : Json) : Option Expr := do
  let kind ← j.text? "kind"
  match kind with
  | "constant" =>
    let value ← Value.decode? (← j.required? "value").1
    some (.constant value (← j.nodeType?))
  | "parameter" =>
    let name ← j.text? "name"
    some (.parameter name (← j.nodeType?))
  | "member" =>
    let object ← Expr.decodeOption? j (← j.optional? "object")
    let accessed ← Member.decode? (← j.required? "member").1
    some (.member object accessed (← j.nodeType?))
  | "binary" =>
    let op ← Json.choice? BinaryOp.ofName? (← j.required? "op").1
    let ⟨left, _⟩ ← j.required? "left"
    let ⟨right, _⟩ ← j.required? "right"
    some (.binary op (← Expr.decode? left) (← Expr.decode? right) (← j.nodeType?))
  | "unary" =>
    let op ← Json.choice? UnaryOp.ofName? (← j.required? "op").1
    let ⟨operand, _⟩ ← j.required? "operand"
    some (.unary op (← Expr.decode? operand) (← j.nodeType?))
  | "conditional" =>
    let ⟨test, _⟩ ← j.required? "test"
    let ⟨ifTrue, _⟩ ← j.required? "if_true"
    let ⟨ifFalse, _⟩ ← j.required? "if_false"
    some (.conditional (← Expr.decode? test) (← Expr.decode? ifTrue) (← Expr.decode? ifFalse)
      (← j.nodeType?))
  | "call" =>
    let target ← Expr.decodeOption? j (← j.optional? "target")
    let method ← Method.decode? (← j.required? "method").1
    let ⟨args, _⟩ ← j.requiredItems? "args"
    some (.call target method (← Expr.decodeList? args) (← j.nodeType?))
  | "new" =>
    let ⟨args, _⟩ ← j.requiredItems? "args"
    let members ← (← j.optional? "members").mapM fun v => Json.list? Member.decode? v.1
    some (.construct (← Expr.decodeList? args) members (← j.nodeType?))
  | "member_init" =>
    let ⟨base, _⟩ ← j.required? "new"
    let ⟨bindings, _⟩ ← j.requiredItems? "bindings"
    some (.memberInit (← Expr.decode? base) (← Binding.decodeList? bindings) (← j.nodeType?))
  | "list_init" =>
    let ⟨base, _⟩ ← j.required? "new"
    let ⟨items, _⟩ ← j.requiredItems? "initializers"
    some (.listInit (← Expr.decode? base) (← Expr.decodeList? items) (← j.nodeType?))
  | "new_array" =>
    let ⟨items, _⟩ ← j.requiredItems? "elements"
    some (.newArray (← Expr.decodeList? items) (← j.nodeType?))
  | "lambda" =>
    let params ← Json.list? Param.decode? (← j.required? "params").1
    let ⟨body, _⟩ ← j.required? "body"
    some (.lambda params (← Expr.decode? body))
  | "invoke" =>
    let ⟨target, _⟩ ← j.required? "target"
    let ⟨args, _⟩ ← j.requiredItems? "args"
    some (.invoke (← Expr.decode? target) (← Expr.decodeList? args) (← j.nodeType?))
  | _ => none
termination_by (sizeOf j, 1)

/-- Reads a part of `j` that may be absent. -/
def Expr.decodeOption? (j : Json) : Option (Json.Part j) → Option (Option Expr)
  | none => some none
  | some ⟨v, _⟩ => (Expr.decode? v).map some
termination_by (sizeOf j, 0)

def Expr.decodeList? : List Json → Option (List Expr)
  | [] => some []
  | j :: js => do
    let e ← Expr.decode? j
    some (e :: (← Expr.decodeList? js))
termination_by js => (sizeOf js, 2)

def Binding.decode? (j : Json) : Option Binding := do
  let kind ← j.text? "binding"
  let member ← Member.decode? (← j.required? "member").1
  match kind with
  | "assignment" =>
    let ⟨value, _⟩ ← j.required? "value"
    some (.assign member (← Expr.decode? value))
  | "member_member" =>
    let ⟨bindings, _⟩ ← j.requiredItems? "bindings"
    some (.nested member (← Binding.decodeList? bindings))
  | "list" =>
    let ⟨items, _⟩ ← j.requiredItems? "initializers"
    some (.collect member (← Expr.decodeList? items))
  | _ => none
termination_by (sizeOf j, 1)

def Binding.decodeList? : List Json → Option (List Binding)
  | [] => some []
  | j :: js => do
    let b ← Binding.decode? j
    some (b :: (← Binding.decodeList? js))
termination_by js => (sizeOf js, 2)

end

end LambdaQuery
