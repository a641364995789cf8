import LambdaQuery.Json.Member

/-!
# Host types

The static types of host expressions, as coarse as the compiler needs them: what is a string, a
nullable, a sequence, a registered document model or a query over documents.
-/

set_option autoImplicit false

namespace LambdaQuery

inductive HostType where
  /-- An unknown or dynamic type. -/
  | object
  | boolean
  | int32
  | int64
  | uint64
  | double
  | decimal
  | char
  | string
  | guid
  | dateTime
  | enum (name : String)
  | nullable (inner : HostType)
  | array (element : HostType)
  /-- A document model, which the schema may describe. -/
  | model (name : String)
  /-- A record type without a name. -/
  | anonymous
  | geometry
  /-- A query over documents of the element type. -/
  | documentQuery (element : HostType)
  | lambda
  | void
  deriving DecidableEq, Inhabited

namespace HostType

def isNullable : HostType → Bool
  | .nullable _ => true
  | _ => false

/-- What a nullable wraps; any other type itself. -/
def underlying : HostType → HostType
  | .nullable inner => inner
  | ty => ty

def isString (ty : HostType) : Bool := ty.underlying = .string

def isDocumentQuery : HostType → Bool
  | .documentQuery _ => true
  | _ => false

/-- The element type of a sequence or a query. -/
def element? : HostType → Option HostType
  | .array element | .documentQuery element => some element
  | _ => none

/-- The name of a model, also of one inside nullables. -/
def modelName? : HostType → Option String
  | .model name => some name
  | .nullable inner => modelName? inner
  | _ => none

/-- The type as host code spells it. -/
def text : HostType → String
  | .object => "object"
  | .boolean => "bool"
  | .int32 => "int"
  | .int64 => "long"
  | .uint64 => "ulong"
  | .double => "double"
  | .decimal => "decimal"
  | .char => "char"
  | .string => "string"
  | .guid => "Guid"
  | .dateTime => "DateTime"
  | .enum name => name
  | .nullable inner => text inner ++ "?"
  | .array element => text element ++ "[]"
  | .model name => name
  | .anonymous => "<anonymous>"
  | .geometry => "Geometry"
  | .documentQuery element => "IQueryable<" ++ text element ++ ">"
  | .lambda => "<lambda>"
  | .void => "void"

def toJson : HostType → Json
  | .object => .str "object"
  | .boolean => .str "boolean"
  | .int32 => .str "int32"
  | .int64 => .str "int64"
  | .uint64 => .str "u_int64"
  | .double => .str "double"
  | .decimal => .str "decimal"
  | .char => .str "char"
  | .string => .str "string"
  | .guid => .str "guid"
  | .dateTime => .str "date_time"
  | .enum name => .obj [("enum", .str name)]
  | .nullable inner => .obj [("nullable", toJson inner)]
  | .array element => .obj [("array", toJson element)]
  | .model name => .obj [("model", .str name)]
  | .anonymous => .str "anonymous"
  | .geometry => .str "geometry"
  | .documentQuery element => .obj [("document_query", toJson element)]
  | .lambda => .str "lambda"
  | .void => .str "void"

/-- The type without parameters that has this tag. -/
def ofTag? : String → Option HostType
  | "object" => some .object
  | "boolean" => some .boolean
  | "int32" => some .int32
  | "int64" => some .int64
  | "u_int64" => some .uint64
  | "double" => some .double
  | "decimal" => some .decimal
  | "char" => some .char
  | "string" => some .string
  | "guid" => some .guid
  | "date_time" => some .dateTime
  | "anonymous" => some .anonymous
  | "geometry" => some .geometry
  | "lambda" => some .lambda
  | "void" => some .void
  | _ => none

def ofJson? (j : Json) : Option HostType :=
  match j.variant? with
  | none => none
  | some (tag, none) => ofTag? tag
  | some (tag, some ⟨v, _⟩) =>
    match tag, v with
    | "enum", .str name => some (.enum name)
    | "model", .str name => some (.model name)
    | "nullable", v => (ofJson? v).map .nullable
    | "array", v => (ofJson? v).map .array
    | "document_query", v => (ofJson? v).map .documentQuery
    | _, .null => ofTag? tag
    | _, _ => none
termination_by j

end HostType

end LambdaQuery
