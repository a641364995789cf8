/-!
# The query language

Scalar expressions and queries of the target language. A query selects one value per row; its rows
come from a list of sources, each of which sees the names that the ones before it bind.
-/

set_option autoImplicit false

namespace LambdaQuery

inductive Literal where
  | null
  | undefined
  | boolean (b : Bool)
  | integer (n : Int64)
  | double (x : Float)
  | string (s : String)

inductive QueryBinaryOp where
  | add
  | and
  | bitwiseAnd
  | bitwiseOr
  | bitwiseXor
  | coalesce
  | divide
  | equal
  | greaterThan
  | greaterThanOrEqual
  | lessThan
  | lessThanOrEqual
  | modulo
  | multiply
  | notEqual
  | or
  | stringConcat
  | subtract
  deriving DecidableEq, Inhabited

def QueryBinaryOp.symbol : QueryBinaryOp → String
  | .add => "+"
  | .and => "AND"
  | .bitwiseAnd => "&"
  | .bitwiseOr => "|"
  | .bitwiseXor => "^"
  | .coalesce => "??"
  | .divide => "/"
  | .equal => "="
  | .greaterThan => ">"
  | .greaterThanOrEqual => ">="
  | .lessThan => "<"
  | .lessThanOrEqual => "<="
  | .modulo => "%"
  | .multiply => "*"
  | .notEqual => "!="
  | .or => "OR"
  | .stringConcat => "||"
  | .subtract => "-"

inductive QueryUnaryOp where
  | bitwiseNot
  | not
  | minus
  | plus
  deriving DecidableEq, Inhabited

def QueryUnaryOp.symbol : QueryUnaryOp → String
  | .bitwiseNot => "~"
  | .not => "NOT"
  | .minus => "-"
  | .plus => "+"

/-- A number of rows: a literal or a parameter of the query. -/
inductive Count where
  | literal (n : Int64)
  | parameter (name : String)
  deriving DecidableEq

mutual

inductive Scalar where
  | literal (value : Literal)
  /-- A name that a source of this query or of an enclosing one binds. -/
  | ref (name : String)
  | index (object key : Scalar)
  | binary (op : QueryBinaryOp) (left right : Scalar)
  | unary (op : QueryUnaryOp) (operand : Scalar)
  | call (name : String) (args : List Scalar) (udf : Bool)
  | array (items : List Scalar)
  | object (properties : List (String × Scalar))
  | conditional (test ifTrue ifFalse : Scalar)
  | isIn (item : Scalar) (items : List Scalar) (negated : Bool)
  | parameter (name : String)
  /-- Whether a query has a row. -/
  | exists (query : Query)
  /-- The rows of a query as an array. -/
  | arrayOf (query : Query)
  /-- The row of a query with one row. -/
  | subquery (query : Query)

/-- What a query selects: whole rows, or a value per row. -/
inductive Projection where
  | star
  | value (value : Scalar)

structure Selection where
  projection : Projection
  distinct : Bool
  top : Option Count

/-- A source of rows and the name that it binds. -/
inductive Source where
  | container (name : String)
  | items (name : String) (path : Scalar)
  | subquery (name : String) (query : Query)

structure SortKey where
  value : Scalar
  descending : Bool

structure Query where
  selection : Selection
  sources : List Source
  filter : Option Scalar
  groupBy : List Scalar
  orderBy : List SortKey
  offset : Option Count
  limit : Option Count

end

namespace Scalar

def null : Scalar := .literal .null

def boolean (b : Bool) : Scalar := .literal (.boolean b)

def integer (n : Int64) : Scalar := .literal (.integer n)

def double (x : Float) : Scalar := .literal (.double x)

def string (s : String) : Scalar := .literal (.string s)

/-- The property `name` of an object. -/
def property (object : Scalar) (name : String) : Scalar := .index object (.string name)

/-- A call of a function of the query language. -/
def builtin (name : String) (args : List Scalar) : Scalar := .call name args false

def and (left right : Scalar) : Scalar := .binary .and left right

def equal (left right : Scalar) : Scalar := .binary .equal left right

def isNonNullLiteral : Scalar → Bool
  | .literal .null => false
  | .literal _ => true
  | _ => false

def isIndex : Scalar → Bool
  | .index .. => true
  | _ => false

/-- Whether the scalar is the bare name. -/
def isRef (name : String) : Scalar → Bool
  | .ref n => n == name
  | _ => false

def aggregates : List String := ["AVG", "COUNT", "MAX", "MIN", "SUM"]

/-- Whether a scalar aggregates the rows: a call of an aggregate function, or an operation on
one. -/
def isAggregate : Scalar → Bool
  | .call name _ udf => !udf && aggregates.contains name
  | .binary _ left right => isAggregate left || isAggregate right
  | _ => false

end Scalar

namespace Selection

/-- The selection of a value, of all rows. -/
def ofValue (value : Scalar) : Selection := ⟨.value value, false, none⟩

def value? (s : Selection) : Option Scalar :=
  match s.projection with
  | .value value => some value
  | .star => none

def hasAggregate (s : Selection) : Bool :=
  match s.value? with
  | some value => value.isAggregate
  | none => false

end Selection

def Source.name : Source → String
  | .container name | .items name _ | .subquery name _ => name

end LambdaQuery
