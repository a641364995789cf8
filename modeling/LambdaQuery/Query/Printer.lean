import LambdaQuery.Number.Shortest
import LambdaQuery.Query.Basic
import LambdaQuery.Text.Quoted

/-!
# Query texts

`Query.text` writes a query on one line and `Query.pretty` with a clause a line. Operators are
always in parentheses, so that no text depends on precedence; nested queries stay on one line.
-/

set_option autoImplicit false

namespace LambdaQuery

/-- Control characters, of which there are two ranges, are escaped in strings. -/
def Query.quoting : Text.Quoted.Style where
  short
    | '"' => some '"'
    | '\\' => some '\\'
    | '\n' => some 'n'
    | '\r' => some 'r'
    | '\t' => some 't'
    | _ => none
  coded c := decide (c.toNat < 0x20) || decide (0x7F ≤ c.toNat ∧ c.toNat ≤ 0x9F)

/-- A string literal. -/
def Query.quote (s : String) : String := Text.Quoted.write Query.quoting s

def Literal.text : Literal → String
  | .null => "null"
  | .undefined => "undefined"
  | .boolean b => if b then "true" else "false"
  | .integer n => toString n
  | .double x => Shortest.plain.write x
  | .string s => Query.quote s

def Count.text : Count → String
  | .literal n => toString n
  | .parameter name => name

/-- The limit of a query that has an offset alone. -/
def Query.unlimited : Int64 := 2147483647

/-- The clause of offset and limit, of which both are written once there is one. -/
def Query.window (offset limit : Option Count) : List String :=
  match offset, limit with
  | none, none => []
  | _, _ =>
    ["OFFSET " ++ (offset.getD (.literal 0)).text ++
      " LIMIT " ++ (limit.getD (.literal Query.unlimited)).text]

mutual

def Scalar.text : Scalar → String
  | .literal value => value.text
  | .ref name => name
  | .index object key => object.text ++ "[" ++ key.text ++ "]"
  | .binary op left right => "(" ++ left.text ++ " " ++ op.symbol ++ " " ++ right.text ++ ")"
  | .unary op operand => "(" ++ op.symbol ++ " " ++ operand.text ++ ")"
  | .call name args udf =>
    (if udf then "udf." else "") ++ name ++ "(" ++ ", ".intercalate (Scalar.texts args) ++ ")"
  | .array items => "[" ++ ", ".intercalate (Scalar.texts items) ++ "]"
  | .object properties =>
    "\x7b" ++ ", ".intercalate (Scalar.propertyTexts properties) ++ "\x7d"
  | .conditional test ifTrue ifFalse =>
    "(" ++ test.text ++ " ? " ++ ifTrue.text ++ " : " ++ ifFalse.text ++ ")"
  | .isIn item items negated =>
    "(" ++ item.text ++ " " ++ (if negated then "NOT " else "") ++ "IN (" ++
      ", ".intercalate (Scalar.texts items) ++ "))"
  | .parameter name => name
  | .exists query => "EXISTS(" ++ " ".intercalate query.clauses ++ ")"
  | .arrayOf query => "ARRAY(" ++ " ".intercalate query.clauses ++ ")"
  | .subquery query => "(" ++ " ".intercalate query.clauses ++ ")"

def Scalar.texts : List Scalar → List String
  | [] => []
  | s :: ss => s.text :: Scalar.texts ss

def Scalar.propertyTexts : List (String × Scalar) → List String
  | [] => []
  | (name, s) :: ps => (Query.quote name ++ ": " ++ s.text) :: Scalar.propertyTexts ps

def Projection.text : Projection → String
  | .star => "*"
  | .value value => "VALUE " ++ value.text

def Selection.text : Selection → String
  | ⟨projection, distinct, top⟩ =>
    "SELECT " ++ (if distinct then "DISTINCT " else "") ++
      (match top with
        | some count => "TOP " ++ count.text ++ " "
        | none => "") ++ projection.text

def Source.text : Source → String
  | .container name => name
  | .items name path => name ++ " IN " ++ path.text
  | .subquery name query => "(" ++ " ".intercalate query.clauses ++ ") AS " ++ name

def Source.texts : List Source → List String
  | [] => []
  | s :: ss => s.text :: Source.texts ss

def SortKey.text : SortKey → String
  | ⟨value, descending⟩ => value.text ++ (if descending then " DESC" else " ASC")

def SortKey.texts : List SortKey → List String
  | [] => []
  | k :: ks => k.text :: SortKey.texts ks

/-- The clause of a filter. -/
def Query.filterClause : Option Scalar → List String
  | none => []
  | some filter => ["WHERE " ++ filter.text]

/-- The clauses of a query in the order in which they are written. -/
def Query.clauses : Query → List String
  | ⟨selection, sources, filter, groupBy, orderBy, offset, limit⟩ =>
    selection.text :: ("FROM " ++ " JOIN ".intercalate (Source.texts sources)) ::
      (Query.filterClause filter ++
        (if groupBy.isEmpty then []
          else ["GROUP BY " ++ ", ".intercalate (Scalar.texts groupBy)]) ++
        (if orderBy.isEmpty then []
          else ["ORDER BY " ++ ", ".intercalate (SortKey.texts orderBy)]) ++
        Query.window offset limit)

end

/-- The query on one line. -/
def Query.text (q : Query) : String := " ".intercalate q.clauses

/-- The query with a clause a line. -/
def Query.pretty (q : Query) : String := "\n".intercalate q.clauses

end LambdaQuery
