import LambdaQuery.Host.Expr.Build

/-!
# Chains of query operators

A `Queryable` is a query expression with the type of its elements. Every operator wraps the
expression as the first argument of a call; the operators that end a chain give a plain expression.
-/

set_option autoImplicit false

namespace LambdaQuery

structure Queryable where
  expr : Expr
  element : HostType

namespace Queryable

/-- The query over all documents of a type. -/
def root (element : HostType) : Queryable := ⟨.null (.documentQuery element), element⟩

/-- Continues a chain of which the expression is known. -/
def ofExpr (e : Expr) : Queryable := ⟨e, e.ty.element?.getD .object⟩

/-- Query text in place of operators. -/
def fromText (q : Queryable) (text : Expr) : Queryable :=
  ⟨.staticCall ⟨.queryEscape, "FromSql"⟩ [q.expr, text] (.documentQuery q.element), q.element⟩

/-- A call of an operator. -/
def call (q : Queryable) (method : String) (args : List Expr) (ty : HostType) : Expr :=
  .staticCall ⟨.queryable, method⟩ (q.expr :: args) ty

/-! ## Operators -/

/-- An operator that gives a query over `element`. -/
def compose (q : Queryable) (method : String) (args : List Expr) (element : HostType) :
    Queryable :=
  ⟨q.call method args (.documentQuery element), element⟩

def filter (q : Queryable) (predicate : Lambda) : Queryable :=
  q.compose "Where" [.quote predicate] q.element

def select (q : Queryable) (selector : Lambda) : Queryable :=
  q.compose "Select" [.quote selector] selector.body.ty

def selectMany (q : Queryable) (selector : Lambda) : Queryable :=
  q.compose "SelectMany" [.quote selector] (selector.body.ty.element?.getD .object)

/-- Groups by a key; `result` makes one element from each key and its group. -/
def groupBy (q : Queryable) (key result : Lambda) : Queryable :=
  q.compose "GroupBy" [.quote key, .quote result] result.body.ty

def orderBy (q : Queryable) (key : Lambda) : Queryable :=
  q.compose "OrderBy" [.quote key] q.element

def orderByDescending (q : Queryable) (key : Lambda) : Queryable :=
  q.compose "OrderByDescending" [.quote key] q.element

def thenBy (q : Queryable) (key : Lambda) : Queryable :=
  q.compose "ThenBy" [.quote key] q.element

def thenByDescending (q : Queryable) (key : Lambda) : Queryable :=
  q.compose "ThenByDescending" [.quote key] q.element

/-- Takes as many elements as an expression says. -/
def takeExpr (q : Queryable) (count : Expr) : Queryable := q.compose "Take" [count] q.element

def take (q : Queryable) (count : Int64) : Queryable := q.takeExpr (.int count)

/-- Skips as many elements as an expression says. -/
def skipExpr (q : Queryable) (count : Expr) : Queryable := q.compose "Skip" [count] q.element

def skip (q : Queryable) (count : Int64) : Queryable := q.skipExpr (.int count)

def distinct (q : Queryable) : Queryable := q.compose "Distinct" [] q.element

/-! ## Operators that end a chain -/

def count (q : Queryable) : Expr := q.call "Count" [] .int32

def countWhere (q : Queryable) (predicate : Lambda) : Expr :=
  q.call "Count" [.quote predicate] .int32

def sum (q : Queryable) (selector : Lambda) : Expr :=
  q.call "Sum" [.quote selector] selector.body.ty

def min (q : Queryable) (selector : Lambda) : Expr :=
  q.call "Min" [.quote selector] selector.body.ty

def max (q : Queryable) (selector : Lambda) : Expr :=
  q.call "Max" [.quote selector] selector.body.ty

def average (q : Queryable) (selector : Lambda) : Expr :=
  q.call "Average" [.quote selector] .double

/-- An aggregate of the elements themselves. -/
def aggregate (q : Queryable) (method : String) : Expr := q.call method [] q.element

def any (q : Queryable) : Expr := q.call "Any" [] .boolean

def anyWhere (q : Queryable) (predicate : Lambda) : Expr :=
  q.call "Any" [.quote predicate] .boolean

def firstOrDefault (q : Queryable) : Expr := q.call "FirstOrDefault" [] q.element

end Queryable

end LambdaQuery
