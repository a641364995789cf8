import LambdaQuery.Host.Error
import LambdaQuery.Number.Shortest

/-!
# Errors of compilation
-/

set_option autoImplicit false

namespace LambdaQuery

/-- What the query language cannot say, or is not asked to. -/
inductive Unsupported where
  /-- A method without a rule. -/
  | unknownMethod (name : String)
  | operator (op : BinaryOp)
  /-- An operator between a string comparison and zero. -/
  | stringComparison (op : BinaryOp)
  | expression (kind : Expr.Kind)
  | construction (ty : HostType)
  | binding (member : String)
  | staticMember (owner : HostType) (name : String)
  | unboundParameter (name : String)
  /-- A query over documents as a value. -/
  | queryValue
  | preparedValue
  | nonFinite (x : Float)
  | functionNameMissing
  | functionName (name : String)
  | parameterName (name : String)
  /-- Anything but a query at the start of a chain of operators. -/
  | source (kind : Expr.Kind)
  /-- Anything but a query as the whole expression. -/
  | start (kind : Expr.Kind)
  | notLambda (method : String) (found : Expr.Kind)
  | lambdaArity (method : String)
  | resultSelector
  | compositeKey
  | countNotConstant (method : String)
  | countNegative (method : String) (n : Int64)
  | countNotInteger (method found : String)
  | notLast (method : String)
  | afterTake
  | afterSkip
  | afterGroupBy
  | composedAggregate
  | combinedLimits
  | combinedOffsets
  | escapeSource (method : String)

def Unsupported.message : Unsupported → String
  | .unknownMethod name => s!"Method '{name}' is not supported."
  | .operator op => s!"Binary operator {op.name} is not supported"
  | .stringComparison op => s!"Operator {op.name} is not supported for string comparison"
  | .expression kind => s!"Expression type {kind.text} is not supported"
  | .construction ty => s!"Constructor call on type {ty.text} is not supported"
  | .binding member => s!"Binding of member '{member}' is not supported"
  | .staticMember owner name => s!"Static member '{owner.text}.{name}' is not supported"
  | .unboundParameter name => s!"Parameter '{name}' is not bound"
  | .queryValue => "A query cannot be used as a scalar value"
  | .preparedValue => "A query spec cannot be used as a scalar value"
  | .nonFinite x => s!"Non-finite number {Shortest.plain.write x} is not supported"
  | .functionNameMissing => "User-defined function name must be a non-empty constant string"
  | .functionName name => s!"Invalid user-defined function name '{name}'"
  | .parameterName name => s!"Invalid query parameter name '{name}'"
  | .source kind => s!"Expression type {kind.text} is not supported as a query source"
  | .start kind => s!"Invalid expression: {kind.text} cannot start a query"
  | .notLambda method found => s!"Method '{method}' expects a lambda, found {found.text}"
  | .lambdaArity method => s!"Method '{method}' expects a lambda with one parameter"
  | .resultSelector =>
    "Method 'GroupBy' expects a result selector taking a key and a group"
  | .compositeKey => "GroupBy over a composite key is not supported"
  | .countNotConstant method => s!"The count argument of '{method}' must be a constant"
  | .countNegative method n =>
    s!"The count argument of '{method}' must not be negative, found {n}"
  | .countNotInteger method found =>
    s!"The count argument of '{method}' must be an integer, found {found}"
  | .notLast method => s!"Method '{method}' is only supported as the last operation of a query"
  | .afterTake => "LINQ operations after a Take() is not supported"
  | .afterSkip => "LINQ operations after a Skip() is not supported"
  | .afterGroupBy => "GroupBy cannot be followed by other methods"
  | .composedAggregate => "An aggregate query cannot be composed further"
  | .combinedLimits => "Cannot combine row limits when one of them is a query parameter"
  | .combinedOffsets => "Cannot combine offsets when one of them is a query parameter"
  | .escapeSource method => s!"Method '{method}' must be called on a query root"

/-- What is wrong with the text that stands for a query. -/
inductive EscapeFault where
  | nullText
  | notText (found : String)

def EscapeFault.message : EscapeFault → String
  | .nullText => "query text evaluated to null"
  | .notText found => s!"expected a string or a query spec, found {found}"

/-- A clause that is set where it must not be. -/
inductive Violation where
  | selectSet
  | groupBySet
  | thenByAlone
  | secondOrderBy
  | operationSet
  deriving DecidableEq

def Violation.message : Violation → String
  | .selectSet => "A SELECT clause is already set on this query stage"
  | .groupBySet => "A GROUP BY clause is already set on this query stage"
  | .thenByAlone => "ThenBy requires a preceding OrderBy"
  | .secondOrderBy => "Multiple ORDER BY clauses are not supported"
  | .operationSet => "Client operation is already set"

/-- Why an expression has no query. -/
inductive CompileError where
  | unsupported (why : Unsupported)
  | argumentCount (method : String) (expected actual : Nat)
  | malformedEscape (why : EscapeFault)
  | structural (why : Violation)
  | host (error : HostError)

def CompileError.message : CompileError → String
  | .unsupported why => why.message
  | .argumentCount method expected actual =>
    s!"Method '{method}' is expected to have {expected} arguments, but it has {actual}"
  | .malformedEscape why => "Malformed query escape: " ++ why.message
  | .structural why => "Internal error: " ++ why.message
  | .host error => error.message

end LambdaQuery
