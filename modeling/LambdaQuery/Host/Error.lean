import LambdaQuery.Host.Expr.Basic

/-!
# Errors of host evaluation
-/

set_option autoImplicit false

namespace LambdaQuery

/-- What is wrong with the type of a value; kinds are named as by `Value.kindName`. -/
inductive TypeFault where
  | expectedBoolean (found : String)
  | expectedString (found : String)
  | expectedNumber (found : String)
  | operands (op : BinaryOp) (left right : String)
  | unevaluatedOperands (op : BinaryOp)
  | comparison (left right : String)
  | negation (found : String)
  | logicalNot (found : String)
  | complement (found : String)
  | length (found : String)
  | overflow
  | indexOutOfRange (index : Int64)
  | emptyNullable
  | memberOfNull (name : String)
  | initialized (found : String)
  | nestedBinding (member : String)
  | lambdaValue
  | quotedLambdaValue
  | invocation
  | ordinal (n : Int64)
  deriving DecidableEq

def TypeFault.message : TypeFault → String
  | .expectedBoolean found => s!"Expected boolean, found {found}"
  | .expectedString found => s!"Expected string, found {found}"
  | .expectedNumber found => s!"Expected number, found {found}"
  | .operands op left right => s!"Cannot apply {op.name} to {left} and {right}"
  | .unevaluatedOperands op => s!"{op.name} needs its operands unevaluated"
  | .comparison left right => s!"Cannot compare {left} and {right}"
  | .negation found => s!"Cannot negate {found}"
  | .logicalNot found => s!"Cannot apply not to {found}"
  | .complement found => s!"Cannot complement {found}"
  | .length found => s!"Cannot take the length of {found}"
  | .overflow => "Arithmetic overflow"
  | .indexOutOfRange index => s!"Index {index} is out of range"
  | .emptyNullable => "Nullable object must have a value"
  | .memberOfNull name => s!"Cannot read member {name} of null"
  | .initialized found => s!"Cannot initialize members of {found}"
  | .nestedBinding member => s!"Nested initialization of member {member} is not supported"
  | .lambdaValue => "A lambda is not a value"
  | .quotedLambdaValue => "A quoted lambda is not a value"
  | .invocation => "Delegate invocation is not supported"
  | .ordinal n => s!"No enum variant with ordinal {n}"

/-- Why an expression has no value on the host. -/
inductive HostError where
  | typeError (fault : TypeFault)
  /-- A lambda's parameter outside of the lambda. -/
  | unboundParameter (name : String)
  | unknownFunction (name : String)
  | unknownMember (name : String)
  | divisionByZero
  /-- A failure of a host function itself. -/
  | raised (text : String)
  deriving DecidableEq

def HostError.message : HostError → String
  | .typeError fault => "Type error: " ++ fault.message
  | .unboundParameter name => "Unbound parameter: " ++ name
  | .unknownFunction name => "Unknown host function: " ++ name
  | .unknownMember name => "Unknown member: " ++ name
  | .divisionByZero => "Division by zero"
  | .raised text => text

end LambdaQuery
