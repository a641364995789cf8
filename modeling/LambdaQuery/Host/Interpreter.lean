import LambdaQuery.Host.Folding
import LambdaQuery.Host.Interpreter.Methods

/-!
# The interpreter

`Interpreter.evaluate` gives the value of a host expression without lambdas. Static members and the
functions of host types are those that were registered.
-/

set_option autoImplicit false

namespace LambdaQuery

abbrev HostFunction := List Value → Except HostError Value

structure Interpreter where
  /-- Host functions by `Type.Method`; constructors are called `Type.new`. -/
  functions : Record HostFunction
  /-- The values of static members by `Type.Member`. -/
  statics : Record Value

namespace Interpreter

def empty : Interpreter := ⟨[], []⟩

def withFunction (i : Interpreter) (qualified : String) (f : HostFunction) : Interpreter :=
  { i with functions := Record.set i.functions qualified f }

def withStatic (i : Interpreter) (qualified : String) (v : Value) : Interpreter :=
  { i with statics := Record.set i.statics qualified v }

def callFunction (i : Interpreter) (qualified : String) (args : List Value) :
    Except HostError Value :=
  match Record.get? i.functions qualified with
  | some f => f args
  | none => .error (.unknownFunction qualified)

def call (i : Interpreter) (method : Method) (target : Option Value) (args : List Value) :
    Except HostError Value :=
  match method.declaring with
  | .host qualified => i.callFunction s!"{qualified}.{method.name}" (target.toList ++ args)
  | .string => Value.callString method.name target args
  | .math => Value.callMath method.name args
  | .object => Value.callObject method.name target args
  | .enumerable | .list => Value.callSequence method.name target args
  | .queryable | .typeCheck | .userFunction | .queryEscape =>
    .error (.unknownFunction s!"{method.name} cannot be evaluated on the client")

/-- The object of a constructor call: its members' values, what a registered constructor gives, or
an object without fields. -/
def construct (i : Interpreter) (ty : HostType) (members : Option (List Member))
    (args : List Value) : Except HostError Value :=
  match members with
  | some members => .ok (.object (Record.ofList ((members.map (·.name)).zip args)))
  | none =>
    let constructor := s!"{ty.text}.new"
    match Record.get? i.functions constructor with
    | some f => f args
    | none => if args.isEmpty then .ok (.object []) else .error (.unknownFunction constructor)

mutual

def evaluate (i : Interpreter) : Expr → Except HostError Value
  | .constant value _ => .ok value
  | .parameter name _ => .error (.unboundParameter name)
  | .member (some object) accessed _ => do
    (← i.evaluate object).member object.ty accessed.name
  | .member none accessed _ =>
    let qualified := s!"{accessed.owner.text}.{accessed.name}"
    match Record.get? i.statics qualified with
    | some v => .ok v
    | none => .error (.unknownMember qualified)
  | .binary .coalesce left right _ => do
    let v ← i.evaluate left
    if v.isNull then i.evaluate right else return v
  | .binary .andAlso left right _ => do
    if ← (← i.evaluate left).expectBool then
      return .boolean (← (← i.evaluate right).expectBool)
    else return .boolean false
  | .binary .orElse left right _ => do
    if ← (← i.evaluate left).expectBool then return .boolean true
    else return .boolean (← (← i.evaluate right).expectBool)
  | .binary op left right _ => do
    let a ← i.evaluate left
    let b ← i.evaluate right
    Value.binary op a b
  | .unary op operand ty => do Value.unary op (← i.evaluate operand) ty
  | .conditional test ifTrue ifFalse _ => do
    if ← (← i.evaluate test).expectBool then i.evaluate ifTrue else i.evaluate ifFalse
  | .call target method args _ => do
    let target ← i.evaluateOption target
    i.call method target (← i.evaluateList args)
  | .construct args members ty => do i.construct ty members (← i.evaluateList args)
  | .memberInit base bindings _ => do
    match ← i.evaluate base with
    | .object fields => return .object (← i.initialized fields bindings)
    | v => throw (.typeError (.initialized v.kindName))
  | .listInit _ items _ => do return .array (← i.evaluateList items)
  | .newArray items _ => do return .array (← i.evaluateList items)
  | .lambda .. => .error (.typeError .lambdaValue)
  | .invoke .. => .error (.typeError .invocation)

def evaluateOption (i : Interpreter) : Option Expr → Except HostError (Option Value)
  | none => .ok none
  | some e => do return some (← i.evaluate e)

def evaluateList (i : Interpreter) : List Expr → Except HostError (List Value)
  | [] => .ok []
  | e :: es => do return (← i.evaluate e) :: (← i.evaluateList es)

/-- The fields of an object after the bindings of an initialiser. -/
def initialized (i : Interpreter) (fields : List (String × Value)) :
    List Binding → Except HostError (List (String × Value))
  | [] => .ok fields
  | .assign member value :: rest => do
    i.initialized (Record.set fields member.name (← i.evaluate value)) rest
  | .nested member _ :: _ | .collect member _ :: _ =>
    .error (.typeError (.nestedBinding member.name))

end

end Interpreter

end LambdaQuery
