import LambdaQuery.Host.Interpreter.Operators
import LambdaQuery.Text.Blank
import LambdaQuery.Text.Case
import LambdaQuery.Text.Search

/-!
# Methods of the host library

The methods of strings, numbers, sequences and objects that have values on the host.
-/

set_option autoImplicit false

namespace LambdaQuery.Value

/-- The text of a string or a character. -/
def expectText (v : Value) : Except HostError String :=
  match v with
  | .string s => .ok s
  | .char c => .ok (String.singleton c)
  | v => .error (.typeError (.expectedString v.kindName))

def ordinal : Ordering → Int64
  | .lt => -1
  | .eq => 0
  | .gt => 1

/-- A method of the string `s`. -/
def stringMethod (name : String) (s : String) (args : List Value) : Except HostError Value := do
  match name, args with
  | "ToUpper", [] => return .string (Text.upper s)
  | "ToLower", [] => return .string (Text.lower s)
  | "Trim", [] => return .string (Text.trim s)
  | "TrimStart", [] => return .string (Text.trimStart s)
  | "TrimEnd", [] => return .string (Text.trimEnd s)
  | "Contains", [part] => return .boolean (Text.contains s (← expectText part))
  | "StartsWith", [part] => return .boolean (Text.startsWith s (← expectText part))
  | "EndsWith", [part] => return .boolean (Text.endsWith s (← expectText part))
  | "Replace", [part, new] => return .string (Text.replace s (← expectText part) (← expectText new))
  | "CompareTo", [other] => return .integer (ordinal (compare s (← expectText other)))
  | _, _ => throw (.unknownFunction s!"string.{name}")

/-- A method of strings; `Concat` alone needs no string to be called on. -/
def callString (name : String) (target : Option Value) (args : List Value) :
    Except HostError Value := do
  match target with
  | none =>
    if name == "Concat" then return .string (String.join (args.map text))
    else throw (.unknownFunction s!"string.{name}")
  | some v => stringMethod name (← v.expectText) args

def expectNumber (v : Value) : Except HostError Float :=
  match v.toFloat? with
  | some x => .ok x
  | none => .error (.typeError (.expectedNumber v.kindName))

/-- A method of numbers, computed on doubles. -/
def mathMethod? (name : String) (args : List Float) : Option Float :=
  match name, args with
  | "Abs", [x] => some x.abs
  | "Ceiling", [x] => some (Double.round .up x)
  | "Floor", [x] => some (Double.round .down x)
  | "Round", [x] => some (Double.round .nearest x)
  | "Truncate", [x] => some (Double.round .towardZero x)
  | "Sqrt", [x] => some x.sqrt
  | "Exp", [x] => some x.exp
  | "Log", [x] => some x.log
  | "Log10", [x] => some x.log10
  | "Pow", [x, y] => some (x ^ y)
  | "Max", [x, y] => some (Double.maximum x y)
  | "Min", [x, y] => some (Double.minimum x y)
  | _, _ => none

def isInteger : Value → Bool
  | .integer _ => true
  | _ => false

/-- A method of numbers. A whole result for integers is an integer, except of roots and powers. -/
def callMath (name : String) (args : List Value) : Except HostError Value := do
  match mathMethod? name (← args.mapM expectNumber) with
  | none => throw (.unknownFunction s!"Math.{name}")
  | some x =>
    if args.all isInteger && Double.isIntegral x && name != "Sqrt" && name != "Pow" then
      return .integer (Double.toInt64 x)
    else return .float x

/-- A method of sequences, the first of `target` and `args`. -/
def callSequence (name : String) (target : Option Value) (args : List Value) :
    Except HostError Value :=
  match target.toList ++ args with
  | .array items :: rest =>
    match name, rest with
    | "Contains", [needle] => .ok (.boolean (items.any (·.equals needle)))
    | "Count", [] => .ok (.integer (Int64.ofNat items.length))
    | _, _ => .error (.unknownFunction name)
  | _ => .error (.unknownFunction name)

/-- A method that every object has. -/
def callObject (name : String) (target : Option Value) (args : List Value) :
    Except HostError Value :=
  match name, target, args with
  | "ToString", some v, _ => .ok (.string v.text)
  | "Equals", some v, [other] => .ok (.boolean (v.equals other))
  | _, _, _ => .error (.unknownFunction name)

end LambdaQuery.Value
