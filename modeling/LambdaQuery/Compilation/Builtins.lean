import LambdaQuery.Text.Search
import LambdaQuery.Compilation.Literal

/-!
# Builtin functions

The calls of the host library that the query language has functions for. The operands of a call come
with the computations of their scalars, which a rule runs in its own order; a rule that gives `none`
does not know the call.
-/

set_option autoImplicit false

namespace LambdaQuery

/-- An expression and the computation of its scalar. -/
structure Operand where
  expr : Expr
  scalar : Compilation Scalar

namespace Builtin

/-- The scalars of operands, from left to right. -/
def all (operands : List Operand) : Compilation (List Scalar) := operands.mapM (·.scalar)

/-- The items of an operand that builds an array. -/
def itemsOf (operand : Operand) : Compilation (List Scalar) := do
  match ← operand.scalar with
  | .array items => return items
  | s => return [s]

/-- Whether an argument asks to ignore case: a flag, the name of a comparison, or the number of one,
where the odd ones ignore case. -/
def ignoresCase? (arg : Expr) : Option Bool :=
  match arg.asConstant? with
  | some (.boolean b) => some b
  | some (.string s) => some (Text.endsWith s "IgnoreCase")
  | some (.integer n) => some (n.toInt.tmod 2 == 1)
  | _ => none

/-- The function for a test of one string against another. -/
def stringTest? : String → Option String
  | "Contains" => some "CONTAINS"
  | "StartsWith" => some "STARTSWITH"
  | "EndsWith" => some "ENDSWITH"
  | _ => none

/-- The function for a method of strings without arguments. -/
def stringFunction? : String → Option String
  | "ToLower" | "ToLowerInvariant" => some "LOWER"
  | "ToUpper" | "ToUpperInvariant" => some "UPPER"
  | "Trim" => some "TRIM"
  | "TrimStart" => some "LTRIM"
  | "TrimEnd" => some "RTRIM"
  | "Reverse" => some "REVERSE"
  | "ToString" => some "ToString"
  | _ => none

/-- Equality of strings, which may ignore case. -/
def stringEquals (ignoreCase : Bool) (a b : Scalar) : Scalar :=
  if ignoreCase then .builtin "STRINGEQUALS" [a, b, .boolean true] else .equal a b

/-- A method of a string. -/
def stringMethod? (name : String) (target : Operand) (args : List Operand) :
    Compilation (Option Scalar) := do
  let subject ← target.scalar
  match name, args with
  | "IndexOf", [part] => return some (.builtin "INDEX_OF" [subject, ← part.scalar])
  | "IndexOf", [part, start] =>
    return some (.builtin "INDEX_OF" [subject, ← part.scalar, ← start.scalar])
  | "Replace", [part, new] =>
    return some (.builtin "REPLACE" [subject, ← part.scalar, ← new.scalar])
  | "Substring", [start] =>
    return some (.builtin "SUBSTRING"
      [subject, ← start.scalar, .builtin "LENGTH" [subject]])
  | "Substring", [start, length] =>
    return some (.builtin "SUBSTRING" [subject, ← start.scalar, ← length.scalar])
  | "get_Chars", [index] =>
    return some (.builtin "SUBSTRING" [subject, ← index.scalar, .integer 1])
  | "Equals", [other] => return some (.equal subject (← other.scalar))
  | "Equals", [other, comparison] =>
    let other ← other.scalar
    return (ignoresCase? comparison.expr).map (stringEquals · subject other)
  | name, [] => return (stringFunction? name).map (.builtin · [subject])
  | name, [part] =>
    match stringTest? name with
    | some function => return some (.builtin function [subject, ← part.scalar])
    | none => return none
  | name, [part, comparison] =>
    match stringTest? name, ignoresCase? comparison.expr with
    | some function, some ignoreCase =>
      let part ← part.scalar
      return some (.builtin function
        (if ignoreCase then [subject, part, .boolean true] else [subject, part]))
    | _, _ => return none
  | _, _ => return none

/-- A function of strings that is called on none. -/
def staticStringMethod? (name : String) (args : List Operand) : Compilation (Option Scalar) := do
  match name, args with
  | "Concat", [parts] =>
    match parts.expr with
    | .newArray .. => return some (.builtin "CONCAT" (← itemsOf parts))
    | _ => return none
  | "Concat", _ :: _ => return some (.builtin "CONCAT" (← all args))
  | "Reverse", [subject] => return some (.builtin "REVERSE" [← subject.scalar])
  | "IsNullOrEmpty", [subject] =>
    let subject ← subject.scalar
    return some (.binary .or (.equal subject .null) (.equal subject (.string "")))
  | "Equals", [a, b] => return some (.equal (← a.scalar) (← b.scalar))
  | "Equals", [a, b, comparison] =>
    let a ← a.scalar
    let b ← b.scalar
    return (ignoresCase? comparison.expr).map (stringEquals · a b)
  | _, _ => return none

/-- The function for a method of numbers with so many arguments. -/
def mathFunction? (name : String) (argCount : Nat) : Option String :=
  match name, argCount with
  | "Abs", 1 => some "ABS"
  | "Acos", 1 => some "ACOS"
  | "Asin", 1 => some "ASIN"
  | "Atan", 1 => some "ATAN"
  | "Atan2", 2 => some "ATN2"
  | "Ceiling", 1 => some "CEILING"
  | "Cos", 1 => some "COS"
  | "Exp", 1 => some "EXP"
  | "Floor", 1 => some "FLOOR"
  | "Log", 1 | "Log", 2 => some "LOG"
  | "Log10", 1 => some "LOG10"
  | "Pow", 2 => some "POWER"
  | "Round", 1 => some "ROUND"
  | "Sign", 1 => some "SIGN"
  | "Sin", 1 => some "SIN"
  | "Sqrt", 1 => some "SQRT"
  | "Tan", 1 => some "TAN"
  | "Truncate", 1 => some "TRUNC"
  | _, _ => none

def mathMethod? (name : String) (args : List Operand) : Compilation (Option Scalar) := do
  match mathFunction? name args.length with
  | some function => return some (.builtin function (← all args))
  | none => return none

/-- Whether an expression lists its items. -/
def isInlineList : Expr → Bool
  | .constant (.array _) _ | .newArray .. => true
  | _ => false

/-- Whether a sequence has an item: `IN` for a list in the query, of which an empty one has none,
and a function for an array in the document. -/
def contains (source item : Operand) : Compilation Scalar := do
  let sequence ← source.scalar
  match sequence, isInlineList source.expr with
  | .array [], true => return .boolean false
  | .array items, true => return .isIn (← item.scalar) items false
  | _, _ => return .builtin "ARRAY_CONTAINS" [sequence, ← item.scalar]

/-- A method of sequences, the first of `target` and `args`. -/
def sequenceMethod? (name : String) (target : Option Operand) (args : List Operand) :
    Compilation (Option Scalar) := do
  match name, target.toList ++ args with
  | "Contains", [source, item] => return some (← contains source item)
  | "Concat", [source, other] =>
    return some (.builtin "ARRAY_CONCAT" [← source.scalar, ← other.scalar])
  | "Count", [source] => return some (.builtin "ARRAY_LENGTH" [← source.scalar])
  | _, _ => return none

/-- A check of the type of a value. -/
def typeCheck? (name : String) (args : List Operand) : Compilation (Option Scalar) := do
  let function? :=
    match name with
    | "IsDefined" => some "IS_DEFINED"
    | "IsNull" => some "IS_NULL"
    | "IsPrimitive" => some "IS_PRIMITIVE"
    | _ => none
  match function?, args with
  | none, _ => return none
  | some function, [subject] => return some (.builtin function [← subject.scalar])
  | some _, args => throw (.argumentCount name 1 args.length)

/-- A method that every object has. -/
def objectMethod? (name : String) (target : Option Operand) (args : List Operand) :
    Compilation (Option Scalar) := do
  match name, target, args with
  | "ToString", some target, [] => return some (.builtin "ToString" [← target.scalar])
  | "Equals", some target, [other] =>
    return some (.equal (← target.scalar) (← other.scalar))
  | _, _, _ => return none

/-- A call that is not a query operator. -/
def call (method : Method) (target : Option Operand) (args : List Operand) :
    Compilation Scalar := do
  let found ←
    match method.declaring, target with
    | .string, some target => stringMethod? method.name target args
    | .string, none => staticStringMethod? method.name args
    | .math, _ => mathMethod? method.name args
    | .enumerable, target | .list, target => sequenceMethod? method.name target args
    | .typeCheck, _ => typeCheck? method.name args
    | .object, target => objectMethod? method.name target args
    | .queryable, _ | .userFunction, _ | .queryEscape, _ | .host _, _ => pure none
  match found with
  | some s => return s
  | none => throw (.unsupported (.unknownMethod method.text))

end Builtin

end LambdaQuery
