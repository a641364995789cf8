import LambdaQuery.Compilation.Builtins

/-!
# Compilation of expressions

`Compilation.scalar` gives the scalar of an expression inside a lambda, and `Compilation.rows` the
stage of a chain of query operators. They call each other: the arguments of operators are lambdas,
and an operator over an array inside a lambda is a nested query.
-/

set_option autoImplicit false

namespace LambdaQuery

/-- A lambda with one parameter inside of `arg`. -/
structure Selector (arg : Expr) where
  param : String
  body : Expr
  smaller : sizeOf body < sizeOf arg

namespace Compilation

/-! ## Shapes -/

/-- The lambda with one parameter that an operator takes as an argument. -/
def selector? (method : String) (arg : Expr) : Except CompileError (Selector arg) :=
  match arg.asLambda? with
  | none => .error (.unsupported (.notLambda method arg.kind))
  | some ⟨⟨[p], body⟩, h⟩ => .ok ⟨p.name, body, h⟩
  | some _ => .error (.unsupported (.lambdaArity method))

/-- The sides of a comparison of two strings that yields a number. -/
def comparedStrings? (e : Expr) :
    Option { p : Expr × Expr // sizeOf p.1 + sizeOf p.2 < sizeOf e } :=
  match e with
  | .call (some target) ⟨.string, "CompareTo"⟩ [arg] _ =>
    some ⟨(target, arg), by
      simp only [Expr.call.sizeOf_spec, Option.some.sizeOf_spec, List.cons.sizeOf_spec]; omega⟩
  | .call none ⟨.string, "Compare"⟩ [a, b] _ =>
    some ⟨(a, b), by
      simp only [Expr.call.sizeOf_spec, List.cons.sizeOf_spec]; omega⟩
  | _ => none

/-- Whether an expression is a constant zero. -/
def isZero (e : Expr) : Bool :=
  match e.asConstant?.bind (·.toInt64?) with
  | some n => n == 0
  | none => false

/-- The comparison with its sides exchanged. -/
def exchanged : BinaryOp → BinaryOp
  | .lessThan => .greaterThan
  | .lessThanOrEqual => .greaterThanOrEqual
  | .greaterThan => .lessThan
  | .greaterThanOrEqual => .lessThanOrEqual
  | op => op

/-- Strings that `left op right` compares by comparing a number with zero, and the comparison of the
strings that this means. -/
def stringComparison? (op : BinaryOp) (left right : Expr) :
    Option ({ p : Expr × Expr // sizeOf p.1 + sizeOf p.2 < sizeOf left + sizeOf right } ×
      BinaryOp) :=
  match comparedStrings? left, comparedStrings? right with
  | some ⟨p, h⟩, other =>
    if isZero right then some (⟨p, by omega⟩, op)
    else
      match other with
      | some ⟨p, h⟩ => if isZero left then some (⟨p, by omega⟩, exchanged op) else none
      | none => none
  | none, some ⟨p, h⟩ => if isZero left then some (⟨p, by omega⟩, exchanged op) else none
  | none, none => none

/-- The comparisons that strings have. -/
def comparesStrings : BinaryOp → Bool
  | .equal | .greaterThan | .greaterThanOrEqual | .lessThan | .lessThanOrEqual => true
  | _ => false

/-- The operator of the query language; `text` when strings are added. -/
def operator? (op : BinaryOp) (text : Bool) : Option QueryBinaryOp :=
  match op with
  | .add => some (if text then .stringConcat else .add)
  | .subtract => some .subtract
  | .multiply => some .multiply
  | .divide => some .divide
  | .modulo => some .modulo
  | .andAlso => some .and
  | .orElse => some .or
  | .and => some .bitwiseAnd
  | .or => some .bitwiseOr
  | .exclusiveOr => some .bitwiseXor
  | .equal => some .equal
  | .notEqual => some .notEqual
  | .lessThan => some .lessThan
  | .lessThanOrEqual => some .lessThanOrEqual
  | .greaterThan => some .greaterThan
  | .greaterThanOrEqual => some .greaterThanOrEqual
  | .coalesce => some .coalesce
  | .power | .leftShift | .rightShift | .arrayIndex => none

/-- A binary operation on scalars. -/
def combine (op : BinaryOp) (text : Bool) (left right : Scalar) :
    Except CompileError Scalar :=
  match op with
  | .arrayIndex => .ok (.index left right)
  | op =>
    match operator? op text with
    | some operator => .ok (.binary operator left right)
    | none => .error (.unsupported (.operator op))

/-- A unary operation on a scalar. Negation of a membership test is a test of its own. -/
def unaryOf (op : UnaryOp) (s : Scalar) : Scalar :=
  match op with
  | .convert | .quote | .typeAs => s
  | .not =>
    match s with
    | .isIn item items negated => .isIn item items !negated
    | s => .unary .not s
  | .negate => .unary .minus s
  | .unaryPlus => .unary .plus s
  | .onesComplement => .unary .bitwiseNot s
  | .arrayLength => .builtin "ARRAY_LENGTH" [s]

/-- The member of a scalar whose host type is `ty`. -/
def memberOf (naming : Naming) (ty : HostType) (m : Member) (s : Scalar) : Scalar :=
  if ty.isNullable && m.name == "Value" then s
  else if ty.isNullable && m.name == "HasValue" then .builtin "IS_DEFINED" [s]
  else
    match ty.underlying, m.name with
    | .string, "Length" => .builtin "LENGTH" [s]
    | .array _, "Length" | .array _, "Count" => .builtin "ARRAY_LENGTH" [s]
    | _, _ => .property s (naming.wireName m)

/-- The member that an expression reads, behind conversions and the value of a nullable. -/
def accessed? : Expr → Option Member
  | .member (some object) m _ =>
    if object.ty.isNullable && m.name == "Value" then accessed? object else some m
  | .member none m _ => some m
  | .unary .convert operand _ | .unary .typeAs operand _ => accessed? operand
  | _ => none

/-- A literal as it is stored in the member that it is compared with. -/
def encoded (naming : Naming) (member : Expr) (s : Scalar) : Compilation Scalar := do
  match (accessed? member).bind naming.converter?, s with
  | some converter, .literal value =>
    ofExcept (← ofHost (converter.convert value.toJson)).toScalar
  | _, _ => return s

/-- Both sides of a binary operation, a literal opposite of a member being encoded for it. -/
def matched (naming : Naming) (left right : Expr) (a b : Scalar) :
    Compilation (Scalar × Scalar) := do
  if a.isIndex && b.isNonNullLiteral then return (a, ← encoded naming left b)
  else if b.isIndex && a.isNonNullLiteral then return (← encoded naming right a, b)
  else return (a, b)

/-- The row whose group an operator aggregates. -/
def groupSource? (s : Scope) (method : Method) (args : List Expr) : Option Scalar :=
  match args with
  | .parameter name _ :: _ => if method.isOperator then s.groupRow? name else none
  | _ => none

/-- The operators that make a query out of an array. -/
def nestedOperators : List String :=
  ["Any", "Average", "Count", "Distinct", "Max", "Min", "OrderBy", "OrderByDescending", "Select",
   "SelectMany", "Skip", "Sum", "Take", "ThenBy", "ThenByDescending", "Where"]

def isOperatorCall : Expr → Bool
  | .call _ method _ _ => method.isOperator
  | _ => false

/-- Whether a call inside a lambda is a nested query. The number of items of an array alone is a
builtin function. -/
def isNestedQuery (target : Option Expr) (method : Method) (args : List Expr) : Bool :=
  target.isNone && method.isOperator && nestedOperators.contains method.name &&
    !(method.name == "Count" && args.length == 1 && !args.head?.any isOperatorCall)

/-- The scalar that a nested query is. The aggregates that no rows have are read as the item of an
array, which may be missing. -/
def nestedScalar (method : String) (query : Query) : Scalar :=
  match method with
  | "Any" => .exists query
  | "Count" | "Sum" => .subquery query
  | "Min" | "Max" | "Average" => .index (.arrayOf query) (.integer 0)
  | _ => .arrayOf query

/-- The aggregate function of an operator, other than counting. -/
def aggregate? : String → Option String
  | "Sum" => some "SUM"
  | "Min" => some "MIN"
  | "Max" => some "MAX"
  | "Average" => some "AVG"
  | _ => none

def countAll : Scalar := .builtin "COUNT" [.integer 1]

/-! ## Operators -/

/-- Operators that may follow a limit. -/
def allowedAfterTake : List String := ["Select", "Take", "FirstOrDefault"]

/-- Operators that may follow an offset. -/
def allowedAfterSkip : List String := ["Select", "Take", "Skip", "FirstOrDefault"]

/-- Refuses operators that do not see the rows which limits and groups leave. -/
def checkOrder (stage : Stage) (method : String) : Except CompileError Unit :=
  if stage.layer.hasGroupBy then .error (.unsupported .afterGroupBy)
  else if stage.hasTop && !allowedAfterTake.contains method then .error (.unsupported .afterTake)
  else if stage.hasOffset && !allowedAfterSkip.contains method then
    .error (.unsupported .afterSkip)
  else .ok ()

/-- The stage that an operator is applied to: with a layer of its own where it needs one. -/
def layered (stage : Stage) (method : String) (argCount : Nat) : Compilation Stage := do
  if stage.needsLayer method argCount then return stage.package (← fresh "r") else return stage

/-- Refuses an operator that ends a query anywhere else. -/
def requireLast (method : String) : Compilation Unit := do
  if !(← get).isOutermost then throw (.unsupported (.notLast method))

def stripConversions : Expr → Expr
  | .unary .convert operand _ => stripConversions operand
  | e => e

/-- The number of rows that an operator takes or skips: a parameter, or a literal that is not
negative. -/
def count (options : Options) (method : String) (arg : Expr) : Compilation Count := do
  match (stripConversions arg).asConstant? with
  | none => throw (.unsupported (.countNotConstant method))
  | some v =>
    match ← bindConstant options v with
    | some name => return .parameter name
    | none =>
      match v.toInt64? with
      | some n =>
        if 0 ≤ n.toInt then return .literal n
        else throw (.unsupported (.countNegative method n))
      | none => throw (.unsupported (.countNotInteger method v.kindName))

/-- The name of a function that the database's user defined, which its call has as the first
argument: a constant identifier. -/
def functionName? (arg : Option Expr) : Except CompileError String :=
  match arg.bind (·.asConstant?) with
  | some (.string name) =>
    if name.isEmpty then .error (.unsupported .functionNameMissing)
    else if isIdentifier name.toList then .ok name
    else .error (.unsupported (.functionName name))
  | _ => .error (.unsupported .functionNameMissing)

/-- The two parameters and the body of the lambda that makes a group's result. -/
structure ResultSelector (arg : Expr) where
  key : String
  group : String
  body : Expr
  smaller : sizeOf body < sizeOf arg

def resultSelector? (arg : Expr) : Except CompileError (ResultSelector arg) :=
  match arg.asLambda? with
  | some ⟨⟨[k, g], body⟩, h⟩ => .ok ⟨k.name, g.name, body, h⟩
  | _ => .error (.unsupported .resultSelector)

def isObject : Scalar → Bool
  | .object _ => true
  | _ => false

/-! ## The compilation -/

variable (env : Environment)

mutual

/-- The scalar of an expression. -/
def scalar (e : Expr) : Compilation Scalar := do
  match e with
  | .constant value ty => constant env.options ty value
  | .parameter name _ =>
    match (← get).lookup? name with
    | some s => return s
    | none => throw (.unsupported (.unboundParameter name))
  | .member none m _ => throw (.unsupported (.staticMember m.owner m.name))
  | .member (some object) m _ =>
    return memberOf env.options.naming object.ty m (← scalar object)
  | .binary op left right ty => binary op left right ty
  | .unary op operand _ => return unaryOf op (← scalar operand)
  | .conditional test ifTrue ifFalse _ =>
    return .conditional (← scalar test) (← scalar ifTrue) (← scalar ifFalse)
  | .call target method args _ =>
    if method.declaring = .userFunction then userFunction args
    else
      match groupSource? (← get) method args with
      | some row => groupAggregate method.name args row
      | none =>
        if isNestedQuery target method args then
          let stage ← nested (withMethod method.name (operator method.name args))
          return nestedScalar method.name (← flattened stage)
        else
          let operands := args.map fun arg => Operand.mk arg (scalar arg)
          match target with
          | none => Builtin.call method none operands
          | some target => Builtin.call method (some ⟨target, scalar target⟩) operands
  | .construct args members ty =>
    if ty.underlying = .geometry then
      ofExcept (← ofHost (env.evaluator (.construct args members ty))).toScalar
    else
      match members with
      | some members =>
        if members.length ≠ args.length then
          throw (.argumentCount ty.text members.length args.length)
        else
          let values ← scalars args
          return .object ((members.map env.options.naming.wireName).zip values)
      | none =>
        if args.isEmpty then return .object []
        else throw (.unsupported (.construction ty))
  | .memberInit _ bindings _ => return .object (← properties bindings)
  | .newArray items _ => return .array (← scalars items)
  | .listInit .. | .lambda .. | .invoke .. => throw (.unsupported (.expression e.kind))
termination_by (sizeOf e, 0)

/-- The scalars of expressions, from left to right. -/
def scalars (es : List Expr) : Compilation (List Scalar) := do
  match es with
  | [] => return []
  | e :: es => return (← scalar e) :: (← scalars es)
termination_by (sizeOf es, 0)

/-- The properties that bindings set. -/
def properties (bindings : List Binding) : Compilation (List (String × Scalar)) := do
  match bindings with
  | [] => return []
  | .assign m value :: rest =>
    let s ← scalar value
    return (env.options.naming.wireName m, s) :: (← properties rest)
  | .nested m _ :: _ | .collect m _ :: _ => throw (.unsupported (.binding m.name))
termination_by (sizeOf bindings, 0)

/-- The scalar of a binary operation of type `ty`. -/
def binary (op : BinaryOp) (left right : Expr) (ty : HostType) : Compilation Scalar := do
  match stringComparison? op left right with
  | some (⟨(a, b), _⟩, op) =>
    if comparesStrings op then binary op a b .boolean
    else throw (.unsupported (.stringComparison op))
  | none =>
    have := left.sizeOf_pos
    have := right.sizeOf_pos
    let a ← scalar left
    let b ← scalar right
    let (a, b) ← matched env.options.naming left right a b
    ofExcept (combine op (ty.isString || left.ty.isString || right.ty.isString) a b)
termination_by (sizeOf left + sizeOf right, 0)

/-- A call of a function that the database's user defined; its arguments may come as an array. -/
def userFunction (args : List Expr) : Compilation Scalar := do
  let name ← ofExcept (functionName? args.head?)
  match args with
  | [_, .newArray items _] => return .call name (← scalars items) true
  | [_, .constant (.array items) _] =>
    return .call name (← constants env.options .object items) true
  | _ :: rest => return .call name (← scalars rest) true
  | [] => return .call name [] true
termination_by (sizeOf args, 0)

/-- An aggregate over a group, whose rows are those of `row`. -/
def groupAggregate (method : String) (args : List Expr) (row : Scalar) : Compilation Scalar := do
  match method, args.tail, args with
  | "Count", [], _ => return countAll
  | "Count", rest, _ => throw (.argumentCount method 0 rest.length)
  | _, _, args =>
    match aggregate? method, args with
    | none, _ => throw (.unsupported (.unknownMethod method))
    | some function, [] | some function, [_] => return .builtin function [row]
    | some function, [_, arg] =>
      let l ← ofExcept (selector? method arg)
      have := l.smaller
      return .builtin function [← withParameter l.param row (scalar l.body)]
    | some _, _ :: rest => throw (.argumentCount method 1 rest.length)
termination_by (sizeOf args, 0)

/-- The stage of a chain of operators. A nested query reads the array that its chain starts from. -/
def rows (e : Expr) : Compilation Stage := do
  match e with
  | .call target method args ty =>
    if method.isOperator then withMethod method.name (operator method.name args)
    else if (← get).inSubquery then
      let path ← scalar (.call target method args ty)
      return .overItems (← fresh "v") path
    else throw (.unsupported (.unknownMethod method.text))
  | e =>
    if (← get).inSubquery then
      let path ← scalar e
      return .overItems (← fresh "v") path
    else if e.isRoot then return .root
    else throw (.unsupported (.source e.kind))
termination_by (sizeOf e, 1)

/-- The stage after an operator, the first argument of which is its source. -/
def operator (method : String) (args : List Expr) : Compilation Stage := do
  match args with
  | [] => throw (.argumentCount method 1 0)
  | source :: rest =>
    let input ← rows source
    ofExcept (checkOrder input method)
    let stage ← layered input method args.length
    withCollection (.outer stage.layer.name) (apply method rest stage)
termination_by (sizeOf args, 0)

/-- The scalar of an operator's lambda, whose parameter ranges over the current collection. -/
def selected (method : String) (rest : List Expr) (stage : Stage) :
    Compilation (Scalar × Stage) := do
  match rest with
  | [arg] =>
    let l ← ofExcept (selector? method arg)
    have := l.smaller
    withRow l.param stage fun stage => return (← scalar l.body, stage)
  | _ => throw (.argumentCount method 1 rest.length)
termination_by (sizeOf rest, 0)

/-- Applies an operator to a stage. -/
def apply (method : String) (rest : List Expr) (stage : Stage) : Compilation Stage := do
  match method with
  | "Where" =>
    let (filter, stage) ← selected method rest stage
    return stage.addWhere filter
  | "Select" =>
    let (value, stage) ← selected method rest stage
    edit stage (Stage.addSelect (.ofValue value))
  | "SelectMany" =>
    match rest with
    | [arg] =>
      let l ← ofExcept (selector? method arg)
      have := l.smaller
      withRow l.param stage fun stage => joined l.body stage
    | _ => throw (.argumentCount method 1 rest.length)
  | "OrderBy" =>
    let (value, stage) ← selected method rest stage
    return stage.addOrderBy ⟨value, false⟩
  | "OrderByDescending" =>
    let (value, stage) ← selected method rest stage
    return stage.addOrderBy ⟨value, true⟩
  | "ThenBy" =>
    let (value, stage) ← selected method rest stage
    edit stage (Stage.thenBy ⟨value, false⟩)
  | "ThenByDescending" =>
    let (value, stage) ← selected method rest stage
    edit stage (Stage.thenBy ⟨value, true⟩)
  | "Take" =>
    match rest with
    | [arg] => edit stage (Stage.addTop (← count env.options method arg))
    | _ => throw (.argumentCount method 1 rest.length)
  | "Skip" =>
    match rest with
    | [arg] => edit stage (Stage.addOffset (← count env.options method arg))
    | _ => throw (.argumentCount method 1 rest.length)
  | "Distinct" =>
    if rest.isEmpty then return stage.setDistinct
    else throw (.argumentCount method 0 rest.length)
  | "Count" | "Any" =>
    if 1 < rest.length then throw (.argumentCount method 1 rest.length)
    requireLast method
    let stage ←
      if rest.isEmpty then pure stage
      else
        let (filter, stage) ← selected method rest stage
        pure (stage.addWhere filter)
    if method == "Any" && (← get).inSubquery then return stage
    let value :=
      if method == "Any" then .binary .greaterThan countAll (.integer 0) else countAll
    let stage ← edit stage (Stage.addSelect (.ofValue value))
    setOperation .firstOrDefault
    return stage
  | "FirstOrDefault" =>
    if !rest.isEmpty then throw (.argumentCount method 0 rest.length)
    requireLast method
    let stage ← edit stage (Stage.addTop (.literal 1))
    setOperation .firstOrDefault
    return stage
  | "GroupBy" => grouped rest stage
  | _ =>
    match aggregate? method with
    | none => throw (.unsupported (.unknownMethod method))
    | some function =>
      if 1 < rest.length then throw (.argumentCount method 1 rest.length)
      requireLast method
      let (operand, stage) ←
        if rest.isEmpty then pure (stage.layer.row, stage) else selected method rest stage
      let stage ← edit stage (Stage.addSelect (.ofValue (.builtin function [operand])))
      setOperation .firstOrDefault
      return stage
termination_by (sizeOf rest, 1)

/-- Iterates the array of an expression within each row, filtered and projected by the operators on
it. -/
def joined (e : Expr) (stage : Stage) : Compilation Stage := do
  match e with
  | .call target method args ty =>
    if method.isOperator then
      if method.name == "Where" || method.name == "Select" then
        match args with
        | [source, arg] =>
          let l ← ofExcept (selector? method.name arg)
          have := l.smaller
          let (body, stage) ←
            if isOperatorCall source then
              let stage ← joined source stage
              withRow l.param stage fun stage => return (← scalar l.body, stage)
            else
              let path ← scalar source
              withCollection (.inner path)
                (withRow l.param stage fun stage => return (← scalar l.body, stage))
          if method.name == "Where" then return stage.addWhere body
          else return stage.replaceSelect body
        | _ => throw (.argumentCount method.name 1 (args.length - 1))
      else throw (.unsupported (.unknownMethod method.name))
    else
      let path ← scalar (.call target method args ty)
      return stage.addJoin (← fresh "v") path
  | e =>
    let path ← scalar e
    return stage.addJoin (← fresh "v") path
termination_by (sizeOf e, 1)

/-- Groups the rows by a key and selects a result for each group. -/
def grouped (rest : List Expr) (stage : Stage) : Compilation Stage := do
  match rest with
  | [keyArg, resultArg] =>
    let keySelector ← ofExcept (selector? "GroupBy" keyArg)
    let result ← ofExcept (resultSelector? resultArg)
    have := keySelector.smaller
    have := result.smaller
    let row := stage.layer.row
    let (key, stage) ← withRow keySelector.param stage fun stage =>
      return (← scalar keySelector.body, stage)
    if isObject key then throw (.unsupported .compositeKey)
    let value ← withParameter result.key key
      (withGroup ⟨result.group, row⟩ (scalar result.body))
    let stage ← edit stage (Stage.addGroupBy key)
    edit stage (Stage.addSelect (.ofValue value))
  | _ => throw (.argumentCount "GroupBy" 2 rest.length)
termination_by (sizeOf rest, 0)

end

end Compilation

end LambdaQuery
