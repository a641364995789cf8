import LambdaQuery.Proofs.Meaning.Alike
import LambdaQuery.Compilation.Operators

/-!
# Chains of operators

What a chain of query operators means apart from the stages that it is compiled to: the documents of
the container or the items of an array, changed by one operator after the other (`Operator.rows`).
The body of a lambda means what its scalar is worth where the parameters of all lambdas around it
are parameters of the query (`Expr.meaning`).
-/

set_option autoImplicit false

namespace LambdaQuery

/-- A lambda over rows. -/
structure RowLambda where
  param : String
  body : Expr

/-- An array in each row, and what is left and made of its items. -/
inductive ItemPath where
  | array (e : Expr)
  | filter (source : ItemPath) (predicate : RowLambda)
  | select (source : ItemPath) (selector : RowLambda)

inductive Operator where
  | filter (predicate : RowLambda)
  | select (selector : RowLambda)
  | selectMany (param : String) (path : ItemPath)
  /-- Sorts by the first key, then by the next, each with whether it sorts in descending order. -/
  | orderBy (keys : List (RowLambda × Bool))
  | distinct
  | take (n : Int64)
  | skip (n : Int64)

def Operator.isOrder : Operator → Bool
  | .orderBy _ => true
  | _ => false

/-- What is made of numbers or of other values that have an order. -/
inductive Aggregate where
  | sum
  | min
  | max
  | average

/-- The operator that aggregates. -/
def Aggregate.method : Aggregate → String
  | .sum => "Sum"
  | .min => "Min"
  | .max => "Max"
  | .average => "Average"

/-- The function of the query language that aggregates. -/
def Aggregate.function : Aggregate → String
  | .sum => "SUM"
  | .min => "MIN"
  | .max => "MAX"
  | .average => "AVG"

theorem Aggregate.aggregate?_method (a : Aggregate) :
    Compilation.aggregate? a.method = some a.function := by
  cases a <;> rfl

/-- What a chain ends with. -/
inductive Ending where
  | rows
  | count (predicate : Option RowLambda)
  | any (predicate : Option RowLambda)
  | first
  /-- An aggregate of the rows or of what a lambda makes of them. -/
  | aggregate (a : Aggregate) (selector : Option RowLambda)

structure Chain where
  /-- The last operator comes first. -/
  operators : List Operator
  ending : Ending

/-! ## Expressions of chains -/

/-- A call of a query operator. -/
def Expr.Calls (e : Expr) (name : String) (args : List Expr) : Prop :=
  ∃ target method ty, e = .call target method args ty ∧ method.isOperator = true ∧
    method.name = name

def RowLambda.IsArg (l : RowLambda) (arg : Expr) : Prop :=
  ∃ ty, arg.asLambda?.map Subtype.val = some ⟨[⟨l.param, ty⟩], l.body⟩

/-- The argument of an operator that may do without one. -/
def RowLambda.AreArgs : Option RowLambda → List Expr → Prop
  | none, args => args = []
  | some l, args => ∃ arg, args = [arg] ∧ l.IsArg arg

/-- An expression is a literal count. -/
def Expr.IsCount (e : Expr) (n : Int64) : Prop :=
  (Compilation.stripConversions e).asConstant?.bind (·.toInt64?) = some n

/-- The expressions of paths. -/
inductive ItemPath.IsExpr : ItemPath → Expr → Prop where
  | array {e : Expr} (h : Compilation.isOperatorCall e = false) : ItemPath.IsExpr (.array e) e
  | filter {e source arg : Expr} {p : ItemPath} {l : RowLambda} (h : e.Calls "Where" [source, arg])
    (hs : ItemPath.IsExpr p source) (hl : l.IsArg arg) : ItemPath.IsExpr (.filter p l) e
  | select {e source arg : Expr} {p : ItemPath} {l : RowLambda}
    (h : e.Calls "Select" [source, arg]) (hs : ItemPath.IsExpr p source) (hl : l.IsArg arg) :
    ItemPath.IsExpr (.select p l) e

/-- The operator that sorts by a first key or, with `next`, by another one. -/
def sortName (next descending : Bool) : String :=
  match next, descending with
  | false, false => "OrderBy"
  | false, true => "OrderByDescending"
  | true, false => "ThenBy"
  | true, true => "ThenByDescending"

/-- The expressions of operators on rows that start from some expression. -/
inductive Operator.AreExpr (start : Expr → Prop) : List Operator → Expr → Prop where
  | start {e : Expr} (h : start e) : Operator.AreExpr start [] e
  | filter {e source arg : Expr} {ops : List Operator} {l : RowLambda}
    (h : e.Calls "Where" [source, arg]) (hs : Operator.AreExpr start ops source)
    (hl : l.IsArg arg) : Operator.AreExpr start (.filter l :: ops) e
  | select {e source arg : Expr} {ops : List Operator} {l : RowLambda}
    (h : e.Calls "Select" [source, arg]) (hs : Operator.AreExpr start ops source)
    (hl : l.IsArg arg) : Operator.AreExpr start (.select l :: ops) e
  | selectMany {e source arg : Expr} {ops : List Operator} {l : RowLambda} {p : ItemPath}
    (h : e.Calls "SelectMany" [source, arg]) (hs : Operator.AreExpr start ops source)
    (hl : l.IsArg arg) (hp : p.IsExpr l.body) :
    Operator.AreExpr start (.selectMany l.param p :: ops) e
  | orderBy {e source arg : Expr} {ops : List Operator} {l : RowLambda} (descending : Bool)
    (h : e.Calls (sortName false descending) [source, arg])
    (hs : Operator.AreExpr start ops source) (hl : l.IsArg arg) :
    Operator.AreExpr start (.orderBy [(l, descending)] :: ops) e
  | thenBy {e source arg : Expr} {ops : List Operator} {l : RowLambda}
    {keys : List (RowLambda × Bool)} (descending : Bool)
    (h : e.Calls (sortName true descending) [source, arg])
    (hs : Operator.AreExpr start (.orderBy keys :: ops) source) (hl : l.IsArg arg) :
    Operator.AreExpr start (.orderBy (keys ++ [(l, descending)]) :: ops) e
  | distinct {e source : Expr} {ops : List Operator} (h : e.Calls "Distinct" [source])
    (hs : Operator.AreExpr start ops source) : Operator.AreExpr start (.distinct :: ops) e
  | take {e source arg : Expr} {ops : List Operator} {n : Int64} (h : e.Calls "Take" [source, arg])
    (hs : Operator.AreExpr start ops source) (hn : arg.IsCount n) :
    Operator.AreExpr start (.take n :: ops) e
  | skip {e source arg : Expr} {ops : List Operator} {n : Int64} (h : e.Calls "Skip" [source, arg])
    (hs : Operator.AreExpr start ops source) (hn : arg.IsCount n) :
    Operator.AreExpr start (.skip n :: ops) e

/-- An ending is the operator `name` with the arguments `args` after its source. -/
def Ending.IsCall : Ending → String → List Expr → Prop
  | .rows, _, _ => False
  | .count l, name, args => name = "Count" ∧ RowLambda.AreArgs l args
  | .any l, name, args => name = "Any" ∧ RowLambda.AreArgs l args
  | .first, name, args => name = "FirstOrDefault" ∧ args = []
  | .aggregate a l, name, args => name = a.method ∧ RowLambda.AreArgs l args

/-- The expressions of chains that start from some expression. -/
inductive Chain.IsExpr (start : Expr → Prop) : Chain → Expr → Prop where
  | rows {e : Expr} {ops : List Operator} (h : Operator.AreExpr start ops e) :
    Chain.IsExpr start ⟨ops, .rows⟩ e
  | ending {e source : Expr} {ops : List Operator} {ending : Ending} {name : String}
    {args : List Expr} (h : e.Calls name (source :: args)) (hs : Operator.AreExpr start ops source)
    (he : ending.IsCall name args) : Chain.IsExpr start ⟨ops, ending⟩ e

/-! ## Lambdas -/

/-- What the parameters of the lambdas around a chain stand for. -/
structure Locals (V : Type) where
  /-- How many nested queries are around the chain. -/
  depth : Nat
  params : List String
  values : Valuation V

/-- The scope of an expression by itself. The parameters of lambdas are parameters of the query. -/
def Scope.reading (depth : Nat) (params : List String) : Scope :=
  { Scope.initial with depth := depth, bindings := params.map fun p => (p, .parameter p) }

section

variable {V : Type} [DecidableEq V] (env : Environment) (D : Database V)

/-- The value of an expression for values of the parameters around it. -/
def Expr.meaning (depth : Nat) (params : List String) (e : Expr) :
    Except CompileError (Valuation V → V) := do
  let s ← (Compilation.scalar env e (.reading depth params)).1
  return fun values => s.eval (D.withParameters values) D.nothing none

variable (L : Locals V)

namespace RowLambda

/-- What a lambda makes of a row. -/
def ofRow (l : RowLambda) : Except CompileError (V → V) := do
  let f ← l.body.meaning env D L.depth (l.param :: L.params)
  return fun v => f (Function.update L.values l.param v)

/-- What a lambda makes of a row, which `param` stands for, and an item of an array in it. -/
def ofItem (param : String) (l : RowLambda) : Except CompileError (V → V → V) := do
  let f ← l.body.meaning env D L.depth (l.param :: param :: L.params)
  return fun v w => f (Function.update (Function.update L.values param v) l.param w)

/-- What a lambda makes of a row to sort by, beside whether it sorts in descending order. -/
def key (k : RowLambda × Bool) : Except CompileError ((V → V) × Bool) := do
  return (← k.1.ofRow env D L, k.2)

/-- The rows that a predicate, if there is one, holds of. -/
def keep (l : Option RowLambda) (rows : List V) : Except CompileError (List V) :=
  match l with
  | none => .ok rows
  | some l => do
    let f ← l.ofRow env D L
    return rows.filter fun v => D.holds (f v)

/-- What a lambda, if there is one, makes of rows. -/
def each (l : Option RowLambda) (rows : List V) : Except CompileError (List V) :=
  match l with
  | none => .ok rows
  | some l => do
    let f ← l.ofRow env D L
    return rows.map f

end RowLambda

/-- The items of a path in a row. -/
def ItemPath.items (param : String) : ItemPath → Except CompileError (V → List V)
  | .array e => do
    let f ← RowLambda.ofRow env D L ⟨param, e⟩
    return D.items ∘ f
  | .filter source l => do
    let items ← source.items param
    let f ← l.ofItem env D L param
    return fun v => (items v).filter fun w => D.holds (f v w)
  | .select source l => do
    let items ← source.items param
    let f ← l.ofItem env D L param
    return fun v => (items v).map (f v)

/-! ## Rows -/

/-- The rows that an operator makes of rows. -/
def Operator.apply (rows : List V) : Operator → Except CompileError (List V)
  | .filter l => RowLambda.keep env D L (some l) rows
  | .select l => RowLambda.each env D L (some l) rows
  | .selectMany param path => do
    let items ← path.items env D L param
    return rows.flatMap items
  | .orderBy keys => do
    let keys ← keys.mapM (RowLambda.key env D L)
    return D.sorted keys rows
  | .distinct => return Rows.distinct rows
  | .take n => return rows.take n.toInt.toNat
  | .skip n => return rows.drop n.toInt.toNat

/-- The rows that operators make of rows. -/
def Operator.rows (start : List V) : List Operator → Except CompileError (List V)
  | [] => .ok start
  | op :: ops => do op.apply env D L (← Operator.rows start ops)

/-- The rows that an ending makes of rows. Whether there are any is whether their number is greater
than zero. -/
def Ending.apply (rows : List V) : Ending → Except CompileError (List V)
  | .rows => .ok rows
  | .count l => do
    let kept ← RowLambda.keep env D L l rows
    return [D.count kept.length]
  | .any l => do
    let kept ← RowLambda.keep env D L l rows
    return [D.binary .greaterThan (D.count kept.length) (D.count 0)]
  | .first => .ok (rows.take 1)
  | .aggregate a l => do
    let operands ← RowLambda.each env D L l rows
    return (D.aggregate a.function (operands.map ([·]))).toList

/-- The value that an ending makes of the items of an array. -/
def Ending.value (items : List V) : Ending → Except CompileError V
  | .rows => .ok (D.array items)
  | .count l => do
    let kept ← RowLambda.keep env D L l items
    return D.count kept.length
  | .any l => do
    let kept ← RowLambda.keep env D L l items
    return D.literal (.boolean !kept.isEmpty)
  | .first => .ok (items.headD (D.literal .undefined))
  | .aggregate a l => do
    let operands ← RowLambda.each env D L l items
    return (D.aggregate a.function (operands.map ([·]))).toList.headD (D.literal .undefined)

/-- **The rows of a chain.** -/
def Chain.rows (start : List V) (c : Chain) : Except CompileError (List V) := do
  c.ending.apply env D L (← Operator.rows env D L start c.operators)

/-- **The value of a chain over the items of an array.** -/
def Chain.value (items : List V) (c : Chain) : Except CompileError V := do
  c.ending.value env D L (← Operator.rows env D L items c.operators)

end

end LambdaQuery
