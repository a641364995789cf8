import LambdaQuery.Host.Folding
import LambdaQuery.Naming.Options
import LambdaQuery.Stage
import LambdaQuery.Text.Search

/-!
# The scope of a compilation

A `Scope` is what a compilation knows at one point of an expression: the names in use, the scalars
that lambda parameters stand for, the operators and collections around the point, the group that
is aggregated, and what the whole query needs so far. `Compilation` is a computation on a scope; one
that fails leaves the scope as it was when it failed.
-/

set_option autoImplicit false

namespace LambdaQuery

/-- What the parameter of a lambda ranges over: the rows of the stage, or the items of an array. -/
inductive Collection where
  | outer (name : String)
  | inner (path : Scalar)

/-- The group parameter of a result selector, and the row whose group it stands for. -/
structure GroupScope where
  param : String
  row : Scalar

/-- What the caller does with the rows of a query. -/
inductive ClientOperation where
  | none
  /-- Takes the first row, or a default where there is none. -/
  | firstOrDefault
  deriving DecidableEq

/-- The stacks are lists, innermost first. -/
structure Scope where
  names : List String
  bindings : List (String × Scalar)
  methods : List String
  collections : List Collection
  operation : Option ClientOperation
  /-- The parameters that the query uses, in the order of first use. -/
  parameters : List QueryParameter
  /-- How many nested queries are around the point. -/
  depth : Nat
  group : Option GroupScope
  /-- The names of layers that flattening has merged so far, as the trace of it tells them. -/
  merged : List String

/-- The surroundings of a compilation. -/
structure Environment where
  options : Options
  evaluator : Evaluator

abbrev Compilation := ExceptT CompileError (StateM Scope)

namespace Scope

def initial : Scope := ⟨[Stage.rootName], [], [], [], none, [], 0, none, []⟩

/-! ## Names -/

def addName (s : Scope) (name : String) : Scope :=
  if s.names.contains name then s else { s with names := name :: s.names }

def addNames (s : Scope) (names : List String) : Scope := names.foldl addName s

/-- The first of the numbers from `n` on that makes a name not in use. Of as many numbers as there
are names and one more, one does. -/
def freshNumber (names : List String) (base : String) (n : Nat) : Nat → Nat
  | 0 => n
  | fuel + 1 =>
    if names.contains (base ++ toString n) then freshNumber names base (n + 1) fuel else n

/-- A name not in use before: `base` and the least number that will do. -/
def fresh (s : Scope) (base : String) : String × Scope :=
  let name := base ++ toString (freshNumber s.names base 0 s.names.length)
  (name, s.addName name)

/-! ## Parameters of lambdas -/

def bindTo (s : Scope) (name : String) (target : Scalar) : Scope :=
  { s with bindings := (name, target) :: s.bindings }

/-- Binds a parameter to the rows that lambdas range over: those of the stage, or the items of an
array, which the stage then iterates under a fresh name. -/
def bind (s : Scope) (name : String) (stage : Stage) : Scalar × Scope × Stage :=
  match s.collections with
  | .inner path :: _ =>
    let (item, s) := s.fresh name
    (.ref item, s.bindTo name (.ref item), stage.addJoin item path)
  | _ => (stage.layer.row, s.bindTo name stage.layer.row, stage)

def unbind (s : Scope) : Scope := { s with bindings := s.bindings.tail }

/-- The scalar that a parameter stands for; the innermost binding counts. -/
def lookup? (s : Scope) (name : String) : Option Scalar := Record.get? s.bindings name

/-! ## Surroundings -/

def pushMethod (s : Scope) (method : String) : Scope := { s with methods := method :: s.methods }

def popMethod (s : Scope) : Scope := { s with methods := s.methods.tail }

/-- Whether only one operator is being compiled. -/
def isOutermost (s : Scope) : Bool := s.methods.length == 1

def pushCollection (s : Scope) (c : Collection) : Scope :=
  { s with collections := c :: s.collections }

def popCollection (s : Scope) : Scope := { s with collections := s.collections.tail }

def inSubquery (s : Scope) : Bool := s.depth != 0

/-- Inside a nested query, which has operators of its own. -/
def enterSubquery (s : Scope) : Scope := { s with depth := s.depth + 1, methods := [] }

/-- Back outside of a nested query, among the operators `methods`. -/
def exitSubquery (s : Scope) (methods : List String) : Scope :=
  { s with depth := s.depth - 1, methods := methods }

def setGroup (s : Scope) (group : Option GroupScope) : Scope := { s with group := group }

/-- The row that the group parameter `name` stands for. -/
def groupRow? (s : Scope) (name : String) : Option Scalar :=
  match s.group with
  | some g => if g.param = name then some g.row else none
  | none => none

def clientOperation (s : Scope) : ClientOperation := s.operation.getD .none

end Scope

/-! ## Names in an expression -/

mutual

/-- The names of all parameters in an expression. -/
def Expr.parameterNames : Expr → List String
  | .constant .. => []
  | .parameter name _ => [name]
  | .member object _ _ => Expr.parameterNamesOption object
  | .binary _ left right _ => left.parameterNames ++ right.parameterNames
  | .unary _ operand _ => operand.parameterNames
  | .conditional test ifTrue ifFalse _ =>
    test.parameterNames ++ ifTrue.parameterNames ++ ifFalse.parameterNames
  | .call target _ args _ => Expr.parameterNamesOption target ++ Expr.parameterNamesList args
  | .construct args _ _ => Expr.parameterNamesList args
  | .memberInit base bindings _ => base.parameterNames ++ Binding.parameterNamesList bindings
  | .listInit base items _ => base.parameterNames ++ Expr.parameterNamesList items
  | .newArray items _ => Expr.parameterNamesList items
  | .lambda params body => params.map (·.name) ++ body.parameterNames
  | .invoke target args _ => target.parameterNames ++ Expr.parameterNamesList args

def Expr.parameterNamesOption : Option Expr → List String
  | none => []
  | some e => e.parameterNames

def Expr.parameterNamesList : List Expr → List String
  | [] => []
  | e :: es => e.parameterNames ++ Expr.parameterNamesList es

def Binding.parameterNames : Binding → List String
  | .assign _ value => value.parameterNames
  | .nested _ bindings => Binding.parameterNamesList bindings
  | .collect _ items => Expr.parameterNamesList items

def Binding.parameterNamesList : List Binding → List String
  | [] => []
  | b :: bs => b.parameterNames ++ Binding.parameterNamesList bs

end

/-- Takes the parameters of an expression out of the fresh names. -/
def Scope.declare (s : Scope) (e : Expr) : Scope := s.addNames e.parameterNames

/-! ## Computations -/

/-- A letter of the alphabet or an underscore. -/
def isNameStart (c : Char) : Bool := c.isAlpha || c == '_'

/-- Letters, digits and underscores, not starting with a digit. -/
def isIdentifier : List Char → Bool
  | [] => false
  | c :: rest => isNameStart c && rest.all fun d => isNameStart d || d.isDigit

/-- An at sign and an identifier. -/
def isParameterName (name : String) : Bool :=
  match name.toList with
  | '@' :: rest => isIdentifier rest
  | _ => false

namespace Compilation

variable {α : Type}

/-- Runs `act` in a changed scope; `leave before after` is the scope afterwards, also when `act`
fails. -/
def within (enter : Scope → Scope) (leave : Scope → Scope → Scope) (act : Compilation α) :
    Compilation α := fun s =>
  let (result, after) := act (enter s)
  (result, leave s after)

/-- Within the compilation of an operator. -/
def withMethod (method : String) (act : Compilation α) : Compilation α :=
  within (·.pushMethod method) (fun _ t => t.popMethod) act

/-- With lambdas that range over a collection. -/
def withCollection (c : Collection) (act : Compilation α) : Compilation α :=
  within (·.pushCollection c) (fun _ t => t.popCollection) act

/-- With a parameter bound to a scalar. -/
def withParameter (name : String) (target : Scalar) (act : Compilation α) : Compilation α :=
  within (·.bindTo name target) (fun _ t => t.unbind) act

/-- With a group parameter, in the place of the one around it. -/
def withGroup (group : GroupScope) (act : Compilation α) : Compilation α :=
  within (·.setGroup (some group)) (fun s t => t.setGroup s.group) act

/-- Inside a nested query; the operators around it are kept for afterwards. -/
def nested (act : Compilation α) : Compilation α :=
  within (·.enterSubquery) (fun s t => t.exitSubquery s.methods) act

/-- With a parameter that ranges over the current collection, and the stage that knows it. -/
def withRow (name : String) (stage : Stage) (act : Stage → Compilation α) : Compilation α :=
  fun s =>
    let (_, bound, stage) := s.bind name stage
    let (result, after) := act stage bound
    (result, after.unbind)

def ofHost (r : Except HostError α) : Compilation α := ofExcept (r.mapError .host)

/-- Changes a stage. -/
def edit (stage : Stage) (change : Stage.Edit Unit) : Compilation Stage :=
  match change stage with
  | (.ok (), stage) => pure stage
  | (.error e, _) => throw e

def fresh (base : String) : Compilation String :=
  modifyGet fun s => s.fresh base

/-- The query of a stage. Its layers may be merged. -/
def flattened (stage : Stage) : Compilation Query := do
  let query ← ofExcept stage.toQuery
  modify fun s => { s with merged := stage.merged ++ s.merged }
  return query

/-- Sets what the caller does with the rows. Nested queries leave that open. -/
def setOperation (op : ClientOperation) : Compilation Unit := do
  let s ← get
  if s.inSubquery then return
  match s.operation with
  | some existing =>
    if existing = op then return else throw (.structural .operationSet)
  | none => set { s with operation := some op }

/-- The parameter of the query that a constant is bound to, which from then on is in use. -/
def bindConstant (options : Options) (value : Value) : Compilation (Option String) := do
  match options.parameters.find? (·.value == value) with
  | none => return none
  | some bound =>
    let name := if Text.startsWith bound.name "@" then bound.name else "@" ++ bound.name
    if !isParameterName name then throw (.unsupported (.parameterName bound.name))
    modify fun s =>
      if s.parameters.any (·.name == name) then s
      else { s with parameters := s.parameters ++ [⟨name, value.toJson⟩] }
    return some name

end Compilation

end LambdaQuery
