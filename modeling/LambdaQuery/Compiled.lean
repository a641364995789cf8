import LambdaQuery.Query.Printer
import LambdaQuery.Compilation.Operators

/-!
# Compiled queries

`Expr.toQuery` folds a chain of query operators and gives the query that it stands for.
`Expr.compile` prepares the text of any query expression: a chain, the query over all documents,
which needs no text, or text that was given as it is.
-/

set_option autoImplicit false

namespace LambdaQuery

/-- A query expression as the database and the caller share the work on it. -/
structure Compiled where
  /-- What the database runs; without it all documents are read. -/
  query : Option PreparedQuery
  operation : ClientOperation

def ClientOperation.text : ClientOperation → String
  | .none => "none"
  | .firstOrDefault => "firstOrDefault"

def Compiled.toJson (c : Compiled) : Json :=
  .obj [("spec", (c.query.map PreparedQuery.toJson).getD .null),
    ("scalarOperation", .str c.operation.text)]

/-- The query text that a value stands for. -/
def Value.toPreparedQuery : Value → Except CompileError PreparedQuery
  | .string text => .ok ⟨text, []⟩
  | .query q => .ok q
  | .null => .error (.malformedEscape .nullText)
  | v => .error (.malformedEscape (.notText v.kindName))

namespace Compilation

variable (env : Environment)

/-- Folds a chain of operators and flattens its stages. No fresh name is the name of a parameter. -/
def query (e : Expr) : Compilation Query := do
  let folded ← ofHost (e.fold env.evaluator)
  modify (·.declare folded)
  let stage ← rows env folded
  flattened stage

/-- The value of raw query text; a lambda without parameters stands for its body. -/
def rawText : Expr → Except HostError Value
  | .constant value _ => .ok value
  | e =>
    match e.asLambda? with
    | some ⟨⟨[], body⟩, _⟩ => env.evaluator body
    | _ => env.evaluator e

/-- The query that raw text stands for. -/
def escaped (method : String) : List Expr → Except CompileError PreparedQuery
  | [source, raw] => do
    if !source.ty.isDocumentQuery then throw (.unsupported (.escapeSource method))
    (← (rawText env raw).mapError .host).toPreparedQuery
  | args => .error (.argumentCount method 1 (args.length - 1))

end Compilation

namespace Expr

variable (env : Environment)

/-- The query that a chain of operators stands for. -/
def toQuery (e : Expr) : Except CompileError Query := (Compilation.query env e .initial).1

/-- The text of the query that a chain of operators stands for, and its parameters. -/
def compileChain (e : Expr) : Except CompileError Compiled :=
  match Compilation.query env e .initial with
  | (.ok query, scope) =>
    let text := if env.options.pretty then query.pretty else query.text
    .ok ⟨some ⟨text, scope.parameters⟩, scope.clientOperation⟩
  | (.error error, _) => .error error

/-- Compiles a query expression. -/
def compile (e : Expr) : Except CompileError Compiled :=
  match e with
  | .constant _ ty =>
    if ty.isDocumentQuery then .ok ⟨none, .none⟩ else .error (.unsupported (.start e.kind))
  | .call _ method args _ =>
    if method.declaring = .queryEscape then
      return ⟨some (← Compilation.escaped env method.name args), .none⟩
    else e.compileChain env
  | _ => .error (.unsupported (.start e.kind))

end Expr

end LambdaQuery
