import LambdaQuery.Host.Expr.Json
import LambdaQuery.Host.Interpreter
import LambdaQuery.Json.Printer
import LambdaQuery.Compiled

/-!
# Commands

A request is an expression in JSON, with the options of its compilation and the values of static
members. A command compiles or folds the expression and writes the result as JSON.
-/

set_option autoImplicit false

namespace LambdaQuery

/-! ## Requests -/

structure Request where
  expression : Expr
  options : Options
  /-- The values of static members by `Type.Member`. -/
  statics : Record Value

namespace Request

def ofJson? (j : Json) : Option Request := do
  let expression ← Expr.decode? (← j.required? "expression").1
  let options ← j.defaulted? "options" .default Options.ofJson?
  let statics ← j.defaulted? "statics" [] (Json.record? Value.decode?)
  some ⟨expression, options, statics⟩

/-- The interpreter that knows the static members. -/
def interpreter (r : Request) : Interpreter :=
  r.statics.foldl (fun i (name, v) => i.withStatic name v) .empty

end Request

/-! ## Commands -/

inductive CommandError where
  | noInput
  | notRequest
  | compilation (error : CompileError)
  | evaluation (error : HostError)

def CommandError.message : CommandError → String
  | .noInput => "No input provided. Use --input or pipe a JSON request to stdin."
  | .notRequest => "Invalid JSON: the input is not a request"
  | .compilation error => "Translation error: " ++ error.message
  | .evaluation error => "Evaluation error: " ++ error.message

inductive Command where
  | fold
  /-- With `textOnly`, only the text of the query is written. -/
  | compile (textOnly : Bool)

namespace Command

def render (pretty : Bool) (j : Json) : String := if pretty then j.pretty else j.compact

/-- What a command writes for a request. -/
def answer (c : Command) (pretty : Bool) (r : Request) : Except CommandError String :=
  match c with
  | .fold => do
    let folded ← (r.expression.fold r.interpreter.evaluate).mapError .evaluation
    return render pretty folded.encode
  | .compile textOnly => do
    let compiled ← (r.expression.compile ⟨r.options, r.interpreter.evaluate⟩).mapError .compilation
    if textOnly then return (compiled.query.map PreparedQuery.text).getD ""
    else return render pretty compiled.toJson

/-- Runs a command on the text of a request. -/
def run (c : Command) (pretty : Bool) (input : Option String) : Except CommandError String :=
  match input with
  | none => .error .noInput
  | some text =>
    match (Json.read? text).bind Request.ofJson? with
    | none => .error .notRequest
    | some r => c.answer pretty r

end Command

/-! ## Command lines -/

/-- A command as it is called. Without `input` the request comes from standard input. -/
structure Invocation where
  command : Command
  pretty : Bool
  input : Option String

namespace Invocation

/-- Reads the arguments after the name of the command. -/
def withArgs? (v : Invocation) : List String → Option Invocation
  | [] => some v
  | "--pretty" :: rest | "-p" :: rest => withArgs? { v with pretty := true } rest
  | "--input" :: text :: rest | "-i" :: text :: rest => withArgs? { v with input := some text } rest
  | "--text-only" :: rest =>
    match v.command with
    | .compile _ => withArgs? { v with command := .compile true } rest
    | .fold => none
  | _ => none

/-- Reads a command line: `translate` compiles a request, `fold` folds it. -/
def ofArgs? : List String → Option Invocation
  | "translate" :: rest => withArgs? ⟨.compile false, false, none⟩ rest
  | "fold" :: rest => withArgs? ⟨.fold, false, none⟩ rest
  | _ => none

def usage : String :=
  "usage: lambdaquery translate [--input TEXT] [--pretty] [--text-only]\n" ++
    "       lambdaquery fold [--input TEXT] [--pretty]"

end Invocation

end LambdaQuery
