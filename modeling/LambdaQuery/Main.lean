import LambdaQuery.Command

/-!
# Command line
-/

set_option autoImplicit false

open LambdaQuery

/-- Takes the request from standard input, unless it was given or nothing is piped in. -/
def readRequest (input : Option String) : IO (Option String) := do
  match input with
  | some text => return some text
  | none =>
    let stdin ← IO.getStdin
    if ← stdin.isTty then return none
    let mut text := ""
    let mut line ← stdin.getLine
    while !line.isEmpty do
      text := text ++ line
      line ← stdin.getLine
    return some text

def main (args : List String) : IO UInt32 := do
  match Invocation.ofArgs? args with
  | none =>
    IO.eprintln Invocation.usage
    return 2
  | some invocation =>
    match invocation.command.run invocation.pretty (← readRequest invocation.input) with
    | .ok text =>
      IO.println text
      return 0
    | .error error =>
      IO.eprintln error.message
      return 1
