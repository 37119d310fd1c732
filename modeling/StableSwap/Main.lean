import StableSwap.CommandLine
import StableSwap.Document.Json.Printer

/-!
# The program

Connects the command line to arguments, environment, files and output.
-/

namespace StableSwap

/-- The contents of the file an invocation names, as a lookup. -/
def fileContents (path : String) : IO (String → Option String) := do
  let text ← try
    let text ← IO.FS.readFile path
    pure (some text)
  catch _ => pure none
  return fun other => if other = path then text else none

/-- Prints an ending. -/
def printEnding : CommandLine.Ending → IO Unit
  | .report report => IO.println (Document.Json.indented (Document.ofReport report))
  | .usage .help => IO.println CommandLine.usage
  | .usage error => IO.eprintln error.message
  | .failure failure =>
    IO.eprintln ("pool-sim failed: " ++ failure.message ++ " (recoverable: " ++
      toString failure.isRecoverable ++ ")")

end StableSwap

open StableSwap in
/-- Runs the program. -/
def main (arguments : List String) : IO UInt32 := do
  let config ← IO.getEnv "CONFIG"
  let environment := fun name => if name = "CONFIG" then config else none
  let ending ← match CommandLine.parse arguments environment with
    | .error error => pure (CommandLine.Ending.usage error)
    | .ok invocation => do
      let contents ← fileContents invocation.config
      pure (CommandLine.run arguments environment contents)
  printEnding ending
  return ending.exitCode.toUInt32
