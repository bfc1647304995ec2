import SolText.CommandLine.Run

/-!
# The program

Reads the files that the arguments name, and prints the outcome.
-/

open SolText CommandLine

/-- The contents of a file. -/
def readFile (name : String) : IO (Except ReadFailure String) := do
  try
    let bytes ← IO.FS.readBinFile name
    match String.fromUTF8? bytes with
    | some text => return .ok text
    | none => return .error .invalidData
  catch
    | .noFileOrDirectory .. => return .error .notFound
    | .inappropriateType (some _) .. => return .error .notDirectory
    | .inappropriateType none .. => return .error .isDirectory
    | .invalidArgument .. => return .error .invalidName
    | .permissionDenied .. => return .error .denied
    | _ => return .error .other

/-- Prints an outcome and returns its code. -/
def report (outcome : Outcome) : IO UInt32 := do
  (← IO.getStdout).putStr outcome.output
  (← IO.getStderr).putStr outcome.errors
  return outcome.code

def main (arguments : List String) : IO UInt32 := do
  match parse arguments with
  | .error error => report error.outcome
  | .ok command =>
    let contents ← command.inputs.mapM fun name => return (name, ← readFile name)
    let files : Files := fun name => (contents.lookup name).getD (.error .notFound)
    let terminal ← (← IO.getStdout).isTty
    report (command.execute terminal files)
