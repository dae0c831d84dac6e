import SExprNav.CommandLine.Report

/-!
# The program

Reads the command line and the file, prints the report of the run and writes the events of the run to
standard error.
-/

namespace SExprNav

/-- The contents of a file that can be read. -/
def readContents (name : String) : IO (Option ByteArray) := do
  try
    let bytes ← IO.FS.readBinFile name
    pure (some bytes)
  catch _ => pure none

/-- Runs the program: the exit status. -/
def runProgram (words : List String) : IO Nat := do
  let errors ← IO.getStderr
  match Arguments.ofStrings .leading words with
  | .error (.exit status) => pure status
  | .error e => do
    errors.putStrLn e.message
    pure 1
  | .ok args =>
    let contents ← readContents args.file
    match Report.ofArguments (fun _ => contents) args with
    | .error e => do
      errors.putStrLn e.message
      pure 1
    | .ok report =>
      for e in report.log do
        match e.message (some Numeral.digitLimit) with
        | .error f => errors.putStrLn f.message
        | .ok text => errors.putStrLn (e.level.word ++ " " ++ text)
      (← IO.getStdout).putStr report.output
      pure report.status

end SExprNav

def main (words : List String) : IO UInt32 := do
  return (← SExprNav.runProgram words).toUInt32
