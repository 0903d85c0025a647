import Formulary.Command.Run

/-!
# The program

The command line on real files and streams.
-/

namespace Formulary

/-- The name of the file in which the lines of sessions are kept, in the home directory. -/
def historyName : String := ".exprs_history"

def historyPath : IO String := do
  let home := (← IO.getEnv "HOME").getD ""
  return if home.isEmpty then historyName else home ++ "/" ++ historyName

/-- Reads a file, telling a directory from what is missing. -/
def readFile (name : String) : IO (Except FileError String) := do
  try
    return .ok (← IO.FS.readFile name)
  catch e =>
    match e with
    | .inappropriateType .. => return .error (.directory name)
    | _ => return .error (.missing name)

/-- The surroundings of the program. -/
def host : Command.Host IO where
  input := do (← IO.getStdin).readToEnd
  read := readFile
  history := do return (← readFile (← historyPath)).toOption

end Formulary

def main (args : List String) : IO UInt32 := do
  let report ← Formulary.Command.run .own Formulary.host args
  (← IO.getStderr).putStr report.err
  (← IO.getStdout).putStr report.out
  match report.history with
  | some text => IO.FS.writeFile (← Formulary.historyPath) text
  | none => pure ()
  return report.exit.toUInt32
