import ArrayCalc.CommandLine
import ArrayCalc.Machine.Standard
import ArrayCalc.Text.Utf8

/-!
# The program

The host of the program is the machine it runs on.  The environment also says when the array library
is asked.
-/

namespace ArrayCalc

/-- The error with a number; some functions of the machine give the number with a minus sign. -/
def fileErrorOfCode (code : UInt32) (details : String) : FileError :=
  match (min code (0 - code)).toNat with
  | 20 => .notDirectory
  | 21 => .isDirectory
  | 24 => .tooManyOpen
  | 36 => .nameTooLong
  | _ => .other details

/-- Why the machine does not open a file. -/
def fileErrorOf : IO.Error → FileError
  | .noFileOrDirectory .. => .missing
  | .inappropriateType _ code details => fileErrorOfCode code details
  | .invalidArgument _ code details => fileErrorOfCode code details
  | .resourceExhausted _ code details => fileErrorOfCode code details
  | .permissionDenied .. => .other "Permission denied"
  | e => .other (toString e)

/-- Tries something with a file. -/
def tryFile {α : Type} (act : IO α) : IO (Except FileError α) := do
  match ← act.toBaseIO with
  | .ok a => return .ok a
  | .error e => return .error (fileErrorOf e)

instance : Host IO where
  print text := do
    let output ← IO.getStdout
    output.putStr text
    output.flush
  report text := do
    let output ← IO.getStderr
    output.putStr text
    output.flush
  readFile path := tryFile do return (← IO.FS.readBinFile path).toList
  writeFile path text := tryFile (IO.FS.writeFile path text)
  readInput := do
    let bytes ← (← IO.getStdin).readBinToEnd
    return String.ofList (Text.ofFile bytes.toList)
  isInteractive := do (← IO.getStdin).isTty

/-- The variables of the environment that hold settings. -/
def settingVariables : IO (List (String × String)) := do
  let keys := ["PROMPT", "FLOAT_FORMAT", "IBASE", "OBASE", "ORIGIN", "SEED", "MAX_STACK",
    "DISABLE_FAST_PATHS", "FAST_PATH_MIN"]
  let found ← keys.mapM fun key => do
    let name := Settings.variableStem ++ key
    return (← IO.getEnv name).map (name, ·)
  return found.filterMap id

/-- What the program says about the fault that ends it. -/
def faultText (f : Fault) : String :=
  match f.message?, f with
  | some message, _ => message
  | none, .nestedFiles => "the files load each other too deep"
  | none, _ => "the result is out of range"

end ArrayCalc

def main (words : List String) : IO UInt32 := do
  let environment ← ArrayCalc.settingVariables
  match ArrayCalc.Bulk.Policy.ofEnvironment? environment with
  | none =>
    (← IO.getStderr).putStrLn "the least length of a row for the array library is no integer"
    return 1
  | some policy =>
    let _ : ArrayCalc.Machine := { ArrayCalc.Machine.standard with policy }
    match ← (ArrayCalc.CommandLine.run words environment).run with
    | .ok code => return UInt32.ofNat code
    | .error fault =>
      (← IO.getStderr).putStrLn (ArrayCalc.faultText fault)
      return 1
