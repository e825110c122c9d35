import ArrayCalc.CommandLine.Request
import ArrayCalc.Session

/-!
# The command line

The program executes the texts that it is given, or else runs its files, or else the standard input.
The exit code is 0 if every line has succeeded, 1 if not, and 2 for a command line that makes no
sense; a run of the standard input alone always ends with 0.
-/

namespace ArrayCalc.CommandLine

/-- The name of the program in its messages. -/
def programName : String := "ivy_jax"

/-- Lines of text, each with its line feed. -/
def textOf (lines : List String) : String := String.join (lines.map (· ++ "\n"))

def usage : String :=
  textOf
    ["usage: ivy_jax [-h] [-e EXPR] [--prompt PROMPT] [--ibase IBASE]",
     "               [--obase OBASE] [--origin ORIGIN] [--seed SEED]",
     "               [--max-stack MAX_STACK] [--log-level LOG_LEVEL]",
     "               [FILE ...]"]

def help : String :=
  usage ++ textOf
    ["",
     "Interactive APL-like numeric calculator.",
     "",
     "positional arguments:",
     "  FILE                  files to run; - reads standard input",
     "",
     "options:",
     "  -h, --help            show this help message and exit",
     "  -e EXPR, --execute EXPR",
     "                        evaluate EXPR and exit",
     "  --prompt PROMPT       interactive prompt text",
     "  --ibase IBASE         input base (0 = detect 0x/0o prefixes)",
     "  --obase OBASE         output base",
     "  --origin ORIGIN       index origin",
     "  --seed SEED           random seed for ?",
     "  --max-stack MAX_STACK",
     "                        maximum operator call depth",
     "  --log-level LOG_LEVEL",
     "                        logging level (DEBUG, INFO, ...)"]

variable [Machine] {m : Type → Type} [Monad m] [Host m]

/-- The exit code of runs that have all succeeded, or not. -/
def exitCode (ok : Bool) : Nat := if ok then 0 else 1

/-- Runs texts, each as a line of its own. -/
def executeAll : List String → Bool → Session.Running m Nat
  | [], ok => return exitCode ok
  | text :: rest, ok => do
    let success ← Session.runText ⟨"<-e>", false⟩ (text ++ "\n")
    executeAll rest (ok && success)

/-- Runs the standard input. -/
def runInput (interactive : Bool) : Session.Running m Bool := do
  let text ← liftM (Host.readInput (m := m))
  Session.runText ⟨"<stdin>", interactive⟩ text

/-- Runs files, where a dash is the standard input.  A file that cannot be read ends the program. -/
def runFiles : List String → Bool → Session.Running m Nat
  | [], ok => return exitCode ok
  | "-" :: rest, ok => do
    let success ← runInput false
    runFiles rest (ok && success)
  | path :: rest, ok => do
    match ← Session.withFile path (Host.readFile path) with
    | .ok bytes =>
      let success ← Session.runFile path bytes
      runFiles rest (ok && success)
    | .error e =>
      Session.report (programName ++ ": " ++ path ++ ": " ++ e.message ++ "\n")
      return 1

def perform (r : Request) : Session.Running m Nat := do
  if !r.execute.isEmpty then executeAll r.execute true
  else if !r.files.isEmpty then runFiles r.files true
  else
    let _ ← runInput (← liftM (Host.isInteractive (m := m)))
    return 0

/-- Refuses a command line. -/
def refuse (e : UsageError) : m Nat := do
  Host.report (usage ++ programName ++ ": error: " ++ e.message ++ "\n")
  return 2

def showHelp : m Nat := do
  Host.print help
  return 0

/-- Does what a command line asks for and returns the exit code. -/
def run (words : List String) (environment : List (String × String)) : ExceptT Fault m Nat :=
  match read words with
  | .error e => ExceptT.lift (refuse e)
  | .ok .help => ExceptT.lift showHelp
  | .ok (.request r) =>
    match r.settings environment with
    | .error defect => ExceptT.lift (refuse (.settings defect.message))
    | .ok settings => do return (← (perform r).run (Workspace.ofSettings settings)).1

end ArrayCalc.CommandLine
