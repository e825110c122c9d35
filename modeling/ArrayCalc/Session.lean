import ArrayCalc.Evaluation
import ArrayCalc.Host
import ArrayCalc.Line
import ArrayCalc.Session.OpenFile
import ArrayCalc.Value.Format

/-!
# Sessions

A session answers one line after the other.  The last value of a line is the value of `_` on the
lines after it.  An error is reported and the session goes on with the next line; a fault ends it.

`respond` is all that happens inside of a workspace; `run` adds the commands and the host.  The lines
of a file that a command loads find a machine with fewer levels.
-/

namespace ArrayCalc

namespace Session

/-- What comes of a line. -/
inductive Response where
  | finished
  /-- A blank line or a definition. -/
  | nothing
  | command (words : List String)
  /-- The values of a line of statements; there may be none. -/
  | values (vs : List Value)

/-- The workspace after a line with these values. -/
def remember (w : Workspace) (vs : List Value) : Workspace :=
  match vs.getLast? with
  | some v => w.setGlobal "_" v
  | none => w

variable [Machine]

/-- Reads a line and evaluates it. -/
def respond (s : Source) (w : Workspace) : Result Response × Source × Workspace :=
  match Line.read s w with
  | (.error failure, s, w) => (.error failure, s, w)
  | (.ok line, s, w) =>
    match line with
    | .endOfInput => (.ok .finished, s, w)
    | .blank | .definition _ => (.ok .nothing, s, w)
    | .command words => (.ok (.command words), s, w)
    | .statements es =>
      match (Evaluation.evaluateLine es).run w with
      | .ok vs w => (.ok (.values vs), s, remember w vs)
      | .error failure w => (.error failure, s, w)

/-! ## § Evaluation of a text -/

/-- Evaluates at most `count` lines; `vs` are the values of the last line of statements so far. -/
def evaluateLines : Nat → Source → Workspace → List Value → Result (List Value) × Workspace
  | 0, _, w, vs => (.ok vs, w)
  | count + 1, s, w, vs =>
    match respond s w with
    | (.error failure, _, w) => (.error failure, w)
    | (.ok .finished, _, w) => (.ok vs, w)
    | (.ok (.values news), s, w) => evaluateLines count s w news
    | (.ok _, s, w) => evaluateLines count s w vs

/-- The values of the last line of statements in a text; the first error ends the evaluation. -/
def evaluate (text : List Char) (w : Workspace) : Result (List Value) × Workspace :=
  let s := Source.ofText text
  evaluateLines s.remaining s w []

/-- A new workspace with the definitions of `w`, read back from their text. -/
def reload (w : Workspace) : Result (List Value) × Workspace :=
  evaluate (w.definitionsText ++ "\n").toList (Workspace.ofSettings w.settings)

/-- Whether two workspaces have the same operators. -/
def sameOperators (a b : Workspace) : Bool := a.unary.agrees b.unary && a.binary.agrees b.binary

/-! ## § Runs -/

variable {m : Type → Type} [Monad m] [Host m]

/-- A run changes a workspace and may end with a fault. -/
abbrev Running (m : Type → Type) := StateT Workspace (ExceptT Fault m)

/-- The file name of a command, which may be quoted. -/
def fileName (words : List String) : Except CommandError String :=
  match words with
  | [_, word] =>
    match word.toList with
    | first :: rest =>
      if (first = '\'' ∨ first = '"') ∧ rest.getLast? = some first then
        .ok (String.ofList rest.dropLast)
      else .ok word
    | [] => .ok word
  | _ => .error (.oneFileName (words.headD ""))

/-- Asks the host for something about a file; no host takes a name with a NUL in it. -/
def withFile {α : Type} (name : String) (act : m α) : Running m α :=
  if name.toList.contains '\x00' then throw .fileName else liftM act

def print (text : String) : Running m Unit := liftM (Host.print (m := m) text)

def report (text : String) : Running m Unit := liftM (Host.report (m := m) text)

/-- Reports an error in the source of the given name. -/
def reportError (source : String) (e : Error) : Running m Unit :=
  report (source ++ ": " ++ e.message ++ "\n")

/-- Writes all definitions to a file, from which they can be read back. -/
def save (name : String) : Running m (Except CommandError Unit) := do
  let text := (← get).definitionsText
  let text := if text.isEmpty then "" else text ++ "\n"
  match ← withFile name (Host.writeFile name text) with
  | .ok () => return .ok ()
  | .error e => return .error (.file "save" name e)

/-- The way to run the lines of a file, given its name and its bytes. -/
abbrev RunningFile (m : Type → Type) := String → List UInt8 → Running m Bool

/-- Runs the lines of a file. -/
def load (runFile : RunningFile m) (name : String) : Running m (Except CommandError Bool) := do
  match ← withFile name (Host.readFile name) with
  | .ok bytes => return .ok (← runFile name bytes)
  | .error e => return .error (.file "get" name e)

/-- Runs a command.  Words that are no command are ignored. -/
def command (runFile : RunningFile m) (words : List String) :
    Running m (Except CommandError Bool) := do
  if words.head? = some "save" then
    match fileName words with
    | .ok name => return (← save name).map fun _ => true
    | .error e => return .error e
  else if words.head? = some "get" then
    match fileName words with
    | .ok name => load runFile name
    | .error e => return .error e
  else return .ok true

/-- What a run is told once and for all. -/
structure Mode where
  /-- The name of the source in error messages. -/
  name : String
  /-- Whether the prompt is written before every line. -/
  interactive : Bool

def prompt (mode : Mode) : Running m Unit := do
  let text := (← get).settings.prompt
  if mode.interactive && !text.isEmpty then print text

/-- What a run takes its lines from. -/
structure Input where
  source : Source
  /-- The file that the lines come from, unless they come from a text. -/
  file : Option OpenFile

namespace Input

def ofText (text : String) : Input := ⟨Source.ofText text.toList, none⟩

def ofFile (name : String) (bytes : List UInt8) : Input :=
  let file := OpenFile.ofBytes name bytes
  ⟨file.source, some file⟩

/-- How many lines a run takes at most from files that grow while they are run, beyond those that
they hold at first. -/
def growth : Nat := 1000000

/-- A bound for the number of lines that are left. -/
def lines (input : Input) : Nat :=
  input.source.remaining + if input.file.isSome then growth else 0

/-- The input after a command, which may have changed the file. -/
def afterCommand (input : Input) : m Input := do
  match input.file with
  | none => return input
  | some file =>
    match ← Host.readFile file.name with
    | .ok bytes =>
      let (file, source) := file.follow input.source bytes
      return ⟨source, some file⟩
    | .error _ => return input

end Input

/-- Runs at most `count` lines; `ok` says that no line has failed so far. -/
def runLines (runFile : RunningFile m) (mode : Mode) : Nat → Input → Bool → Running m Bool
  | 0, _, ok => return ok
  | count + 1, input, ok => do
    prompt mode
    let (response, source, w) := respond input.source (← get)
    let input := { input with source := source }
    set w
    match response with
    | .ok .finished => return ok
    | .ok .nothing => runLines runFile mode count input ok
    | .ok (.command words) =>
      let success ← match ← command runFile words with
        | .ok result => pure result
        | .error e => do
          reportError mode.name (.command e)
          pure false
      runLines runFile mode count (← liftM (Input.afterCommand (m := m) input)) (ok && success)
    | .ok (.values vs) =>
      if vs.isEmpty then runLines runFile mode count input ok
      else match Value.formatAll w.settings vs with
        | .ok text =>
          print (text ++ "\n")
          runLines runFile mode count input ok
        | .error (.error e) =>
          reportError mode.name e
          runLines runFile mode count input false
        | .error (.fault f) => throw f
    | .error (.error e) =>
      reportError mode.name e
      runLines runFile mode count input false
    | .error (.fault f) => throw f

/-- Runs lines that may load files, these load others, and so on, as deep as `depth`.  Every file
stays open while its lines run, so there is an end to that. -/
def runWithin (machine : Machine) (depth : Nat) (mode : Mode) (input : Input) : Running m Bool :=
  let runFile (name : String) (bytes : List UInt8) : Running m Bool :=
    match depth with
    | 0 => throw .nestedFiles
    | inner + 1 => runWithin machine.within inner ⟨name, false⟩ (.ofFile name bytes)
  runLines runFile mode input.lines input true

/-- How deep files may load each other. -/
def loadingDepth : Nat := Machine.nesting / Machine.loadingToll

/-- Runs the lines of an input; the result says whether every line has succeeded. -/
def run (mode : Mode) (input : Input) : Running m Bool :=
  runWithin inferInstance loadingDepth mode input

/-- Runs a text. -/
def runText (mode : Mode) (text : String) : Running m Bool := run mode (.ofText text)

/-- Runs a file that has been opened. -/
def runFile (name : String) (bytes : List UInt8) : Running m Bool :=
  run ⟨name, false⟩ (.ofFile name bytes)

end Session

end ArrayCalc
