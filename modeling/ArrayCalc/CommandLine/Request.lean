import ArrayCalc.CommandLine.Switch
import ArrayCalc.Settings

/-!
# Requests

What a command line asks for: texts to execute, files to run, and settings.  The files are the first
words in a row that belong to no switch; any such words further on are refused.
-/

namespace ArrayCalc.CommandLine

/-- What has been read of the files. -/
inductive FilePhase where
  | before
  | within
  | after
deriving DecidableEq, Repr

structure Request where
  execute : List String := []
  files : List String := []
  prompt : Option String := none
  inputBase : Option Int := none
  outputBase : Option Int := none
  origin : Option Int := none
  seed : Option Int := none
  maxStack : Option Int := none
deriving DecidableEq, Repr

namespace Request

/-- Records a switch with its argument. -/
def record (r : Request) (s : Switch) (argument : String) : Except UsageError Request :=
  let integer (f : Int → Request) : Except UsageError Request :=
    match IntegerText.decimal? argument with
    | some n => .ok (f n)
    | none => .error (.notAnInteger s argument)
  match s with
  | .help => .error (.ignoredArgument s argument)
  | .execute => .ok { r with execute := r.execute ++ [argument] }
  | .prompt => .ok { r with prompt := some argument }
  | .inputBase => integer fun n => { r with inputBase := some n }
  | .outputBase => integer fun n => { r with outputBase := some n }
  | .origin => integer fun n => { r with origin := some n }
  | .seed => integer fun n => { r with seed := some n }
  | .maxStack => integer fun n => { r with maxStack := some n }
  | .logLevel => .ok r

/-- The settings of an environment, changed as the request asks. -/
def settings (r : Request) (environment : List (String × String)) :
    Except Settings.Defect Settings := do
  let s ← Settings.ofEnvironment environment
  Settings.check { s with
    prompt := r.prompt.getD s.prompt
    inputBase := r.inputBase.getD s.inputBase
    outputBase := r.outputBase.getD s.outputBase
    origin := r.origin.getD s.origin
    seed := r.seed.getD s.seed
    maxStack := r.maxStack.getD s.maxStack }

end Request

/-- What a command line comes to. -/
inductive Purpose where
  /-- The help text is asked for. -/
  | help
  | request (r : Request)
deriving DecidableEq, Repr

/-- Where the files are, once a switch has been read. -/
def FilePhase.atSwitch : FilePhase → FilePhase
  | before => before
  | _ => after

/-- Looks for a defect in the letters behind the letter of `help`; `rest` are the words after
them. -/
def checkLetters (rest : List Word) : List Char → Except UsageError Unit
  | [] => .ok ()
  | letter :: more =>
    if letter = '-' then .error (.ignoredArgument .help (String.ofList (letter :: more)))
    else match Switch.ofSpelling? (String.ofList ['-', letter]) with
      | none => .ok ()
      | some .help =>
        if more.head? = some '=' then
          .error (.ignoredArgument .help (String.ofList (more.drop 1)))
        else checkLetters rest more
      | some s =>
        match more, rest with
        | _ :: _, _ | [], .operand _ :: _ => .ok ()
        | [], _ => .error (.missingArgument s)

/-- Reads the words one after the other; `extra` are those that nothing asks for. -/
def readWords (r : Request) (phase : FilePhase) (extra : List String) :
    List Word → Except UsageError Purpose
  | [] => if extra.isEmpty then .ok (.request r) else .error (.unrecognized extra)
  | .operand text :: rest =>
    if phase = .after then readWords r phase (extra ++ [text]) rest
    else readWords { r with files := r.files ++ [text] } .within extra rest
  | .separator :: rest =>
    if phase = .after then readWords r phase (extra ++ ["--"]) rest
    else readWords r .within extra rest
  | .unknown text :: rest => readWords r phase.atSwitch (extra ++ [text]) rest
  | .switch .help .none :: _ => .ok .help
  | .switch .help (.letters letters) :: rest => do
    checkLetters rest letters
    return .help
  | .switch s (.given argument) :: rest => do
    readWords (← r.record s argument) phase.atSwitch extra rest
  | .switch s (.letters letters) :: rest => do
    readWords (← r.record s (String.ofList letters)) phase.atSwitch extra rest
  | .switch s .none :: .operand argument :: rest => do
    readWords (← r.record s argument) phase.atSwitch extra rest
  | .switch s .none :: _ => .error (.missingArgument s)

/-- Reads the words of a command line. -/
def read (words : List String) : Except UsageError Purpose := do
  readWords {} .before [] (← Word.classifyAll words)

end ArrayCalc.CommandLine
