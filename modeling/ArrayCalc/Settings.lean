import ArrayCalc.Number.IntegerText
import ArrayCalc.Text.Display

/-!
# Settings

What a session is configured by.  Settings are checked when they are made, the input base first,
then the output base, then the call limit.
-/

namespace ArrayCalc

structure Settings where
  /-- Written before every line of an interactive session. -/
  prompt : String := ""
  /-- The base of number literals; 0 stands for decimal digits with base prefixes. -/
  inputBase : Int := 10
  outputBase : Int := 10
  /-- The index of the first element of a vector. -/
  origin : Int := 1
  /-- Starts the dice. -/
  seed : Int := 1
  floatFormat : String := "%.12g"
  /-- The most operator calls that may be active at a time. -/
  maxStack : Int := 10000
deriving DecidableEq, Repr

namespace Settings

inductive Defect where
  | base (which : String) (base : Int)
  | maxStack (limit : Int)
  | notAnInteger (name : String) (text : String)
deriving DecidableEq, Repr

namespace Defect

def message : Defect → String
  | base which b => which ++ " must be in 2..36, got " ++ Radix.decimalText b
  | maxStack limit => "max stack must be positive, got " ++ Radix.decimalText limit
  | notAnInteger name text => name ++ " must be an integer, got " ++ Text.shown text

end Defect

def isBase (base : Int) : Bool := 2 ≤ base && base ≤ 36

/-- The settings, if they can be worked with. -/
def check (s : Settings) : Except Defect Settings :=
  if s.inputBase ≠ 0 ∧ isBase s.inputBase = false then .error (.base "input base" s.inputBase)
  else if isBase s.outputBase = false then .error (.base "output base" s.outputBase)
  else if s.maxStack < 1 then .error (.maxStack s.maxStack)
  else .ok s

/-- The base whose digits a scanned number starts with. -/
def digitBase (s : Settings) : Int := if s.inputBase = 0 then 10 else s.inputBase

/-! ## § Environment -/

/-- The variables of an environment that hold settings all start with this. -/
def variableStem : String := "IVY_JAX_"

/-- An integer setting of the environment; a blank one counts as missing. -/
def integerVariable (environment : List (String × String)) (key : String) :
    Except Defect (Option Int) :=
  let name := variableStem ++ key
  match environment.lookup name with
  | none => .ok none
  | some text =>
    if (Text.strip text.toList).isEmpty then .ok none
    else match IntegerText.prefixed? text with
      | some n => .ok (some n)
      | none => .error (.notAnInteger name text)

/-- The settings that an environment asks for, with defaults for the others. -/
def ofEnvironment (environment : List (String × String)) : Except Defect Settings := do
  let text (key : String) (other : String) : String :=
    (environment.lookup (variableStem ++ key)).getD other
  let inputBase ← integerVariable environment "IBASE"
  let outputBase ← integerVariable environment "OBASE"
  let origin ← integerVariable environment "ORIGIN"
  let seed ← integerVariable environment "SEED"
  let maxStack ← integerVariable environment "MAX_STACK"
  let standard : Settings := {}
  check {
    prompt := text "PROMPT" standard.prompt
    inputBase := inputBase.getD standard.inputBase
    outputBase := outputBase.getD standard.outputBase
    origin := origin.getD standard.origin
    seed := seed.getD standard.seed
    floatFormat := text "FLOAT_FORMAT" standard.floatFormat
    maxStack := maxStack.getD standard.maxStack }

end Settings

end ArrayCalc
