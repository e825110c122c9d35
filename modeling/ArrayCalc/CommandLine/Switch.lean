import ArrayCalc.Number.IntegerText
import ArrayCalc.Text.Display

/-!
# Switches

What can be asked for on the command line.  A switch is spelled with one dash and a letter or with
two dashes and a word.  A word may be cut short as long as only one switch starts like that.  All
switches but `help` take an argument, which follows as the next word, behind an equals sign, or, if
the spelling is a letter, right behind the letter.  What is right behind the letter of a switch
without argument are the letters of more switches.
-/

namespace ArrayCalc.CommandLine

inductive Switch where
  | help | execute | prompt | inputBase | outputBase | origin | seed | maxStack | logLevel
deriving DecidableEq, Repr

namespace Switch

def all : List Switch :=
  [help, execute, prompt, inputBase, outputBase, origin, seed, maxStack, logLevel]

def spellings : Switch → List String
  | help => ["-h", "--help"]
  | execute => ["-e", "--execute"]
  | prompt => ["--prompt"]
  | inputBase => ["--ibase"]
  | outputBase => ["--obase"]
  | origin => ["--origin"]
  | seed => ["--seed"]
  | maxStack => ["--max-stack"]
  | logLevel => ["--log-level"]

/-- Every spelling with its switch. -/
def spelled : List (String × Switch) :=
  all.flatMap fun s => s.spellings.map fun spelling => (spelling, s)

/-- How an error message names the switch. -/
def name (s : Switch) : String := "/".intercalate s.spellings

def ofSpelling? (spelling : String) : Option Switch := spelled.lookup spelling

end Switch

/-- Why a command line is refused. -/
inductive UsageError where
  | ambiguous (word : String) (candidates : List String)
  | missingArgument (s : Switch)
  | ignoredArgument (s : Switch) (argument : String)
  | notAnInteger (s : Switch) (argument : String)
  | unrecognized (words : List String)
  /-- The switches are in order, but not the settings they ask for. -/
  | settings (reason : String)
deriving DecidableEq, Repr

namespace UsageError

def message : UsageError → String
  | ambiguous word candidates =>
    "ambiguous option: " ++ word ++ " could match " ++ ", ".intercalate candidates
  | missingArgument s => "argument " ++ s.name ++ ": expected one argument"
  | ignoredArgument s argument =>
    "argument " ++ s.name ++ ": ignored explicit argument " ++ Text.shown argument
  | notAnInteger s argument =>
    "argument " ++ s.name ++ ": invalid int value: " ++ Text.shown argument
  | unrecognized words => "unrecognized arguments: " ++ " ".intercalate words
  | settings reason => reason

end UsageError

/-- What a word holds besides the switch. -/
inductive Attachment where
  | none
  /-- What is behind an equals sign. -/
  | given (argument : String)
  /-- What is right behind a letter; there is something. -/
  | letters (text : List Char)
deriving DecidableEq, Repr

/-- What a word of the command line is. -/
inductive Word where
  | operand (text : String)
  /-- Two dashes, behind which all words are operands. -/
  | separator
  | switch (s : Switch) (attached : Attachment)
  /-- Something like a switch that is none. -/
  | unknown (text : String)
deriving DecidableEq, Repr

namespace Word

/-- Whether a word with a dash in front is a negative number. -/
def isNegativeNumber (text : List Char) : Bool :=
  let text := match text.reverse with
    | '\n' :: rest => rest.reverse
    | _ => text
  match text with
  | '-' :: digits =>
    let isDigit (c : Char) : Bool := (Text.decimalDigit? c).isSome
    match digits.dropWhile isDigit with
    | [] => !digits.isEmpty
    | '.' :: decimals => !decimals.isEmpty && decimals.all isDigit
    | _ => false
  | _ => false

/-- The text before the first equals sign and, if there is one, the text behind it. -/
def splitArgument (text : List Char) : List Char × Attachment :=
  match text.dropWhile (· != '=') with
  | [] => (text, .none)
  | _ :: argument => (text.takeWhile (· != '='), .given (String.ofList argument))

/-- The switches that a word with a dash in front can mean, with what is attached to it. -/
def candidates (text : List Char) : List (String × Switch × Attachment) :=
  match text with
  | '-' :: '-' :: _ =>
    let (start, attached) := splitArgument text
    Switch.spelled.filterMap fun (spelling, s) =>
      if start.isPrefixOf spelling.toList then some (spelling, s, attached) else none
  | '-' :: letter :: letters =>
    Switch.spelled.filterMap fun (spelling, s) =>
      if spelling.toList = ['-', letter] then some (spelling, s, .letters letters)
      else if text.isPrefixOf spelling.toList then some (spelling, s, .none)
      else none
  | _ => []

/-- What a word is, before any separator. -/
def classify (word : String) : Except UsageError Word :=
  let chars := word.toList
  let (start, attached) := splitArgument chars
  if chars.head? ≠ some '-' then .ok (.operand word)
  else match Switch.ofSpelling? word with
    | some s => .ok (.switch s .none)
    | none =>
      if chars.length = 1 then .ok (.operand word)
      else match Switch.ofSpelling? (String.ofList start) with
        | some s => .ok (.switch s attached)
        | none =>
          match candidates chars with
          | [(_, s, attached)] => .ok (.switch s attached)
          | [] =>
            if isNegativeNumber chars || chars.contains ' ' then .ok (.operand word)
            else .ok (.unknown word)
          | several => .error (.ambiguous word (several.map Prod.fst))

def classifyAll : List String → Except UsageError (List Word)
  | [] => .ok []
  | "--" :: rest => .ok (.separator :: rest.map .operand)
  | word :: rest => do
    let first ← classify word
    return first :: (← classifyAll rest)

end Word

end ArrayCalc.CommandLine
