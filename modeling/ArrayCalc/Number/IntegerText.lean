import ArrayCalc.Number.Radix
import ArrayCalc.Text.CharClass

/-!
# Integers as settings take them

Options and variables of the environment hold integers in a freer form than source text: blanks
beside them, digits of any script, and single underscores between digits.  With base detection a
prefix chooses base 16, 8 or 2, and a number that is not zero must not start with a zero.
-/

namespace ArrayCalc.IntegerText

/-- The most digits that are read in base 10. -/
def digitLimit : Nat := 4300

/-- A decimal digit of any script as an ASCII digit; other characters stay. -/
def plainDigit (c : Char) : Char :=
  match Text.decimalDigit? c with
  | some digit => Radix.digitChar digit
  | none => c

/-- The value of a digit in `base`. -/
def digit? (base : Nat) (c : Char) : Option Nat :=
  if Text.isAscii c && c.isAlphanum then (some (Radix.digitValue c)).filter (· < base) else none

/-- The values of digits with single underscores between them; `after` tells whether a digit stands
just before. -/
def digits? (base : Nat) : Bool → List Char → Option (List Nat)
  | after, [] => if after then some [] else none
  | after, '_' :: rest => if after then digits? base false rest else none
  | _, c :: rest => do
    let digit ← digit? base c
    let others ← digits? base true rest
    return digit :: others

/-- The value of a run of digits in `base`. -/
def natural? (base : Nat) (text : List Char) : Option Nat := do
  let digits ← digits? base false text
  if base = 10 ∧ digits.length > digitLimit then none
  else return digits.foldl (fun value digit => value * base + digit) 0

/-- The number behind a sign when the base is detected. -/
def detected? (text : List Char) : Option Nat :=
  let afterMark (rest : List Char) : List Char :=
    match rest with
    | '_' :: digits => digits
    | _ => rest
  match text with
  | '0' :: 'x' :: rest | '0' :: 'X' :: rest => natural? 16 (afterMark rest)
  | '0' :: 'o' :: rest | '0' :: 'O' :: rest => natural? 8 (afterMark rest)
  | '0' :: 'b' :: rest | '0' :: 'B' :: rest => natural? 2 (afterMark rest)
  | '0' :: _ => (natural? 10 text).filter (· == 0)
  | _ => natural? 10 text

/-- The number that some digits with a sign stand for. -/
def signed? (natural : List Char → Option Nat) (text : List Char) : Option Int :=
  match text.map plainDigit with
  | '-' :: rest => (natural rest).map fun n => -(n : Int)
  | '+' :: rest => (natural rest).map fun n => (n : Int)
  | rest => (natural rest).map fun n => (n : Int)

/-- Whether a character may stand beside a decimal integer: a blank that is no separator of
information. -/
def isMargin (c : Char) : Bool := Text.isBlank c && !('\x1c' ≤ c && c ≤ '\x1f')

/-- A decimal integer. -/
def decimal? (text : String) : Option Int := signed? (natural? 10) (Text.trim isMargin text.toList)

/-- An integer whose base is shown by its prefix, with any blanks beside it. -/
def prefixed? (text : String) : Option Int := signed? detected? (Text.strip text.toList)

end ArrayCalc.IntegerText
