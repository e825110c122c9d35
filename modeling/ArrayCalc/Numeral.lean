import ArrayCalc.Value.Lattice

/-!
# Numerals

The text of a number is tried as an integer in the given base, then, with decimal digits, as a
decimal with an exponent.  Decimals are exact as long as they fit; a wider one is replaced by the
closest fraction to its nearest double, and by the double itself if even that does not fit.
`a/b` joins two such numbers to a quotient and `ajb` two quotients to a complex number.

Base 0 stands for decimal digits with `0x` and `0o` in front of other ones.
-/

namespace ArrayCalc

namespace Numeral

/-- Why a numeral has no value: its text is wrong, or it is too large for a double. -/
inductive Failure where
  | error (e : NumeralError)
  | overflow
deriving DecidableEq

abbrev Reading := Except Failure

def refuse {α : Type} (e : NumeralError) : Reading α := .error (.error e)

/-- The most digits that are read in a base that is not a power of two. -/
def digitLimit : Nat := 4300

/-- The number written by a run of digits. -/
def natural (base : Int) (digits : List Char) : Reading Nat :=
  if base < 2 ∨ 36 < base then refuse .unsupportedBase
  else if digits.length > digitLimit ∧ [2, 4, 8, 16, 32].contains base = false then
    refuse (.tooManyDigits digits.length)
  else .ok (Radix.valueOf base.toNat digits)

/-- Takes the sign off; `true` is a minus. -/
def splitSign : List Char → Bool × List Char
  | '-' :: rest => (true, rest)
  | '+' :: rest => (false, rest)
  | text => (false, text)

def applySign (negative : Bool) (n : Int) : Int := if negative then -n else n

/-- The base of the digits and the digits themselves, with base 0 resolved. -/
def splitBase (base : Int) (text : List Char) : Int × List Char :=
  if base = 0 then
    match text with
    | '0' :: 'x' :: rest | '0' :: 'X' :: rest => (16, rest)
    | '0' :: 'o' :: rest | '0' :: 'O' :: rest => (8, rest)
    | _ => (10, text)
  else (base, text)

/-- An integer, if the text is one. -/
def integer? (text : List Char) (base : Int) : Reading (Option Int) := do
  let (negative, body) := splitSign text
  let (base, digits) := splitBase base body
  if Radix.isAllDigits digits base then
    return some (applySign negative (← natural base digits))
  else return none

/-! ## § Decimals -/

/-- A decimal, taken apart. -/
structure Parts where
  negative : Bool
  whole : List Char
  decimals : List Char
  exponent : Option (Bool × List Char)
deriving DecidableEq

/-- Takes the exponent of a decimal apart, as far as there is one; a line feed may follow. -/
def splitExponent (text : List Char) : Option (Option (Bool × List Char)) :=
  match text with
  | [] | ['\n'] => some none
  | mark :: rest =>
    if mark = 'e' ∨ mark = 'E' then
      let (negative, digits) := splitSign rest
      let run := digits.takeWhile Text.isAsciiDigit
      let tail := digits.dropWhile Text.isAsciiDigit
      if run.isEmpty ∨ ¬(tail = [] ∨ tail = ['\n']) then none else some (some (negative, run))
    else none

/-- A sign, digits with a point among them or at either end, and an exponent. -/
def decimal? (text : List Char) : Option Parts := do
  let (negative, body) := splitSign text
  let whole := body.takeWhile Text.isAsciiDigit
  let (decimals, tail) := match body.dropWhile Text.isAsciiDigit with
    | '.' :: rest => (rest.takeWhile Text.isAsciiDigit, rest.dropWhile Text.isAsciiDigit)
    | rest => ([], rest)
  if whole.isEmpty && decimals.isEmpty then none
  else return ⟨negative, whole, decimals, ← splitExponent tail⟩

/-- The value of a run of digits that may be missing. -/
def run (digits : List Char) : Reading Nat :=
  if digits.isEmpty then .ok 0 else natural 10 digits

/-- The exact value of a decimal. -/
def Parts.value (d : Parts) : Reading Rat := do
  let whole ← run d.whole
  let decimals ← run d.decimals
  let scale := tens d.decimals.length
  let size : Rat := mkRat ((whole * scale + decimals : Nat) : Int) scale
  let scaled ← match d.exponent with
    | none => pure size
    | some (negative, digits) => do
      let power : Rat := tens (← natural 10 digits)
      pure (if negative then size / power else size * power)
  return if d.negative then -scaled else scaled

/-- An exact value as a scalar: as it is if it fits; otherwise as the closest fraction to its
nearest double, if that fits; otherwise as the double. -/
def ofExact (q : Rat) : Scalar :=
  match Scalar.ofRat q with
  | .ok (.float x) =>
    let approximation := Approximation.closest 0x7fffffffffffffff ((Double.toRat? x).getD 0)
    match Scalar.ofRat approximation with
    | .ok (.float _) | .error _ => .float x
    | .ok exact => exact
  | .ok exact => exact
  | .error _ => .float (if q < 0 then -Double.infinity else Double.infinity)

/-- A number without a slash or an imaginary part. -/
def real (text : List Char) (base : Int) : Reading Scalar := do
  if text.isEmpty then refuse .empty
  else match ← integer? text base with
    | some n =>
      if Fits64 n then return .ofInt n
      else match Double.nearest? (n : Rat) with
        | some x => return .float x
        | none => .error .overflow
    | none =>
      if base ≠ 0 ∧ base ≠ 10 then refuse (.malformed (String.ofList text))
      else match decimal? text with
        | none => refuse (.malformed (String.ofList text))
        | some d => return ofExact (← d.value)

/-! ## § Quotients and complex numbers -/

/-- The text before and after the first `mark`. -/
def splitAt? (mark : Char) (text : List Char) : Option (List Char × List Char) :=
  match text.dropWhile (· != mark) with
  | [] => none
  | _ :: rest => some (text.takeWhile (· != mark), rest)

/-- The quotient of two exact numbers of which at most one is a fraction already. -/
def quotient (text : List Char) (num den : Scalar) : Reading Scalar :=
  let text := String.ofList text
  match num, den with
  | .rational _, .rational _ => refuse (.bothFractions text)
  | _, _ =>
    match Value.toRat (.scalar num), Value.toRat (.scalar den) with
    | .ok n, .ok d =>
      if d = 0 then refuse (.zeroDenominator text)
      else match Scalar.ofRat (n / d) with
        | .ok q => .ok q
        | .error _ => .error .overflow
    | _, _ => refuse (.notRational text)

def rational (text : List Char) (base : Int) : Reading Scalar :=
  match splitAt? '/' text with
  | none => real text base
  | some (num, den) => do
    let n ← real num base
    let d ← real den base
    quotient text n d

def toFloat (s : Scalar) : Float :=
  match Value.toFloat (.scalar s) with
  | .ok x => x
  | .error _ => 0

/-- Reads the text of a number.  From base 20 up, `j` is a digit and separates nothing. -/
def read (text : String) (base : Int) : Reading Scalar :=
  let chars := text.toList
  if (Radix.alphabet base).contains 'j' then rational chars base
  else match splitAt? 'j' chars with
    | none => rational chars base
    | some (re, im) => do
      let re ← rational re base
      let im ← rational im base
      return .complex ⟨toFloat re, toFloat im⟩

end Numeral

end ArrayCalc
