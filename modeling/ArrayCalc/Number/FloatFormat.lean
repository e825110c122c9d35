import ArrayCalc.Number.Decimal
import ArrayCalc.Text.CharClass

/-!
# Float formats

A float format is a text with one conversion in it, such as `%.12g`: flags, a least width, a
precision, a mark of length that means nothing, and a letter.  `FloatFormat.read` takes the text
apart once; `FloatFormat.apply` writes a double by the record.
-/

namespace ArrayCalc

/-- What a conversion shows of a double. -/
inductive FloatFormat.Style where
  /-- One digit, a point, and an exponent. -/
  | scientific
  /-- A fixed number of digits after the point. -/
  | fixed
  /-- Significant digits, in the shorter of the two layouts. -/
  | general
  /-- The integer part. -/
  | integer
  /-- The shortest text that is read back as the double. -/
  | shortest
deriving DecidableEq, Repr

/-- What stands between the percent sign and the letter of a conversion. -/
structure FloatFormat.Layout where
  /-- Filled up on the right. -/
  leftAligned : Bool := false
  /-- A plus sign before numbers that are not negative. -/
  plusSign : Bool := false
  /-- A blank in the place of that plus sign. -/
  blankSign : Bool := false
  /-- The point and the zeros at the end stay. -/
  alternate : Bool := false
  /-- Filled up with zeros behind the sign. -/
  zeroFilled : Bool := false
  width : Nat := 0
  precision : Option Nat := none
deriving DecidableEq, Repr

/-- A conversion and the text around it. -/
structure FloatFormat extends FloatFormat.Layout where
  before : String := ""
  after : String := ""
  style : FloatFormat.Style
  /-- Letters are capitals. -/
  capital : Bool := false
deriving DecidableEq, Repr

namespace FloatFormat

/-- Why a text is no float format. -/
inductive Defect where
  | noConversion
  | secondConversion
  /-- A value is asked for by its name. -/
  | mapping
  /-- A width or a precision is left to another value. -/
  | starred
  /-- The letter of a conversion that takes characters. -/
  | character
  /-- The letter of a conversion that takes integers only. -/
  | integersOnly (letter : Char)
  | unsupported (letter : Char) (position : Nat)
  | incomplete
deriving DecidableEq, Repr

namespace Defect

def message : Defect → String
  | noConversion => "not all arguments converted during string formatting"
  | secondConversion => "not enough arguments for format string"
  | mapping => "format requires a mapping"
  | starred => "* wants int"
  | character => "%c requires int or char"
  | integersOnly letter =>
    "%" ++ String.singleton letter ++ " format: an integer is required, not float"
  | unsupported letter position =>
    "unsupported format character '" ++ String.singleton letter ++ "' (0x"
      ++ String.ofList (Radix.digitsOf 16 letter.toNat) ++ ") at index "
      ++ Radix.natText position
  | incomplete => "incomplete format"

end Defect

def isFlag (c : Char) : Bool := ['-', '+', ' ', '#', '0'].contains c

/-- The precision at the start of a text, if there is one. -/
def precisionOf (text : List Char) : Except Defect (Option Nat × List Char) :=
  match text with
  | '.' :: rest =>
    if rest.head? = some '*' then .error .starred
    else .ok (some (Radix.valueOf 10 (rest.takeWhile Text.isAsciiDigit)),
      rest.dropWhile Text.isAsciiDigit)
  | _ => .ok (none, text)

/-- The text without a mark of length at its start. -/
def dropLengthMark : List Char → List Char
  | [] => []
  | c :: rest => if ['h', 'l', 'L'].contains c then rest else c :: rest

/-- The layout at the start of a text, and what comes after it. -/
def layoutOf (text : List Char) : Except Defect (Layout × List Char) := do
  if text.head? = some '(' then .error .mapping
  else
    let flags := text.takeWhile isFlag
    let afterFlags := text.dropWhile isFlag
    if afterFlags.head? = some '*' then .error .starred
    else
      let (precision, rest) ← precisionOf (afterFlags.dropWhile Text.isAsciiDigit)
      return ({
        leftAligned := flags.contains '-'
        plusSign := flags.contains '+'
        blankSign := flags.contains ' '
        alternate := flags.contains '#'
        zeroFilled := flags.contains '0'
        width := Radix.valueOf 10 (afterFlags.takeWhile Text.isAsciiDigit)
        precision := precision }, dropLengthMark rest)

/-- Takes the text up to the next conversion, with `%%` standing for a percent sign. -/
def splitAtConversion : List Char → List Char × Option (List Char)
  | [] => ([], none)
  | '%' :: '%' :: rest =>
    let (text, tail) := splitAtConversion rest
    ('%' :: text, tail)
  | '%' :: rest => ([], some rest)
  | c :: rest =>
    let (text, tail) := splitAtConversion rest
    (c :: text, tail)

/-- The style that a conversion letter names, and whether it asks for capitals; `position` is its
place in the whole text. -/
def styleOf (letter : Char) (position : Nat) : Except Defect (Style × Bool) :=
  match letter with
  | 'e' => .ok (.scientific, false)
  | 'E' => .ok (.scientific, true)
  | 'f' => .ok (.fixed, false)
  | 'F' => .ok (.fixed, true)
  | 'g' => .ok (.general, false)
  | 'G' => .ok (.general, true)
  | 'd' | 'i' | 'u' => .ok (.integer, false)
  | 's' | 'r' | 'a' => .ok (.shortest, false)
  | 'c' => .error .character
  | 'o' | 'x' | 'X' => .error (.integersOnly letter)
  | _ => .error (.unsupported letter position)

/-- The text behind the conversion, which may not hold another one. -/
def textAfter (text : List Char) : Except Defect String :=
  match splitAtConversion text with
  | (after, none) => .ok (String.ofList after)
  | (_, some conversion) =>
    match layoutOf conversion with
    | .error .mapping => .error .mapping
    | .ok (_, []) => .error .incomplete
    | _ => .error .secondConversion

/-- Reads a float format. -/
def read (text : String) : Except Defect FloatFormat := do
  let chars := text.toList
  match splitAtConversion chars with
  | (_, none) => .error .noConversion
  | (before, some conversion) =>
    match ← layoutOf conversion with
    | (_, []) => .error .incomplete
    | (layout, letter :: tail) =>
      let (style, capital) ← styleOf letter (chars.length - (tail.length + 1))
      let after ← textAfter tail
      return { layout with before := String.ofList before, after, style, capital }

/-! ## § Writing a number -/

/-- The significant digits of `num / den`, with zero as nothing but zeros. -/
def digitsOrZeros (count num den : Nat) : Decimal.Scientific :=
  if num = 0 then ⟨List.replicate count '0', 0⟩ else Decimal.significant count num den

def scientificText (precision num den : Nat) (keepPoint : Bool) : List Char :=
  let s := digitsOrZeros (precision + 1) num den
  Decimal.pointAfterFirst s.digits keepPoint ++ Decimal.exponentText 'e' s.exponent

def fixedText (precision num den : Nat) (keepPoint : Bool) : List Char :=
  Decimal.pointBeforeLast precision
    (Radix.digitsOf 10 (Decimal.fixedPlaces precision num den)) keepPoint

/-- The scientific layout below 10^-4 and where the digits do not reach the units, the positional
one elsewhere; zeros at the end are dropped unless they are kept on purpose. -/
def generalText (precision num den : Nat) (alternate : Bool) : List Char :=
  let count := max precision 1
  let s := digitsOrZeros count num den
  if s.exponent < -4 ∨ (count : Int) ≤ s.exponent then
    let digits := if alternate then s.digits
      else match s.digits with
        | [] => []
        | first :: rest => first :: Decimal.dropTrailingZeros rest
    Decimal.pointAfterFirst digits alternate ++ Decimal.exponentText 'e' s.exponent
  else
    let places := ((count : Int) - 1 - s.exponent).toNat
    let text := Decimal.pointBeforeLast places s.digits alternate
    if alternate || places = 0 then text
    else match (Decimal.dropTrailingZeros text).reverse with
      | '.' :: whole => whole.reverse
      | kept => kept.reverse

/-- An integer with at least so many digits. -/
def integerText (precision n : Nat) : List Char :=
  let digits := Radix.digitsOf 10 n
  List.replicate (precision - digits.length) '0' ++ digits

/-- Why a double has no text in a format: the conversion shows the integer part, and there is
none. -/
inductive NoInteger where
  | undefined
  | infinite
deriving DecidableEq, Repr

/-- The text of the size of a number, before sign and filling. -/
def sizeText (format : FloatFormat) : Double.Magnitude → Except NoInteger (List Char)
  | .nan => if format.style = .integer then .error .undefined else .ok ['n', 'a', 'n']
  | .infinite => if format.style = .integer then .error .infinite else .ok ['i', 'n', 'f']
  | .finite mantissa exponent =>
    let num := mantissa * twos exponent
    let den := twos (-exponent)
    let precision := format.precision.getD 6
    match format.style with
    | .scientific => .ok (scientificText precision num den format.alternate)
    | .fixed => .ok (fixedText precision num den format.alternate)
    | .general => .ok (generalText precision num den format.alternate)
    | .integer => .ok (integerText (format.precision.getD 0) (num / den))
    | .shortest => .ok []

/-- Whether a minus sign is shown; what is no number has none, nor has the integer zero. -/
def showsMinus (format : FloatFormat) (x : Float) : Bool :=
  Double.isNegative x &&
    match Double.magnitude x with
    | .nan => false
    | .infinite => true
    | .finite mantissa exponent =>
      format.style != .integer || mantissa * twos exponent / twos (-exponent) != 0

def signText (format : FloatFormat) (x : Float) : List Char :=
  if format.showsMinus x then ['-']
  else if format.plusSign then ['+']
  else if format.blankSign then [' ']
  else []

/-- A text filled up to the width, with zeros between its two parts if that is asked for. -/
def fill (format : FloatFormat) (sign size : List Char) (zeros : Bool) : List Char :=
  let missing := format.width - (sign.length + size.length)
  if format.leftAligned then sign ++ size ++ List.replicate missing ' '
  else if zeros then sign ++ List.replicate missing '0' ++ size
  else List.replicate missing ' ' ++ sign ++ size

/-- The text of a double, without what stands around it.  The shortest text is cut to the precision
and has no sign apart from its own. -/
def field (format : FloatFormat) (x : Float) : Except NoInteger (List Char) :=
  if format.style = .shortest then
    let text := (Decimal.shortestText x).toList
    .ok (format.fill [] (text.take (format.precision.getD text.length)) false)
  else do
    let size ← format.sizeText (Double.magnitude x)
    return format.fill (format.signText x) (if format.capital then size.map Char.toUpper else size)
      format.zeroFilled

/-- A double by the format, with the text around it. -/
def apply (format : FloatFormat) (x : Float) : Except NoInteger String := do
  return format.before ++ String.ofList (← format.field x) ++ format.after

/-- The format of a fixed number of significant digits. -/
def general (precision : Nat) : FloatFormat where
  style := .general
  precision := some precision

end FloatFormat

end ArrayCalc
