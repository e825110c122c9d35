import ArrayCalc.Text.UnicodeRanges

/-!
# Character classes

The classes that decide what a word is, what may stand in a message, and where a text is cut into
words.  Each test settles ASCII by a short test of its own and looks other characters up in
`ArrayCalc.Text.UnicodeRanges`.
-/

namespace ArrayCalc.Text

/-- Whether `code` lies in one of `ranges`, both ends included. -/
def inRanges (ranges : Array (Nat × Nat)) (code : Nat) : Bool :=
  ranges.any fun (low, high) => low ≤ code && code ≤ high

def isAscii (c : Char) : Bool := c.toNat < 128

def isAsciiDigit (c : Char) : Bool := '0' ≤ c && c ≤ '9'

/-- Letters and numbers of every script; combining marks are neither. -/
def isAlphanumeric (c : Char) : Bool :=
  if isAscii c then c.isAlphanum else inRanges UnicodeRanges.lettersAndNumbers c.toNat

/-- Digits of every script, raised and circled ones included; fractions and Roman numerals are
numbers, but no digits. -/
def isDigit (c : Char) : Bool :=
  if isAscii c then isAsciiDigit c else inRanges UnicodeRanges.digits c.toNat

/-- Characters that stand for themselves in a message. -/
def isPrintable (c : Char) : Bool :=
  if isAscii c then ' ' ≤ c && c ≤ '~' else !inRanges UnicodeRanges.unprintable c.toNat

/-- Blank characters: the separators of every script, and the controls that move the cursor or
separate information. -/
def isBlank (c : Char) : Bool :=
  let code := c.toNat
  (9 ≤ code && code ≤ 13) || (28 ≤ code && code ≤ 32) || code == 0x85 || code == 0xa0
    || code == 0x1680 || (0x2000 ≤ code && code ≤ 0x200a) || code == 0x2028 || code == 0x2029
    || code == 0x202f || code == 0x205f || code == 0x3000

/-- The characters that words consist of. -/
def isWordChar (c : Char) : Bool := c == '_' || isAlphanumeric c

/-- The visible ASCII characters that are neither letters nor digits, the underscore among them. -/
def isPunctuation (c : Char) : Bool :=
  isAscii c && !c.isAlphanum && '!' ≤ c && c ≤ '~'

/-- The value of a decimal digit of any script. -/
def decimalDigit? (c : Char) : Option Nat :=
  if isAsciiDigit c then some (c.toNat - '0'.toNat)
  else
    (UnicodeRanges.decimalZeros.find? fun start => start ≤ c.toNat && c.toNat ≤ start + 9).map
      (c.toNat - ·)

/-- Whether `text` can name a variable or an operator: a word that does not start with a digit,
other than the lone underscore. -/
def isIdentifier (text : String) : Bool :=
  match text.toList with
  | [] => false
  | first :: rest =>
    text != "_" && !isDigit first && (first :: rest).all isWordChar

/-! ## § Cutting text -/

/-- The words of `text`, that is its longest runs without a blank. -/
def words (text : List Char) : List (List Char) :=
  let step (c : Char) : List (List Char) → List (List Char)
    | [] => if isBlank c then [[]] else [[c]]
    | word :: rest => if isBlank c then [] :: word :: rest else (c :: word) :: rest
  (text.foldr step [[]]).filter fun word => !word.isEmpty

/-- The text without the characters of a class at its two ends. -/
def trim (p : Char → Bool) (text : List Char) : List Char :=
  ((text.dropWhile p).reverse.dropWhile p).reverse

/-- The text without the blanks at its two ends. -/
def strip (text : List Char) : List Char := trim isBlank text

end ArrayCalc.Text
