/-!
# Positional notation

Bases run from 2 to 36.  A digit above nine is written as a letter; both cases are read, and lower
case is written.  `alphabet` is the set of digit characters that the scanner and the numeral reader
share, so that what the one lets through the other can read.
-/

namespace ArrayCalc.Radix

def decimalDigits : List Char := ['0', '1', '2', '3', '4', '5', '6', '7', '8', '9']

def lowerLetters : List Char :=
  ['a', 'b', 'c', 'd', 'e', 'f', 'g', 'h', 'i', 'j', 'k', 'l', 'm',
   'n', 'o', 'p', 'q', 'r', 's', 't', 'u', 'v', 'w', 'x', 'y', 'z']

def upperLetters : List Char :=
  ['A', 'B', 'C', 'D', 'E', 'F', 'G', 'H', 'I', 'J', 'K', 'L', 'M',
   'N', 'O', 'P', 'Q', 'R', 'S', 'T', 'U', 'V', 'W', 'X', 'Y', 'Z']

/-- The digit characters of a base: the decimal ones, then the letters in both cases.  Base 0 asks
for decimal digits.  Any integer is answered: a negative base drops digits from the end of the
decimal ones, and a base above 36 has no more than all letters. -/
def alphabet (base : Int) : List Char :=
  if base = 0 then decimalDigits
  else if base < 0 then decimalDigits.take (10 - base.natAbs)
  else if base ≤ 10 then decimalDigits.take base.toNat
  else
    let letters := base.toNat - 10
    decimalDigits ++ lowerLetters.take letters ++ upperLetters.take letters

/-- Whether `text` is a non-empty run of digits of `base`. -/
def isAllDigits (text : List Char) (base : Int) : Bool :=
  !text.isEmpty && text.all (alphabet base).contains

/-- What a digit character stands for; characters that are no digits count as zero. -/
def digitValue (c : Char) : Nat :=
  if '0' ≤ c && c ≤ '9' then c.toNat - '0'.toNat
  else if 'a' ≤ c && c ≤ 'z' then c.toNat - 'a'.toNat + 10
  else if 'A' ≤ c && c ≤ 'Z' then c.toNat - 'A'.toNat + 10
  else 0

/-- The number that a run of digits stands for. -/
def valueOf (base : Nat) (digits : List Char) : Nat :=
  digits.foldl (fun value c => value * base + digitValue c) 0

/-- The character of a digit. -/
def digitChar (digit : Nat) : Char :=
  Char.ofNat (if digit < 10 then '0'.toNat + digit else 'a'.toNat + (digit - 10))

/-- The places of `n`, the lowest first; a number below the base has one. -/
def places (base n : Nat) : List Nat :=
  if n < base ∨ base < 2 then [n]
  else n % base :: places base (n / base)
termination_by n
decreasing_by exact Nat.div_lt_self (by omega) (by omega)

/-- `n` written in `base`, without leading zeros. -/
def digitsOf (base n : Nat) : List Char :=
  (places base n).reverse.map digitChar

/-- An integer written in `base`, with a minus sign if it is negative. -/
def intText (base : Nat) (n : Int) : List Char :=
  if n < 0 then '-' :: digitsOf base n.natAbs else digitsOf base n.natAbs

def natText (n : Nat) : String := String.ofList (digitsOf 10 n)

def decimalText (n : Int) : String := String.ofList (intText 10 n)

end ArrayCalc.Radix
