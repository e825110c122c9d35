import ArrayCalc.Text.CharClass
import ArrayCalc.Number.Radix

/-!
# Text shown inside messages

A message shows a name, a character or a piece of source between quotes, with everything that has
no printed form written as an escape, so that the message stays on one line and tells apart texts
that look alike.
-/

namespace ArrayCalc.Text

/-- `code` in lower-case hexadecimal, filled up with zeros to `width` digits. -/
def hexPadded (width code : Nat) : List Char :=
  let digits := Radix.digitsOf 16 code
  List.replicate (width - digits.length) '0' ++ digits

/-- One character of a shown text; `quote` is the quote around the text. -/
def shownChar (quote c : Char) : List Char :=
  if c == quote || c == '\\' then ['\\', c]
  else if c == '\n' then ['\\', 'n']
  else if c == '\r' then ['\\', 'r']
  else if c == '\t' then ['\\', 't']
  else if isPrintable c then [c]
  else if c.toNat < 0x100 then '\\' :: 'x' :: hexPadded 2 c.toNat
  else if c.toNat < 0x10000 then '\\' :: 'u' :: hexPadded 4 c.toNat
  else '\\' :: 'U' :: hexPadded 8 c.toNat

/-- The text between quotes.  Single quotes are used unless the text holds a single quote and no
double one. -/
def shown (text : String) : String :=
  let chars := text.toList
  let quote := if chars.contains '\'' && !chars.contains '"' then '"' else '\''
  String.ofList (quote :: chars.flatMap (shownChar quote) ++ [quote])

end ArrayCalc.Text
