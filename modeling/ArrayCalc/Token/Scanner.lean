import ArrayCalc.Token
import ArrayCalc.Text.Quoted

/-!
# The scanner

The scanner cuts source text into tokens, one at a time.  Which words are operators depends on the
definitions made so far, so every call is given the vocabulary of the moment.

A lexeme is described by the number of characters it takes from the text, so that what a token
consumes and what is left are always `take` and `drop` of one count.  An error takes the rest of its
line with it.

A plus or minus sign belongs to the number after it, unless the character just before it on the line
ends an operand.
-/

namespace ArrayCalc

/-- What the scanner has to know about the session. -/
structure Vocabulary where
  /-- The base of number literals; 0 stands for decimal digits with base prefixes. -/
  inputBase : Int
  isUnary : String → Bool
  isBinary : String → Bool

namespace Vocabulary

def isOperator (v : Vocabulary) (word : String) : Bool := v.isUnary word || v.isBinary word

def digits (v : Vocabulary) : List Char := Radix.alphabet v.inputBase

/-- Whether a number can start with the character, apart from signs and points. -/
def isNumeral (v : Vocabulary) (c : Char) : Bool := Text.isAsciiDigit c || v.digits.contains c

end Vocabulary

/-- The next piece of a text: a token of so many characters, a comment that stands for the end of
its line, or an error that drops so many characters. -/
inductive Lexeme where
  | token (kind : TokenKind) (length : Nat)
  | comment (length : Nat)
  | bad (cause : LexError.Cause) (dropped : Nat)
deriving DecidableEq

namespace Lexeme

/-- The length of the first run of characters with a property. -/
def runLength (p : Char → Bool) (text : List Char) : Nat := (text.takeWhile p).length

/-- The length of the rest of the line, with the line feed. -/
def lineLength (text : List Char) : Nat :=
  let length := runLength (· != '\n') text
  if length < text.length then length + 1 else length

/-- An error at the start of `text`, which drops the line. -/
def fail (text : List Char) (cause : LexError.Cause) : Lexeme := .bad cause (lineLength text)

/-- The number of characters that a lexeme takes from its text. -/
def length : Lexeme → Nat
  | token _ length | comment length => length
  | bad _ dropped => dropped

def startsWith (c : Char) (text : List Char) : Bool := text.head? == some c

/-- Whether a word or a number may end before `text`.  Besides blanks and punctuation this is the
start of an outer product. -/
def atTerminator (text : List Char) : Bool :=
  match text with
  | [] => true
  | c :: rest =>
    [' ', '\t', '\n', ';'].contains c || Text.isPunctuation c || (c == 'o' && startsWith '.' rest)

/-! ## § Operators -/

def singleOperators : List Char := ['?', '+', '-', '/', '%', '&', '|', '^', ',']

/-- The characters that lengthen a one-character operator. -/
def operatorTails : Char → List Char
  | '!' => ['=']
  | '>' => ['>', '=']
  | '<' => ['<', '=']
  | '*' => ['*']
  | '=' => ['=']
  | _ => []

/-- The length of the operator of special characters that starts with `c`. -/
def symbolLength? (c : Char) (rest : List Char) : Option Nat :=
  if singleOperators.contains c then some 1
  else if (operatorTails c).isEmpty then none
  else if rest.head?.any (operatorTails c).contains then some 2
  else if c = '!' then none
  else some 1

/-- The operator after the point of a product, at the start of `rest`. -/
def combiner (v : Vocabulary) (text : List Char) (length : Nat) (rest : List Char) : Lexeme :=
  let accept (count : Nat) : Lexeme :=
    let word := String.ofList (rest.take count)
    if v.isBinary word then .token .operator (length + count) else fail text (.notAnOperator word)
  match rest with
  | [] => fail text (.badOperator (String.ofList (text.take length)))
  | c :: tail =>
    match symbolLength? c tail with
    | some count => accept count
    | none =>
      if Text.isWordChar c then
        let count := runLength Text.isWordChar rest
        match rest.drop count with
        | next :: others =>
          if atTerminator (next :: others) then accept count else fail text (.badCharacter next)
        | [] => accept count
      else fail text (.badOperator (String.ofList (text.take (length + 1))))

/-- An operator whose first word takes `length` characters.  A binary operator may be followed by
the slash of a reduction, the backslash of a scan, or the point and the second operator of a
product; a point before a digit starts a number. -/
def operator (v : Vocabulary) (text : List Char) (length : Nat) : Lexeme :=
  let word := String.ofList (text.take length)
  if word = "o" ∨ v.isBinary word = true then
    match text.drop length with
    | '/' :: _ | '\\' :: _ => .token .operator (length + 1)
    | '.' :: rest =>
      if rest.head?.any Text.isAsciiDigit then .token .operator length
      else combiner v text (length + 1) rest
    | _ => .token .operator length
  else .token .operator length

/-! ## § Numbers -/

/-- The digits of a number at the start of `text`, and the length of the base prefix before
them. -/
def numberDigits (v : Vocabulary) (text : List Char) : Nat × List Char :=
  if v.inputBase = 0 then
    match text with
    | '0' :: 'x' :: _ | '0' :: 'X' :: _ => (2, Radix.alphabet 16)
    | '0' :: 'o' :: d :: _ | '0' :: 'O' :: d :: _ =>
      if '0' ≤ d ∧ d ≤ '7' then (2, Radix.alphabet 8) else (0, v.digits)
    | _ => (0, v.digits)
  else (0, v.digits)

/-- The length of an exponent at the start of `text`; an error counts the characters read. -/
def exponentLength (text : List Char) : Except Nat Nat :=
  match text with
  | mark :: rest =>
    if mark = 'e' ∨ mark = 'E' then
      let sign := if rest.head?.any ['+', '-'].contains then 1 else 0
      let digits := runLength Text.isAsciiDigit (rest.drop sign)
      if digits = 0 then .error (1 + sign) else .ok (1 + sign + digits)
    else .ok 0
  | [] => .ok 0

/-- Whether a number may end before `text`: a slash or the mark of an imaginary part may follow
where they are allowed. -/
def endsNumber (slash imaginary : Bool) (text : List Char) : Bool :=
  match text with
  | [] => true
  | c :: _ =>
    (slash && c == '/') || (imaginary && c == 'j')
      || (!(c != 'o' && Text.isWordChar c) && c != '.' && atTerminator text)

/-- The length of a number without sign at the start of `text`; an error counts the characters
read, the offending one included. -/
def realLength (v : Vocabulary) (slash imaginary : Bool) (text : List Char) : Except Nat Nat :=
  let (skipped, digits) := numberDigits v text
  let whole := skipped + runLength digits.contains (text.drop skipped)
  let mantissa :=
    match text.drop whole with
    | '.' :: rest => whole + 1 + runLength digits.contains rest
    | _ => whole
  match exponentLength (text.drop mantissa) with
  | .error count => .error (mantissa + count)
  | .ok count =>
    let length := mantissa + count
    if endsNumber slash imaginary (text.drop length) then .ok length else .error (length + 1)

def startsNumber (v : Vocabulary) (text : List Char) : Bool :=
  text.head?.any fun c => c == '.' || v.isNumeral c

/-- The length of a number or a quotient of two.  A slash with no number behind it is left to the
next token. -/
def quotientLength (v : Vocabulary) (imaginary : Bool) (text : List Char) : Except Nat Nat :=
  match realLength v true imaginary text with
  | .error count => .error count
  | .ok length =>
    match text.drop length with
    | '/' :: rest =>
      if startsNumber v rest then
        match realLength v false imaginary rest with
        | .error count => .error (length + 1 + count)
        | .ok count => .ok (length + 1 + count)
      else .ok length
    | _ => .ok length

def badNumber (text : List Char) (length : Nat) : Lexeme :=
  fail text (.badNumber (String.ofList (text.take length)))

/-- The token of a number that takes `length` characters. -/
def numberToken (v : Vocabulary) (text : List Char) (length : Nat) : Lexeme :=
  let word := text.take length
  if word.contains 'j' && !v.digits.contains 'j' then .token .complex length
  else if word.contains '/' then .token .rational length
  else .token .number length

/-- The length of a sign at the start of `text`. -/
def signLength (text : List Char) : Nat := if text.head?.any ['+', '-'].contains then 1 else 0

/-- A number with its sign and imaginary part, from `sign` characters on. -/
def signedNumber (v : Vocabulary) (text : List Char) (sign : Nat) : Lexeme :=
  match quotientLength v true (text.drop sign) with
  | .error count => badNumber text (sign + count)
  | .ok count =>
    let length := sign + count
    match text.drop length with
    | 'j' :: rest =>
      let second := length + 1 + signLength rest
      match quotientLength v false (text.drop second) with
      | .error count => badNumber text (second + count)
      | .ok count => numberToken v text (second + count)
    | _ => numberToken v text length

/-- A number at the start of `text`, which may have a sign; a sign without a number is an
operator. -/
def number (v : Vocabulary) (text : List Char) : Lexeme :=
  if signLength text = 1 then
    match text.drop 1 with
    | '/' :: _ | '\\' :: _ => .token .operator 2
    | rest => if startsNumber v rest then signedNumber v text 1 else operator v text 1
  else signedNumber v text 0

/-! ## § Words and quotes -/

/-- A keyword, an operator, a number that starts with a letter, or a name. -/
def word (v : Vocabulary) (text : List Char) : Lexeme :=
  let length := runLength Text.isWordChar text
  let chars := text.take length
  let name := String.ofList chars
  let rest := text.drop length
  match rest with
  | c :: _ =>
    if atTerminator rest = false then fail text (.badCharacter c) else named chars name rest length
  | [] => named chars name rest length
where
  named (chars : List Char) (name : String) (rest : List Char) (length : Nat) : Lexeme :=
    if name = "op" then .token .opKeyword length
    else if name = "o" then
      if startsWith '.' rest then operator v text length else .token .identifier length
    else if v.isOperator name then operator v text length
    else if Radix.isAllDigits chars v.inputBase then number v text
    else .token .identifier length

/-- The length of a quoted text after its opening quote, if it ends before the line does. -/
def quotedLength? (quote : Char) : List Char → Option Nat
  | [] => none
  | '\n' :: _ => none
  | '\\' :: c :: rest => if c = '\n' then none else (quotedLength? quote rest).map (· + 2)
  | c :: rest => if c = quote then some 1 else (quotedLength? quote rest).map (· + 1)

def quoted (quote : Char) (text : List Char) : Lexeme :=
  match quotedLength? quote (text.drop 1) with
  | some length => .token .string (1 + length)
  | none => fail text .unterminatedString

/-- Raw text may span lines; without its end it takes all that is left. -/
def raw (text : List Char) : Lexeme :=
  let length := 1 + runLength (· != Text.Quoted.backquote) (text.drop 1)
  if length < text.length then .token .string (length + 1)
  else .bad .unterminatedRawString text.length

def bracket? : Char → Option TokenKind
  | '[' => some .leftBracket
  | ']' => some .rightBracket
  | '(' => some .leftParen
  | ')' => some .rightParen
  | ':' => some .colon
  | _ => none

/-- Whether a sign after the character just before it is an operator. -/
def endsOperand (c : Char) : Bool := Text.isWordChar c || c == ')' || c == ']'

/-- A sign: the start of a number, unless an operand ends just before it or no number can
follow. -/
def signed (v : Vocabulary) (previous : Option Char) (text rest : List Char) : Lexeme :=
  match previous with
  | some c =>
    if endsOperand c || (startsWith '.' rest && !(rest.drop 1).head?.any v.isNumeral) then
      operator v text 1
    else number v text
  | none => number v text

/-- The lexeme at the start of a text that does not start with a blank; `previous` is the character
before it on the line. -/
def ofText (v : Vocabulary) (previous : Option Char) (c : Char) (rest : List Char) : Lexeme :=
  let text := c :: rest
  if c = '\n' then .token .newline 1
  else if c = ';' then .token .semicolon 1
  else if c = '#' then .comment (lineLength text)
  else if c = '\'' ∨ c = '"' then quoted c text
  else if c = Text.Quoted.backquote then raw text
  else if c = '+' ∨ c = '-' then signed v previous text rest
  else if c = '.' ∨ Text.isAsciiDigit c = true then number v text
  else if c = '=' then
    if startsWith '=' rest then operator v text 2 else .token .assign 1
  else match symbolLength? c rest with
    | some length => operator v text length
    | none =>
      if Text.isWordChar c then word v text
      else match bracket? c with
        | some kind => .token kind 1
        | none =>
          if Text.isAscii c then .token .char 1 else fail text (.unrecognized c)

end Lexeme

/-! ## § The state of the scanner -/

structure Scanner where
  /-- The text that is not scanned yet. -/
  rest : List Char
  /-- The character before it on its line; nothing at the start of a line and after an error. -/
  previous : Option Char
  /-- The number of line feeds scanned. -/
  feeds : Nat
deriving DecidableEq

namespace Scanner

/-- A scanner at the start of a source.  Carriage returns mean nothing anywhere in it. -/
def ofSource (source : List Char) : Scanner where
  rest := source.filter (· != '\r')
  previous := none
  feeds := 0

/-- The current line, counted from one. -/
def line (s : Scanner) : Nat := s.feeds + 1

/-- The number of lines that have been begun. -/
def linesBegun (s : Scanner) : Nat := s.feeds + s.previous.toList.length

/-- The scanner at the start of another text, which takes the place of what is not scanned yet. -/
def goOn (s : Scanner) (text : List Char) : Scanner :=
  { ofSource text with feeds := s.feeds }

/-- The scanner after `count` more characters. -/
def advance (s : Scanner) (count : Nat) : Scanner :=
  let taken := s.rest.take count
  { rest := s.rest.drop count
    previous := match taken.getLast? with
      | none => s.previous
      | some c => if c = '\n' then none else some c
    feeds := s.feeds + taken.count '\n' }

/-- The scanner after an error that drops `count` characters. -/
def abandon (s : Scanner) (count : Nat) : Scanner :=
  { s.advance count with previous := none }

def skipBlanks (s : Scanner) : Scanner :=
  s.advance (Lexeme.runLength (fun c => c == ' ' || c == '\t') s.rest)

/-- The next token or error, and the scanner after it.  At the end of the source the token is the
end itself, again and again. -/
def next (v : Vocabulary) (s : Scanner) : Except LexError Token × Scanner :=
  let s := s.skipBlanks
  match s.rest with
  | [] => (.ok ⟨.endOfInput, "EOF", s.line⟩, s)
  | c :: rest =>
    match Lexeme.ofText v s.previous c rest with
    | .token kind length =>
      (.ok ⟨kind, String.ofList (s.rest.take length), s.line⟩, s.advance length)
    | .comment length => (.ok ⟨.newline, "\n", s.line⟩, s.advance length)
    | .bad cause dropped => (.error ⟨cause, s.line⟩, s.abandon dropped)

/-- The scanner when it is given up after `count` characters of a token.  These characters are lost.
If the last of them is the end of a line, the scanner takes it for a part of a token, and never asks
for another line; only in raw text it expects lines to go on. -/
def tear (v : Vocabulary) (s : Scanner) (count : Nat) : Scanner :=
  let s := s.skipBlanks
  match s.rest with
  | [] => s
  | c :: rest =>
    let lost := min count (Lexeme.ofText v s.previous c rest).length
    if c ≠ Text.Quoted.backquote ∧ (s.rest.take lost).getLast? = some '\n' then
      { s with rest := [], previous := none }
    else s.advance lost

/-- The raw text up to the end of the current line, without the line feed.  At the start of a line
there is no current line yet. -/
def restOfLine (s : Scanner) : List Char × Scanner :=
  match s.previous with
  | none => ([], s)
  | some _ =>
    let length := Lexeme.lineLength s.rest
    ((s.rest.take length).filter (· != '\n'), s.advance length)

end Scanner

end ArrayCalc
