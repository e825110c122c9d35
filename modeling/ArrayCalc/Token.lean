import ArrayCalc.Error

/-!
# Tokens
-/

namespace ArrayCalc

inductive TokenKind where
  | endOfInput
  | newline
  | assign
  | char
  | identifier
  | leftBracket
  | leftParen
  | number
  | operator
  | opKeyword
  | rational
  | complex
  | rightBracket
  | rightParen
  | semicolon
  | string
  | colon
deriving DecidableEq, Repr

namespace TokenKind

def name : TokenKind → String
  | endOfInput => "EOF"
  | newline => "Newline"
  | assign => "Assign"
  | char => "Char"
  | identifier => "Identifier"
  | leftBracket => "LeftBracket"
  | leftParen => "LeftParen"
  | number => "Number"
  | operator => "Operator"
  | opKeyword => "Op"
  | rational => "Rational"
  | complex => "Complex"
  | rightBracket => "RightBracket"
  | rightParen => "RightParen"
  | semicolon => "Semicolon"
  | string => "String"
  | colon => "Colon"

/-- The kinds that end a line. -/
def isLineEnd : TokenKind → Bool
  | newline | endOfInput => true
  | _ => false

/-- The kinds that are read as a number. -/
def isNumeral : TokenKind → Bool
  | number | rational | complex => true
  | _ => false

/-- The kinds that end an expression without belonging to it. -/
def endsExpression : TokenKind → Bool
  | newline | endOfInput | semicolon | colon | rightParen | rightBracket => true
  | _ => false

end TokenKind

structure Token where
  kind : TokenKind
  text : String
  /-- The line of the first character, counted from one. -/
  line : Nat
deriving DecidableEq, Repr

namespace Token

/-- How an error message names the token. -/
def describe (t : Token) : String :=
  match t.kind with
  | .endOfInput => "EOF"
  | .newline => "newline"
  | kind => kind.name ++ "(" ++ t.text ++ ")"

/-- A short form for listings; long texts are cut off. -/
def summary (t : Token) : String :=
  if t.kind = .endOfInput then "EOF"
  else
    let chars := t.text.toList
    let shownText := if chars.length > 10 then String.ofList (chars.take 10) ++ "..." else t.text
    t.kind.name ++ ": " ++ shownText

end Token

end ArrayCalc
