import ArrayCalc.Error

/-!
# Quoted text

A string token stands between two equal quotes.  Between backquotes every character means itself;
between the other two a backslash starts an escape: a letter for a control character, a quote or a
backslash, or the code of a character in two, four or eight hexadecimal digits.

`encode` writes code points between single quotes so that nothing in them can end the token or the
line, and `decode` takes any string token apart.  No text can hold a surrogate, so that one is
written by its code.
-/

namespace ArrayCalc.Text.Quoted

def backquote : Char := '\x60'

/-- The written form of one character between single quotes. -/
def encodeChar (c : Char) : List Char :=
  match c with
  | '\\' => ['\\', '\\']
  | '\'' => ['\\', '\'']
  | '\n' => ['\\', 'n']
  | '\t' => ['\\', 't']
  | '\r' => ['\\', 'r']
  | '\x00' => ['\\', '0']
  | _ => [c]

def encodePoint : CodePoint → List Char
  | .char c => encodeChar c
  | .surrogate code _ => '\\' :: 'u' :: Radix.digitsOf 16 code

def encode (text : List CodePoint) : List Char :=
  '\'' :: text.flatMap encodePoint ++ ['\'']

/-! ## § Reading -/

/-- Why a quoted text has no meaning: it is malformed, or it names a code beyond all words. -/
inductive Failure where
  | lex (cause : LexError.Cause)
  | overflow
deriving DecidableEq

/-- Escapes that are a single letter. -/
def simpleEscape? : Char → Option Char
  | 'n' => some '\n'
  | 'r' => some '\r'
  | 't' => some '\t'
  | 'a' => some '\x07'
  | 'b' => some '\x08'
  | 'f' => some '\x0c'
  | 'v' => some '\x0b'
  | '0' => some '\x00'
  | '\\' => some '\\'
  | '"' => some '"'
  | '\'' => some '\''
  | _ => none

/-- The number of hexadecimal digits after the letter of an escape. -/
def hexWidth? : Char → Option Nat
  | 'x' => some 2
  | 'u' => some 4
  | 'U' => some 8
  | _ => none

def isHexDigit (c : Char) : Bool := (Radix.alphabet 16).contains c

/-- Reads the escape after a backslash; the second part is the number of characters read. -/
def escape : List Char → Except Failure (CodePoint × Nat)
  | [] => .error (.lex .incompleteEscape)
  | letter :: rest =>
    match simpleEscape? letter, hexWidth? letter with
    | some c, _ => .ok (c, 1)
    | none, none => .error (.lex (.unknownEscape letter))
    | none, some width =>
      let digits := rest.take width
      if digits.length ≠ width ∨ digits.all isHexDigit = false then
        .error (.lex (.invalidEscape letter))
      else
        let code := Radix.valueOf 16 digits
        match CodePoint.ofCode? code with
        | some c => .ok (c, 1 + width)
        | none => .error (if code < 0x80000000 then .lex (.invalidEscape letter) else .overflow)

/-- Resolves the escapes of the text between the quotes. -/
def decodeBody : List Char → Except Failure (List CodePoint)
  | [] => .ok []
  | '\\' :: rest => do
    let (c, count) ← escape rest
    return c :: (← decodeBody (rest.drop count))
  | c :: rest => do return c :: (← decodeBody rest)
termination_by text => text.length
decreasing_by all_goals (simp only [List.length_drop, List.length_cons]; omega)

/-- The code points that a string token stands for. -/
def decode (token : List Char) : Except Failure (List CodePoint) :=
  match token with
  | opening :: rest =>
    match rest.getLast? with
    | none => .error (.lex (.malformedString (String.ofList token)))
    | some closing =>
      if opening ≠ closing ∨ [backquote, '\'', '"'].contains opening = false then
        .error (.lex (.malformedString (String.ofList token)))
      else if opening = backquote then .ok (rest.dropLast.map .char)
      else decodeBody rest.dropLast
  | [] => .error (.lex (.malformedString ""))

end ArrayCalc.Text.Quoted
