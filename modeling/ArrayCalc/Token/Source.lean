import ArrayCalc.Token.Scanner

/-!
# Sources of tokens

A source scans its text only as far as it is asked to, since a definition changes the vocabulary for
the text behind it.  At most one token has been scanned and not taken.
-/

namespace ArrayCalc

structure Source where
  scanner : Scanner
  /-- The token that has been looked at and not taken. -/
  peeked : Option Token
  /-- Whether the last token taken ended its line. -/
  atLineEnd : Bool
deriving DecidableEq

namespace Source

def ofText (text : List Char) : Source where
  scanner := Scanner.ofSource text
  peeked := none
  atLineEnd := true

/-- The line that scanning has come to. -/
def line (s : Source) : Nat := s.scanner.line

/-- The number of lines of which a token has been scanned. -/
def linesBegun (s : Source) : Nat := s.scanner.linesBegun

/-- The source at the start of another text, which takes the place of what is not scanned yet. -/
def goOn (s : Source) (text : List Char) : Source where
  scanner := s.scanner.goOn text
  peeked := none
  atLineEnd := true

/-- A bound for the number of tokens that are left, the end of the source included. -/
def remaining (s : Source) : Nat := s.scanner.rest.length + s.peeked.toList.length + 1

/-- The next token, which stays in the source.  After an error the source stands at the end of a
line. -/
def peek (v : Vocabulary) (s : Source) : Except LexError Token × Source :=
  match s.peeked with
  | some t => (.ok t, s)
  | none =>
    match s.scanner.next v with
    | (.ok t, scanner) => (.ok t, { s with scanner := scanner, peeked := some t })
    | (.error e, scanner) => (.error e, { s with scanner := scanner, atLineEnd := true })

/-- Takes the next token. -/
def take (v : Vocabulary) (s : Source) : Except LexError Token × Source :=
  match s.peek v with
  | (.ok t, s) => (.ok t, { s with peeked := none, atLineEnd := t.kind.isLineEnd })
  | (.error e, s) => (.error e, s)

/-- Takes at most `count` tokens, until one of them ends its line or is an error. -/
def skipTokens (v : Vocabulary) : Nat → Source → Source
  | 0, s => s
  | count + 1, s =>
    if s.atLineEnd then s
    else match s.take v with
      | (.ok _, s) => skipTokens v count s
      | (.error _, s) => s

/-- Takes the rest of the line, unless the last token taken was its end. -/
def skipLine (v : Vocabulary) (s : Source) : Source := s.skipTokens v s.remaining

/-- What has not been scanned yet of the line that scanning has come to. -/
def lineAhead (s : Source) : List Char :=
  s.scanner.rest.take (Lexeme.lineLength s.scanner.rest)

/-- Takes the rest of the line after the reader has been given up.  Unless a token has been looked
at, the scanner may have been in the midst of one. -/
def skipTorn (v : Vocabulary) (s : Source) (count : Nat) : Source :=
  match s.peeked with
  | some _ => s.skipLine v
  | none => { s with scanner := s.scanner.tear v count }.skipLine v

/-- Takes the rest of the line as raw text. -/
def takeRawLine (s : Source) : List Char × Source :=
  let (text, scanner) := s.scanner.restOfLine
  (text, { scanner := scanner, peeked := none, atLineEnd := true })

end Source

end ArrayCalc
