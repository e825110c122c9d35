import ArrayCalc.Token.Source
import ArrayCalc.Workspace

/-!
# Reading

To read is to take tokens from a source while the workspace says what the words mean.  Reading can
change the workspace, by a definition, and whatever stops it leaves the source and the workspace as
they are at that point.
-/

namespace ArrayCalc

/-- What a reader has at hand. -/
structure Reader where
  source : Source
  workspace : Workspace
  /-- The session variables that the definition which is being read has named so far, the latest
  last; nothing outside definitions. -/
  free : Option (List String)
deriving DecidableEq

/-- What stops a reader. -/
inductive Obstacle where
  | lex (e : LexError)
  | parse (e : ParseError)
  /-- There is no level left for an expression; so many characters of the next token have been
  scanned. -/
  | tooDeep (characters : Nat)
  | fault (f : Fault)
deriving DecidableEq

abbrev Reading := EStateM Obstacle Reader

namespace Reading

/-- Does something to the source that may run into a malformed token. -/
def onSource {α : Type} (f : Vocabulary → Source → Except LexError α × Source) : Reading α :=
  fun r =>
    match f r.workspace.vocabulary r.source with
    | (.ok a, source) => .ok a { r with source := source }
    | (.error e, source) => .error (.lex e) { r with source := source }

def peek : Reading Token := onSource Source.peek

def take : Reading Token := onSource Source.take

/-- The kind of the next token. -/
def peekKind : Reading TokenKind := do return (← peek).kind

/-- Takes a token that has been looked at. -/
def discard : Reading Unit := do
  let _ ← take

/-- A bound for the number of tokens that are left. -/
def remaining : Reading Nat := do return (← get).source.remaining

/-- Stops at a token. -/
def reject {α : Type} (t : Token) (cause : ParseError.Cause) (expected : List String) :
    Reading α :=
  throw (.parse ⟨cause, t.line, expected, some t.describe⟩)

/-- Stops at a token that does not belong where it is. -/
def unexpected {α : Type} (t : Token) (expected : List String) : Reading α :=
  reject t (.unexpected t.describe) expected

/-- Takes a token that has to be of the given kind. -/
def expect (kind : TokenKind) (what : String) : Reading Unit := do
  let t ← take
  if t.kind ≠ kind then unexpected t [what]

/-- Takes the end of the line. -/
def endOfLine : Reading Token := do
  let t ← take
  if t.kind.isLineEnd then return t else unexpected t ["newline"]

/-- Takes at most `count` tokens of the line. -/
def takeTokens : Nat → Reading Unit
  | 0 => return
  | count + 1 => do
    if (← peekKind).isLineEnd then return
    else
      discard
      takeTokens count

/-- Gives up in front of an expression for which so many levels are missing.  To look at the first
token of a line takes no fewer levels than to take it, so that one is always taken. -/
def giveUp [Machine] (missing : Nat) : Reading Expr := do
  let s := (← get).source
  let cut := Machine.cut missing s.lineAhead
  takeTokens (if s.atLineEnd then max 1 cut.tokens else cut.tokens)
  throw (.tooDeep cut.characters)

/-- Changes the workspace, unless that is refused. -/
def update (f : Workspace → Except ParseError.Cause Workspace) : Reading Unit := do
  let r ← get
  match f r.workspace with
  | .ok w => set { r with workspace := w }
  | .error cause => throw (.parse ⟨cause, 0, [], none⟩)

end Reading

end ArrayCalc
