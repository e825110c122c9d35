import ArrayCalc.Line.Definition

/-!
# Lines

A session is read line by line.  A malformed line is dropped to its end, and reading goes on behind
it; but what is wrong inside quotes is found only when the token has been taken, and then the rest
of the line is read as if it were a line of its own.
-/

namespace ArrayCalc

/-- What a line turns out to be. -/
inductive Line where
  | endOfInput
  | blank
  /-- A closing parenthesis, and words that are no program. -/
  | command (words : List String)
  | definition (f : UserOperator)
  | statements (exprs : List Expr)
deriving DecidableEq

namespace Line

def reading [Machine] : Reading Line := do
  match ← Reading.peekKind with
  | .endOfInput =>
    Reading.discard
    return .endOfInput
  | .newline =>
    Reading.discard
    return .blank
  | .rightParen =>
    Reading.discard
    let r ← get
    let (text, source) := r.source.takeRawLine
    set { r with source := source }
    return .command ((Text.words text).map String.ofList)
  | .opKeyword =>
    Reading.discard
    return .definition (← Reading.definition)
  | _ =>
    let exprs ← Reading.statements
    let _ ← Reading.endOfLine
    return .statements exprs

/-- What is left of a source after an obstacle, and why there is no line. -/
def recover (obstacle : Obstacle) (v : Vocabulary) (s : Source) : Failure × Source :=
  match obstacle with
  | .lex e => (.error (.lex e), { s with peeked := none })
  | .parse e => (.error (.parse e), s.skipLine v)
  | .tooDeep count => (.error (.parse ⟨.tooDeep, s.line, [], none⟩), s.skipTorn v count)
  | .fault f => (.fault f, s)

/-- Reads a line. -/
def read [Machine] (s : Source) (w : Workspace) : Result Line × Source × Workspace :=
  match reading.run ⟨{ s with atLineEnd := false }, w, none⟩ with
  | .ok line r => (.ok line, r.source, r.workspace)
  | .error obstacle r =>
    let (failure, source) := recover obstacle r.workspace.vocabulary r.source
    (.error failure, source, r.workspace)

end Line

end ArrayCalc
