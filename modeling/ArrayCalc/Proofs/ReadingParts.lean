import ArrayCalc.Line

/-!
# Readings in parts

Most readings look at a token and go on accordingly.  What some of them do behind that look stands
here under a name of its own; that they consist of these parts holds by definition.
-/

namespace ArrayCalc.Reading

/-! ## § Operands -/

/-- An expression in parentheses. -/
def inParens (expr : Reading Expr) : Reading (Option Expr) := do
  discard
  let e ← expr
  expect .rightParen ")"
  return some e

/-- What is read of an operand behind the look at its first token. -/
def operandFrom (expr : Reading Expr) (t : Token) : Reading (Option Expr) :=
  match t.kind with
  | .number | .rational | .complex => do discard; return some (← numeral t)
  | .string => do discard; return some (← quoted t)
  | .identifier => do discard; return some (← nameUse t.text)
  | .leftParen => inParens expr
  | _ => return none

theorem item?_eq (expr : Reading Expr) : item? expr = peek >>= operandFrom expr := rfl

/-! ## § Subscripts -/

/-- What is read behind a subscript. -/
def afterSubscript (others : Reading (List Expr)) (e : Expr) : Reading (List Expr) := do
  let t ← take
  match t.kind with
  | .rightBracket => return [e]
  | .semicolon => return e :: (← others)
  | _ => unexpected t [";", "]"]

theorem subscripts_succ (expr : Reading Expr) (count : Nat) :
    subscripts expr (count + 1) = (do
      let kind ← peekKind
      if kind = .semicolon ∨ kind = .rightBracket then
        afterSubscript (subscripts expr count) .empty
      else expr >>= afterSubscript (subscripts expr count)) := rfl

/-! ## § Expressions -/

/-- What is read behind the operand that an expression starts with. -/
def afterOperand (expr : Reading Expr) (left : Expr) : Reading Expr := do
  let t ← peek
  if t.kind = .assign then
    discard
    if left.isAssignable then
      let target ← assignmentTarget left
      return .assign target (← expr)
    else reject t .notAssignable []
  else if t.kind = .operator then
    discard
    if isBinary (← get).workspace t.text then
      return .binary t.text left (← expr)
    else reject t (.notBinary t.text) []
  else if t.kind.endsExpression then return left
  else unexpected t ["operator"]

theorem expression_succ [Machine] (depth : Nat) :
    expression (depth + 1) 0
      = operand (expression depth) >>= afterOperand (expression depth 0) := rfl

/-! ## § Statements -/

/-- What is read behind the first expression of a statement. -/
def afterExpression (result : Reading Expr) (e : Expr) : Reading Expr := do
  if (← peekKind) = .colon then
    discard
    return .conditional e (← result)
  else return e

theorem statement_eq [Machine] : statement = outermost >>= afterExpression outermost := rfl

/-- What is read behind a statement. -/
def afterStatement (others : Reading (List Expr)) (e : Expr) : Reading (List Expr) := do
  if (← peekKind) ≠ .semicolon then return [e]
  else
    discard
    if (← peekKind).isLineEnd then return [e]
    else return e :: (← others)

theorem statementsUpTo_succ [Machine] (count : Nat) :
    statementsUpTo (count + 1) = (do
      let kind ← peekKind
      if kind = .semicolon then afterStatement (statementsUpTo count) .empty
      else statement >>= afterStatement (statementsUpTo count)) := rfl

/-! ## § Heads -/

/-- A head without fault. -/
def checked (first : Token) (h : Header) : Reading Header :=
  match h.fault? with
  | some cause => reject first cause []
  | none => return h

/-- The head that some words make. -/
def headerOf (words : List Token) : Reading Header :=
  match words with
  | [name, right] => checked name ⟨name.text, none, right.text⟩
  | [left, name, right] => checked left ⟨name.text, some left.text, right.text⟩
  | _ => do reject (← peek) (.nameCount words.length) []

theorem header_eq : header = (do headerOf (← headerWords (← remaining))) := by
  unfold header headerOf
  rfl

end ArrayCalc.Reading

namespace ArrayCalc.Line

/-! ## § Lines -/

/-- Reads the words of a command. -/
def readingWords : Reading Line := do
  let r ← get
  let (text, source) := r.source.takeRawLine
  set { r with source := source }
  return .command ((Text.words text).map String.ofList)

variable [Machine]

/-- Reads a line of statements. -/
def readingStatements : Reading Line := do
  let exprs ← Reading.statements
  let _ ← Reading.endOfLine
  return .statements exprs

/-- Reads a line, given the kind of its first token. -/
def readingOf (kind : TokenKind) : Reading Line := do
  match kind with
  | .endOfInput =>
    Reading.discard
    return .endOfInput
  | .newline =>
    Reading.discard
    return .blank
  | .rightParen =>
    Reading.discard
    readingWords
  | .opKeyword =>
    Reading.discard
    return .definition (← Reading.definition)
  | _ => readingStatements

theorem reading_eq : reading = Reading.peekKind >>= readingOf := rfl

/-- What an attempt to read a line gives: the whole line, or a failure, with the source behind what
is dropped after the obstacle. -/
inductive Attempt (s : Source) (w : Workspace) : Result Line → Source → Workspace → Prop
  | whole {line : Line} {r : Reader}
    (run : reading.run ⟨{ s with atLineEnd := false }, w, none⟩ = .ok line r) :
    Attempt s w (.ok line) r.source r.workspace
  | halted {obstacle : Obstacle} {r : Reader}
    (run : reading.run ⟨{ s with atLineEnd := false }, w, none⟩ = .error obstacle r) :
    Attempt s w (.error (recover obstacle r.workspace.vocabulary r.source).1)
      (recover obstacle r.workspace.vocabulary r.source).2 r.workspace

theorem attempt {s s' : Source} {w w' : Workspace} {line : Result Line}
    (h : read s w = (line, s', w')) : Attempt s w line s' w' := by
  unfold read at h
  split at h
  next hr =>
    cases h
    exact .whole hr
  next hr =>
    cases h
    exact .halted hr

end ArrayCalc.Line
