import ArrayCalc.Line.Reading
import ArrayCalc.Numeral
import ArrayCalc.Token.OperatorWord

/-!
# Statements

All operators bind alike and to the right, so an expression is an operand, and perhaps an operator
and another expression.  What binds tightest is a strand: operands side by side make one vector,
and subscripts behind a strand belong to all of it.

A statement is an expression, or a condition and its result; a line holds statements with semicolons
between them.

Expressions nest to a limited depth.  One within another takes a level, and more than one where it
is an operand, in parentheses or in brackets; these further levels are its toll.  The functions that
read the parts of an expression are given the reader for the expressions within at any toll, so that
only `expression` itself is recursive.
-/

namespace ArrayCalc.Reading

/-! ## § Operands -/

def numeral (t : Token) : Reading Expr := do
  match Numeral.read t.text (← get).workspace.settings.inputBase with
  | .ok s => return .constant s
  | .error (.error e) => reject t (.numeral e) []
  | .error .overflow => throw (.fault .overflow)

/-- A text of one character is that character. -/
def quoted (t : Token) : Reading Expr :=
  match Text.Quoted.decode t.text.toList with
  | .ok [c] => return .constant (.char c)
  | .ok text => return .string text
  | .error (.lex cause) => throw (.lex ⟨cause, t.line⟩)
  | .error .overflow => throw (.fault .overflow)

/-- A declared name is a slot.  Other names are variables of the session, and a definition keeps a
record of those. -/
def nameUse (name : String) : Reading Expr := do
  let r ← get
  match r.workspace.slotOf? name with
  | some slot => return .slotVar name slot
  | none =>
    set { r with free := r.free.map (· ++ [name]) }
    return .sessionVar name

/-- One operand of a strand, if there is another one. -/
def item? (expr : Reading Expr) : Reading (Option Expr) := do
  let t ← peek
  match t.kind with
  | .number | .rational | .complex =>
    discard
    return some (← numeral t)
  | .string =>
    discard
    return some (← quoted t)
  | .identifier =>
    discard
    return some (← nameUse t.text)
  | .leftParen =>
    discard
    let e ← expr
    expect .rightParen ")"
    return some e
  | _ => return none

/-- The operands of a strand, of which there are at most `count`. -/
def items (expr : Reading Expr) : Nat → Reading (List Expr)
  | 0 => return []
  | count + 1 => do
    match ← item? expr with
    | some e => return e :: (← items expr count)
    | none => return []

/-- The subscripts up to the closing bracket, of which there are at most `count`. -/
def subscripts (expr : Reading Expr) : Nat → Reading (List Expr)
  | 0 => return []
  | count + 1 => do
    let kind ← peekKind
    let e ← if kind = .semicolon ∨ kind = .rightBracket then pure .empty else expr
    let t ← take
    match t.kind with
    | .rightBracket => return [e]
    | .semicolon => return e :: (← subscripts expr count)
    | _ => unexpected t [";", "]"]

/-- The subscripts behind `base`, bracket after bracket. -/
def indices (expr : Reading Expr) : Nat → Expr → Reading Expr
  | 0, base => return base
  | count + 1, base => do
    if (← peekKind) = .leftBracket then
      discard
      indices expr count (.index base (← subscripts expr (← remaining)))
    else return base

/-- A strand with its subscripts. -/
def primary (expr : Nat → Reading Expr) : Reading Expr := do
  match ← items (expr 2) (← remaining) with
  | [] => unexpected (← peek) ["operand"]
  | [e] => indices (expr 3) (← remaining) e
  | es => indices (expr 3) (← remaining) (.strand es)

/-! ## § Expressions -/

def isUnary (w : Workspace) (word : String) : Bool :=
  OperatorWord.isFold word || w.definedUnary word

def isBinary (w : Workspace) (word : String) : Bool :=
  OperatorWord.isProduct word || w.definedBinary word

/-- An operator with its right operand, or a primary. -/
def operand (expr : Nat → Reading Expr) : Reading Expr := do
  let t ← peek
  if t.kind = .operator then
    discard
    if isUnary (← get).workspace t.text then return .unary t.text (← expr 1)
    else reject t (.notUnary t.text) []
  else primary expr

/-- The target of an assignment.  In a definition, the first assignment to a name that is not a
variable of the session declares it, and then the name just before the sign was no use of such a
variable. -/
def assignmentTarget (target : Expr) : Reading Expr := do
  let r ← get
  match r.free, target with
  | some seen, .sessionVar name =>
    if (r.workspace.global? name).isSome then return target
    else
      let w := r.workspace.declare name
      let seen := if seen.getLast? = some name then seen.dropLast else seen
      set { r with workspace := w, free := some seen }
      return match w.slotOf? name with
        | some slot => .slotVar name slot
        | none => target
  | _, _ => return target

variable [Machine]

/-- Reads an expression at some toll, as deep as `depth`. -/
def expression : (depth toll : Nat) → Reading Expr
  | 0, toll => giveUp toll
  | depth + 1, toll + 1 => expression depth toll
  | depth + 1, 0 => do
    let left ← operand fun toll => expression depth toll
    let t ← peek
    if t.kind = .assign then
      discard
      if left.isAssignable then
        let target ← assignmentTarget left
        return .assign target (← expression depth 0)
      else reject t .notAssignable []
    else if t.kind = .operator then
      discard
      if isBinary (← get).workspace t.text then return .binary t.text left (← expression depth 0)
      else reject t (.notBinary t.text) []
    else if t.kind.endsExpression then return left
    else unexpected t ["operator"]

/-! ## § Statements -/

/-- The toll of an expression that is not part of another one: two levels go to a definition. -/
def outermostToll (r : Reader) : Nat := if r.free.isSome then 2 else 0

/-- An expression that is not part of another one. -/
def outermost : Reading Expr := do expression Machine.nesting (outermostToll (← get))

def statement : Reading Expr := do
  let e ← outermost
  if (← peekKind) = .colon then
    discard
    return .conditional e (← outermost)
  else return e

/-- At most `count` statements of a line.  A statement may be missing before a semicolon, and a
semicolon may end the line. -/
def statementsUpTo : Nat → Reading (List Expr)
  | 0 => return []
  | count + 1 => do
    let e ← if (← peekKind) = .semicolon then pure .empty else statement
    if (← peekKind) ≠ .semicolon then return [e]
    else
      discard
      if (← peekKind).isLineEnd then return [e]
      else return e :: (← statementsUpTo count)

/-- The statements of a line, without its end. -/
def statements : Reading (List Expr) := do statementsUpTo (← remaining)

end ArrayCalc.Reading
