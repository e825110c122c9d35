import ArrayCalc.Line.Statement

/-!
# Definitions

`op name right = body` defines a unary operator and `op left name right = body` a binary one.  The
body is the rest of the line or, if that is empty, the lines up to the next blank one.

While the body is read, its parameters and the names it assigns are declared, and the operator
stands in the workspace without a body, so that the body may call it.  Whether the definition
succeeds or not, nothing is declared afterwards; if it fails, the operator that was there before is
back in its place.
-/

namespace ArrayCalc.Reading

/-- The words between the keyword and the equals sign, of which there are at most `count`. -/
def headerWords : Nat → Reading (List Token)
  | 0 => return []
  | count + 1 => do
    if (← peekKind) = .assign then return []
    else
      let t ← take
      if (t.kind = .identifier ∨ t.kind = .operator) ∧ Text.isIdentifier t.text = true then
        return t :: (← headerWords count)
      else reject t (.invalidName t.describe) []

/-- The names in the head of a definition. -/
structure Header where
  name : String
  left : Option String
  right : String
deriving DecidableEq

namespace Header

def arity (h : Header) : Arity := if h.left.isSome then .binary else .unary

/-- The first fault of the names, if they have one. -/
def fault? (h : Header) : Option ParseError.Cause :=
  if h.left = some h.name ∨ h.right = h.name then some (.ownParameter h.name)
  else if h.left = some h.right then some (.duplicateParameter h.right)
  else none

end Header

def header : Reading Header := do
  let words ← headerWords (← remaining)
  let check (first : Token) (h : Header) : Reading Header :=
    match h.fault? with
    | some cause => reject first cause []
    | none => return h
  match words with
  | [name, right] => check name ⟨name.text, none, right.text⟩
  | [left, name, right] => check left ⟨name.text, some left.text, right.text⟩
  | _ => reject (← peek) (.nameCount words.length) []

variable [Machine]

/-- The statements of at most `count` lines, up to a blank one. -/
def bodyLines : Nat → Reading (List Expr)
  | 0 => return []
  | count + 1 => do
    if (← peekKind).isLineEnd then
      discard
      return []
    else
      let first ← statements
      let t ← endOfLine
      if t.kind = .endOfInput then return first
      else return first ++ (← bodyLines count)

def body : Reading (List Expr) := do
  if (← peekKind).isLineEnd then
    discard
    let es ← bodyLines (← remaining)
    if es.isEmpty then throw (.parse ⟨.emptyBody, (← get).source.line, [], none⟩)
    else return es
  else
    let es ← statements
    let _ ← endOfLine
    return es

/-- A list without repetitions, in the order of the first occurrences. -/
def firstOccurrences (names : List String) : List String :=
  names.foldl (fun seen name => if seen.contains name then seen else seen ++ [name]) []

/-- The rest of a definition, once the operator stands in the workspace without a body. -/
def definitionBody (h : Header) : Reading UserOperator := do
  update fun w => .ok ((h.left.toList ++ [h.right]).foldl Workspace.declare w)
  expect .assign "="
  let es ← body
  let r ← get
  let f : UserOperator := {
    name := h.name
    left := h.left
    right := h.right
    body := es
    locals := r.workspace.declared
    globals := firstOccurrences (r.free.getD []) }
  update (·.define f)
  return f

/-- Leaves a definition. -/
def leaveDefinition (restore : Workspace → Workspace) : Reading Unit :=
  modify fun r =>
    { r with workspace := restore r.workspace.forgetDeclarations, free := none }

/-- A definition after its keyword. -/
def definition : Reading UserOperator := do
  let h ← header
  let previous := (← get).workspace.userOperator? h.arity h.name
  update (·.beginDefinition h.name h.left h.right)
  modify fun r => { r with free := some [] }
  try
    let f ← definitionBody h
    leaveDefinition id
    return f
  catch obstacle =>
    leaveDefinition (·.abandonDefinition h.name h.arity previous)
    throw obstacle

end ArrayCalc.Reading
