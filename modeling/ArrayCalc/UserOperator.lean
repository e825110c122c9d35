import ArrayCalc.Expr.Printer

/-!
# User-defined operators

An operator has one or two parameters and a body of statements.  Its names live in the slots of a
frame, the parameters first.
-/

namespace ArrayCalc

inductive Arity where
  | unary
  | binary
deriving DecidableEq, Repr

structure UserOperator where
  name : String
  /-- The left parameter; a unary operator has none. -/
  left : Option String
  right : String
  body : List Expr
  /-- The names of the slots in order: the parameters, then the names assigned in the body. -/
  locals : List String
  /-- The session variables that the body names, in the order of their first use. -/
  globals : List String
deriving DecidableEq

namespace UserOperator

def arity (f : UserOperator) : Arity := if f.left.isSome then .binary else .unary

/-- The parameters in the order of their slots. -/
def parameters (f : UserOperator) : List String := f.left.toList ++ [f.right]

/-- The definition as a line of source. -/
def definitionText (f : UserOperator) : String :=
  let body := "; ".intercalate (f.body.map Expr.text)
  let left := match f.left with
    | some name => name ++ " "
    | none => ""
  "op " ++ left ++ f.name ++ " " ++ f.right ++ " = " ++ body

end UserOperator

end ArrayCalc
