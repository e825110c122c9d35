import ArrayCalc.Number.Complex
import ArrayCalc.Number.Fraction
import ArrayCalc.Text.CodePoint

/-!
# Values

A value is a scalar, a vector of scalars, or absent.  Vectors are flat by their type: there is no
vector of vectors.  Absent is what a slot holds before its first assignment, and what a statement
without a result leaves.
-/

namespace ArrayCalc

/-- What sort of value one has. -/
inductive Kind where
  | int
  | rational
  | float
  | complex
  | char
  | absent
  | vector
deriving DecidableEq, Repr

namespace Kind

def name : Kind → String
  | .int => "int"
  | .rational => "rational"
  | .float => "float"
  | .complex => "complex"
  | .char => "char"
  | .absent => "absent"
  | .vector => "vector"

/-- The place of a kind of number among the others; each can be promoted to those after it. -/
def rank? : Kind → Option Nat
  | .int => some 0
  | .rational => some 1
  | .float => some 2
  | .complex => some 3
  | _ => none

end Kind

inductive Scalar where
  | int (n : Int64)
  | rational (q : Fraction)
  | float (x : Float)
  | complex (z : Complex)
  | char (c : CodePoint)
deriving DecidableEq

namespace Scalar

def kind : Scalar → Kind
  | .int _ => .int
  | .rational _ => .rational
  | .float _ => .float
  | .complex _ => .complex
  | .char _ => .char

def isNumeric : Scalar → Bool
  | .char _ => false
  | _ => true

/-- The truth value of a condition as a number. -/
def ofBool (b : Bool) : Scalar := .int (if b then 1 else 0)

/-- The integer, kept modulo 2^64. -/
def ofInt (n : Int) : Scalar := .int (Int64.ofInt n)

end Scalar

inductive Value where
  | scalar (s : Scalar)
  | vector (items : List Scalar)
  | absent
deriving DecidableEq

namespace Value

def kind : Value → Kind
  | .scalar s => s.kind
  | .vector _ => .vector
  | .absent => .absent

def isScalar : Value → Bool
  | .scalar _ => true
  | _ => false

def isNumeric : Value → Bool
  | .scalar s => s.isNumeric
  | _ => false

/-- A text as a vector of its characters. -/
def ofText (text : List CodePoint) : Value := .vector (text.map .char)

/-- The characters of a vector that has nothing else in it, and at least one. -/
def text? (items : List Scalar) : Option (List CodePoint) :=
  if items.isEmpty then none
  else items.mapM fun
    | .char c => some c
    | _ => none

end Value

end ArrayCalc
