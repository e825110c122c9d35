import ArrayCalc.Number.Radix
import ArrayCalc.Value

/-!
# Checked values

Values made from parts that have not been checked yet.  A part that does not fit is refused with a
reason; it is never wrapped or rounded.
-/

namespace ArrayCalc

/-- Why parts do not make a value. -/
inductive Misfit where
  | int (n : Int)
  | rational (q : Rat)
  | char
  | element (position : Nat) (kind : Kind)
deriving DecidableEq

namespace Misfit

/-- A fraction, or an integer if it is one. -/
def fractionText (q : Rat) : String :=
  if q.den = 1 then Radix.decimalText q.num
  else Radix.decimalText q.num ++ "/" ++ Radix.natText q.den

def message : Misfit → String
  | int n => "Int out of 64-bit range: " ++ Radix.decimalText n
  | rational q => "Rational out of 64-bit range: " ++ fractionText q
  | char => "Char must contain exactly one codepoint"
  | element position kind =>
    "vector element " ++ Radix.natText position ++ " has unsupported type "
      ++ (if kind = .vector then "Vector" else "Absent")

end Misfit

namespace Scalar

def ofInt? (n : Int) : Except Misfit Scalar :=
  if Fits64 n then .ok (.ofInt n) else .error (.int n)

/-- A fraction, even if it is integral. -/
def ofFraction? (q : Rat) : Except Misfit Scalar :=
  match Fraction.ofRat? q with
  | some fraction => .ok (.rational fraction)
  | none => .error (.rational q)

def ofText? (text : List Char) : Except Misfit Scalar :=
  match text with
  | [c] => .ok (.char (.char c))
  | _ => .error .char

end Scalar

namespace Value

/-- The scalars in a row of values that holds nothing else; `position` counts those before it. -/
def scalars (position : Nat) : List Value → Except Misfit (List Scalar)
  | [] => .ok []
  | .scalar s :: rest => do return s :: (← scalars (position + 1) rest)
  | v :: _ => .error (.element position v.kind)

def ofElements? (values : List Value) : Except Misfit Value := do
  return .vector (← scalars 0 values)

end Value

end ArrayCalc
