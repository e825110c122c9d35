import ArrayCalc.Error

/-!
# The lattice of numbers

Numbers are promoted from integer to fraction to double to complex, and a pair of operands meets at
the higher of its two kinds.  Exact results go the other way: an integral fraction is an integer
again, and a fraction too wide for 64 bits becomes the nearest double.  Floats and complex numbers
are never taken back.
-/

namespace ArrayCalc

namespace Scalar

/-- An exact number as a scalar: an integer if it is integral and fits, a fraction if it fits, and
otherwise the nearest double.  A number beyond the largest double is a fault. -/
def ofRat (q : Rat) : Result Scalar :=
  if q.den = 1 ∧ Fits64 q.num then .ok (.ofInt q.num)
  else match Fraction.ofRat? q with
    | some fraction => .ok (.rational fraction)
    | none => match Double.nearest? q with
      | some x => .ok (.float x)
      | none => .fault .overflow

end Scalar

namespace Value

/-! ## § Conversions -/

def toRat (v : Value) : Result Rat :=
  match v with
  | .scalar (.int n) => .ok (n.toInt : Rat)
  | .scalar (.rational q) => .ok q.val
  | _ => .domain (.notConvertible v.kind .rational)

def toFraction (v : Value) : Result Fraction :=
  match v with
  | .scalar (.int n) => .ok (.ofWord n)
  | .scalar (.rational q) => .ok q
  | _ => .domain (.notConvertible v.kind .rational)

def toFloat (v : Value) : Result Float :=
  match v with
  | .scalar (.int n) => .ok (Double.ofInt64 n)
  | .scalar (.rational q) => .ok q.toFloat
  | .scalar (.float x) => .ok x
  | _ => .domain (.notConvertible v.kind .float)

def toComplex (v : Value) : Result Complex :=
  match v with
  | .scalar (.complex z) => .ok z
  | _ => do return ⟨← v.toFloat, 0⟩

/-- The integer that a number is, whatever its kind; `place` says in an error who asked.  Floats
may be integers beyond 64 bits. -/
def toInteger (v : Value) (place : String) : Result Int :=
  let refuse := Result.domain (.notAnInteger place v.kind)
  match v with
  | .scalar (.int n) => .ok n.toInt
  | .scalar (.rational q) => if q.den = 1 then .ok q.num else refuse
  | .scalar (.float x) =>
    match Double.toRat? x with
    | some q => if q.den = 1 then .ok q.num else refuse
    | none => refuse
  | _ => refuse

/-- Raises a number to a kind further up; a value is always of its own kind. -/
def promote (v : Value) (kind : Kind) : Result Value :=
  if v.kind = kind then .ok v
  else match kind with
    | .rational => do return .scalar (.rational (← v.toFraction))
    | .float => do return .scalar (.float (← v.toFloat))
    | .complex => do return .scalar (.complex (← v.toComplex))
    | _ => .domain (.notPromotable v.kind kind)

/-- Whether a condition holds: whether a number is other than zero.  What is undefined is not
zero. -/
def truth (v : Value) : Result Bool :=
  match v with
  | .scalar (.int n) => .ok (n != 0)
  | .scalar (.rational q) => .ok (q.val != 0)
  | .scalar (.float x) => .ok (x != 0)
  | .scalar (.complex z) => .ok (!z.isZero)
  | .scalar (.char _) => .domain .characterCondition
  | _ => .domain (.condition v.kind)

/-! ## § Meeting of two operands -/

end Value

/-- Two numbers of one kind. -/
inductive Operands where
  | ints (a b : Int64)
  | rationals (a b : Fraction)
  | floats (a b : Float)
  | complexes (a b : Complex)

namespace Operands

def kind : Operands → Kind
  | ints _ _ => .int
  | rationals _ _ => .rational
  | floats _ _ => .float
  | complexes _ _ => .complex

def left : Operands → Scalar
  | ints a _ => .int a
  | rationals a _ => .rational a
  | floats a _ => .float a
  | complexes a _ => .complex a

def right : Operands → Scalar
  | ints _ b => .int b
  | rationals _ b => .rational b
  | floats _ b => .float b
  | complexes _ b => .complex b

/-- Two operands raised to the higher of their kinds; `operator` is blamed for those that are no
numbers. -/
def meet (operator : String) (l r : Value) : Result Operands :=
  match l.kind.rank?, r.kind.rank? with
  | some p, some q =>
    match l, r with
    | .scalar (.int a), .scalar (.int b) => .ok (.ints a b)
    | _, _ =>
      if max p q ≤ 1 then do return .rationals (← l.toFraction) (← r.toFraction)
      else if max p q = 2 then do return .floats (← l.toFloat) (← r.toFloat)
      else do return .complexes (← l.toComplex) (← r.toComplex)
  | _, _ => .domain (.notDefined operator [l.kind, r.kind])

end Operands

namespace Value

/-- The scalars of a value in order; a scalar is its own only element. -/
def elements : Value → Result (List Scalar)
  | .scalar s => .ok [s]
  | .vector items => .ok items
  | .absent => .fault .absentElements

/-- One vector of all elements. -/
def catenate (values : List Value) : Result Value := do
  let parts ← values.mapM fun
    | .scalar s => Except.ok [s]
    | .vector items => .ok items
    | .absent => .fault .absentElement
  return .vector parts.flatten

end Value

end ArrayCalc
