import ArrayCalc.Number.Double

/-!
# Complex numbers

A complex number is a pair of doubles.  Sums and products follow the textbook formulas, without
special care for infinite or undefined parts; quotients divide by the larger part of the divisor
first, so that its square never overflows.
-/

namespace ArrayCalc

structure Complex where
  re : Float
  im : Float
deriving DecidableEq

namespace Complex

def one : Complex := ⟨1, 0⟩

def add (a b : Complex) : Complex := ⟨a.re + b.re, a.im + b.im⟩

def sub (a b : Complex) : Complex := ⟨a.re - b.re, a.im - b.im⟩

def mul (a b : Complex) : Complex := ⟨a.re * b.re - a.im * b.im, a.re * b.im + a.im * b.re⟩

def neg (a : Complex) : Complex := ⟨-a.re, -a.im⟩

/-- Equality of numbers: zeros of either sign are equal, and an undefined part equals nothing. -/
def equals (a b : Complex) : Bool := a.re == b.re && a.im == b.im

def isZero (a : Complex) : Bool := a.re == 0 && a.im == 0

def isFinite (a : Complex) : Bool := a.re.isFinite && a.im.isFinite

/-- The quotient, for a divisor other than zero. -/
def div (a b : Complex) : Complex :=
  if b.re.abs >= b.im.abs then
    let ratio := b.im / b.re
    let den := b.re + b.im * ratio
    ⟨(a.re + a.im * ratio) / den, (a.im - a.re * ratio) / den⟩
  else if b.im.abs >= b.re.abs then
    let ratio := b.re / b.im
    let den := b.re * ratio + b.im
    ⟨(a.re * ratio + a.im) / den, (a.im * ratio - a.re) / den⟩
  else ⟨Double.nan, Double.nan⟩

/-- The distance from zero; nothing if finite parts lie further away than any double. -/
def abs? (a : Complex) : Option Float :=
  let length := Double.hypotenuse a.re a.im
  if a.isFinite && !length.isFinite then none else some length

/-! ## § Powers -/

/-- Why a power has no value. -/
inductive PowerError where
  /-- Zero to a negative or complex power, or an angle without bound. -/
  | undefined
  | overflow
deriving DecidableEq, Repr

/-- `result * base ^ exponent`, where `base` runs through the squares. -/
def powerBySquares (result base : Complex) (exponent : Nat) : Complex :=
  if exponent = 0 then result
  else
    let result := if exponent % 2 = 1 then result.mul base else result
    powerBySquares result (base.mul base) (exponent / 2)
termination_by exponent
decreasing_by omega

/-- An infinite part is beyond the range of results. -/
def checkRange (a : Complex) : Except PowerError Complex :=
  if a.re.isInf || a.im.isInf then .error .overflow else .ok a

/-- The power by length and angle, for a base other than zero.  An infinite angle has no sine and
cosine. -/
def polarPower (a b : Complex) : Except PowerError Complex :=
  let size := Double.hypotenuse a.re a.im
  let angle := Float.atan2 a.im a.re
  let length := Float.pow size b.re
  let phase := angle * b.re
  let (length, phase) :=
    if b.im != 0 then (length / Float.exp (angle * b.im), phase + b.im * Float.log size)
    else (length, phase)
  if phase.isInf then .error .undefined
  else checkRange ⟨length * Float.cos phase, length * Float.sin phase⟩

/-- Small integers, for which a power is a short product. -/
def smallInteger? (b : Complex) : Option Int :=
  if b.im == 0 && b.re.abs <= 100 then
    match Double.toRat? b.re with
    | some q => if q.den = 1 then some q.num else none
    | none => none
  else none

def pow (a b : Complex) : Except PowerError Complex :=
  match smallInteger? b with
  | some exponent =>
    let product := powerBySquares one a exponent.natAbs
    if 0 < exponent then checkRange product
    else if product.isZero then .error .undefined
    else checkRange (one.div product)
  | none =>
    if a.isZero then
      if b.im != 0 || b.re < 0 then .error .undefined else .ok ⟨0, 0⟩
    else polarPower a b

end Complex

end ArrayCalc
