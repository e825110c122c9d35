import ArrayCalc.Machine
import ArrayCalc.Number.Decimal
import ArrayCalc.Number.Elementary
import ArrayCalc.Primitive.Arithmetic

/-!
# Unary primitives on single values

Sign and rounding, roots, elementary functions, parts of complex numbers, and the way between
characters and their codes.
-/

namespace ArrayCalc.Primitive

def refuseOne {α : Type} (operator : String) (v : Value) : Result α :=
  .domain (.notDefined operator [v.kind])

def negate (v : Value) : Result Scalar :=
  match v with
  | .scalar (.int a) => .ok (.int (-a))
  | .scalar (.rational q) => Scalar.ofRat (-q.val)
  | .scalar (.float x) => .ok (.float (-x))
  | .scalar (.complex z) => .ok (.complex z.neg)
  | _ => refuseOne "-" v

def absolute (v : Value) : Result Scalar :=
  match v with
  | .scalar (.int a) => .ok (.int (if a < 0 then -a else a))
  | .scalar (.rational q) => Scalar.ofRat q.val.abs
  | .scalar (.float x) => .ok (.float x.abs)
  | .scalar (.complex z) =>
    match z.abs? with
    | some length => .ok (.float length)
    | none => .fault .overflow
  | _ => refuseOne "abs" v

/-! ## § Rounding -/

/-- An integer as a scalar; one beyond 64 bits is a double, which it was before. -/
def ofRounded (n : Int) : Scalar :=
  if Fits64 n then .ofInt n else .float ((Double.nearest? (n : Rat)).getD Double.infinity)

/-- The rounded part of a complex number. -/
def roundPart (round : Rat → Int) (x : Float) : Result Float :=
  match Double.toRat? x with
  | some q => .ok ((Double.nearest? (round q : Rat)).getD Double.infinity)
  | none => if x.isNaN then .fault .undefinedInteger else .fault .overflow

/-- Rounds a number to an integer.  What is not finite stays as it is, except as a part of a
complex number. -/
def integral (operator : String) (round : Rat → Int) (v : Value) : Result Scalar :=
  match v with
  | .scalar (.int a) => .ok (.int a)
  | .scalar (.rational q) => .ok (ofRounded (round q.val))
  | .scalar (.float x) =>
    match Double.toRat? x with
    | some q => .ok (ofRounded (round q))
    | none => .ok (.float x)
  | .scalar (.complex z) => do
    let re ← roundPart round z.re
    let im ← roundPart round z.im
    return .complex ⟨re, im⟩
  | _ => refuseOne operator v

/-! ## § Roots and elementary functions -/

/-- The root of an integer is rounded down; that of a negative number is imaginary. -/
def squareRoot (v : Value) : Result Scalar :=
  match v with
  | .scalar (.int a) =>
    let root := Int64.ofNat a.toInt.natAbs.sqrt
    if 0 ≤ a.toInt then .ok (.int root) else .ok (.complex ⟨0, Double.ofInt64 root⟩)
  | .scalar (.complex z) => .ok (.complex (Elementary.sqrt z))
  | .scalar (.char _) => refuseOne "sqrt" v
  | _ =>
    if v.isNumeric then do
      let x ← v.toFloat
      return if x < 0 then .complex ⟨0, Float.sqrt (-x)⟩ else .float (Float.sqrt x)
    else refuseOne "sqrt" v

/-- A function with a real branch on part of the real line and a complex one everywhere. -/
structure Branches where
  operator : String
  real : Float → Except FunctionError Float
  onRealBranch : Float → Bool
  complex : Complex → Elementary.Outcome

def blame {α : Type} (operator : String) : Except FunctionError α → Result α
  | .ok a => .ok a
  | .error .domain => .domain (.outsideDomain operator)
  | .error .range => .domain (.outsideRange operator)

def Branches.apply (f : Branches) (v : Value) : Result Scalar :=
  match v with
  | .scalar (.complex z) => do return .complex (← blame f.operator (f.complex z))
  | _ =>
    if v.isNumeric then do
      let x ← v.toFloat
      if f.onRealBranch x then return .float (← blame f.operator (f.real x))
      else return .complex (← blame f.operator (f.complex ⟨x, 0⟩))
    else refuseOne f.operator v

/-- A real function without a value at infinity. -/
def atFinite (f : Float → Float) (x : Float) : Except FunctionError Float :=
  if x.isInf then .error .domain else .ok (f x)

def exponential : Branches where
  operator := "exp"
  real := fun x =>
    let y := Float.exp x
    if y.isInf && x.isFinite then .error .range else .ok y
  onRealBranch := fun _ => true
  complex := Elementary.exp

def logarithm : Branches where
  operator := "log"
  real := fun x => .ok (Float.log x)
  onRealBranch := fun x => x > 0
  complex := Elementary.log

def sine : Branches where
  operator := "sin"
  real := atFinite Float.sin
  onRealBranch := fun _ => true
  complex := Elementary.sin

def cosine : Branches where
  operator := "cos"
  real := atFinite Float.cos
  onRealBranch := fun _ => true
  complex := Elementary.cos

def tangent : Branches where
  operator := "tan"
  real := atFinite Float.tan
  onRealBranch := fun _ => true
  complex := Elementary.tan

def arcSine : Branches where
  operator := "asin"
  real := fun x => .ok (Float.asin x)
  onRealBranch := fun x => -1 <= x && x <= 1
  complex := Elementary.asin

def arcCosine : Branches where
  operator := "acos"
  real := fun x => .ok (Float.acos x)
  onRealBranch := fun x => -1 <= x && x <= 1
  complex := Elementary.acos

def arcTangent : Branches where
  operator := "atan"
  real := fun x => .ok (Float.atan x)
  onRealBranch := fun _ => true
  complex := Elementary.atan

/-! ## § Parts, conversions, codes -/

def realPart (v : Value) : Result Scalar :=
  match v with
  | .scalar (.complex z) => .ok (.float z.re)
  | .scalar (.char _) => refuseOne "real" v
  | .scalar s => .ok s
  | _ => refuseOne "real" v

def imaginaryPart (v : Value) : Result Scalar :=
  match v with
  | .scalar (.complex z) => .ok (.float z.im)
  | _ => if v.isNumeric then .ok (.int 0) else refuseOne "imag" v

/-- The nearest double of a real number; complex numbers stay. -/
def toInexact (v : Value) : Result Scalar :=
  match v with
  | .scalar (.complex z) => .ok (.complex z)
  | _ => if v.isNumeric then do return .float (← v.toFloat) else refuseOne "float" v

def character (v : Value) : Result Scalar :=
  match v with
  | .scalar (.char c) => .ok (.char c)
  | .scalar (.int n) =>
    let code := n.toInt
    if 0xd800 ≤ code ∧ code ≤ 0xdfff then .domain (.surrogate code)
    else if 0 ≤ code ∧ code ≤ 0x10ffff then .ok (.char (.char (Char.ofNat code.toNat)))
    else .domain (.invalidCode code)
  | _ => refuseOne "char" v

def code (v : Value) : Result Scalar :=
  match v with
  | .scalar (.char c) => .ok (.ofInt c.code)
  | _ => refuseOne "code" v

/-- Draws a number below a positive bound: for an integer one of as many integers, the least of
which is `origin`; for another real number a double from zero on. -/
def roll [Machine] (origin : Int) (dice : Dice) (v : Value) : Result (Scalar × Dice) :=
  let (later, now) := Machine.generator.split dice
  match v with
  | .scalar (.int bound) =>
    if bound.toInt ≤ 0 then .domain (.boundNotPositive (Radix.decimalText bound.toInt))
    else .ok (.ofInt (Machine.generator.below now bound.toInt.toNat + origin), later)
  | .scalar (.rational _) | .scalar (.float _) => do
    let limit ← v.toFloat
    if limit <= 0 then .domain (.boundNotPositive (Decimal.shortestText limit))
    else return (.float (Machine.generator.unit now * limit), later)
  | _ => refuseOne "?" v

end ArrayCalc.Primitive
