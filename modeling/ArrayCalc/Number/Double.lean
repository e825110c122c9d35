import ArrayCalc.Number.Power

/-!
# Doubles as exact numbers

A finite double is an integer times a power of two.  This module takes doubles apart into these two
parts and puts the nearest double of an exact quotient together, so that conversions, rounding,
remainders and printing can be computed in exact arithmetic and state their rule in full.

Rounding is to nearest, a half going to the even neighbour.
-/

namespace ArrayCalc.Double

/-- What a double stands for. -/
inductive Magnitude where
  /-- The number `mantissa * 2 ^ exponent`. -/
  | finite (mantissa : Nat) (exponent : Int)
  | infinite
  | nan
deriving DecidableEq, Repr

/-! ## § Bits -/

def signBit : Nat := 0x8000000000000000

/-- The leading bit of a mantissa of 53 bits, which is not among the bits of a double; the exponent
is counted in units of it. -/
def leadingBit : Nat := 0x10000000000000

/-- Whether the sign bit is set; minus zero counts as negative. -/
def isNegative (x : Float) : Bool := x.toBits.toNat ≥ signBit

def magnitude (x : Float) : Magnitude :=
  let bits := x.toBits.toNat
  let biased : Nat := bits / leadingBit % 2048
  let fraction : Nat := bits % leadingBit
  if biased = 2047 then (if fraction = 0 then .infinite else .nan)
  else if biased = 0 then .finite fraction (-1074)
  else .finite (leadingBit + fraction) ((biased : Int) - 1075)

def infinity : Float := Float.ofBits 0x7ff0000000000000

def nan : Float := Float.ofBits 0x7ff8000000000000

/-- The size of the first number with the sign of the second. -/
def copySign (size sign : Float) : Float :=
  let bits := size.toBits.toNat % signBit
  Float.ofBits (UInt64.ofNat (if isNegative sign then bits + signBit else bits))

/-- The place of a defined double among all doubles, in which minus zero stands just before zero. -/
def place (x : Float) : Int :=
  let size : Int := x.toBits.toNat % signBit
  if isNegative x then -size - 1 else size

/-- The double, or a zero of its sign if its mantissa has fewer than 53 bits. -/
def flushed (x : Float) : Float :=
  match magnitude x with
  | .finite mantissa _ => if mantissa < leadingBit then copySign 0 x else x
  | _ => x

/-- The exact value of a finite double. -/
def toRat? (x : Float) : Option Rat :=
  match magnitude x with
  | .finite mantissa exponent =>
    let size : Rat :=
      if 0 ≤ exponent then ((mantissa * twos exponent : Nat) : Rat)
      else mkRat mantissa (twos (-exponent))
    some (if isNegative x then -size else size)
  | _ => none

/-! ## § Rounding -/

/-- The integer nearest to `num / den`; a half goes to the even neighbour. -/
def roundDiv (num den : Nat) : Nat :=
  let quotient := num / den
  let twice := 2 * (num % den)
  if twice < den then quotient
  else if twice > den then quotient + 1
  else quotient + quotient % 2

/-- The exponent of the last place of the double nearest to `num / den`, for positive `num` and
`den`: it makes the mantissa a number of 53 bits, unless the number is too small for that. -/
def lastPlace (num den : Nat) : Int :=
  let guess : Int := (num.log2 : Int) - den.log2 - 53
  let tooSmall := den * twos (53 + guess) ≤ num * twos (-(53 + guess))
  max (if tooSmall then guess + 1 else guess) (-1074)

/-- The double nearest to `num / den`, for positive `den`; nothing beyond the largest double. -/
def ofQuotient? (num den : Nat) : Option Float :=
  if num = 0 then some 0
  else
    let exponent := lastPlace num den
    let mantissa := roundDiv (num * twos (-exponent)) (den * twos exponent)
    let bits := (exponent + 1074).toNat * leadingBit + mantissa
    if bits < 2047 * leadingBit then some (Float.ofBits (UInt64.ofNat bits)) else none

/-- The double nearest to a rational number; nothing beyond the largest double. -/
def nearest? (q : Rat) : Option Float :=
  (ofQuotient? q.num.natAbs q.den).map fun size => if q.num < 0 then -size else size

/-- The double nearest to `mantissa * 10 ^ exponent`, infinite beyond the largest double. -/
def ofDecimal (mantissa : Nat) (exponent : Int) : Float :=
  (ofQuotient? (mantissa * tens exponent) (tens (-exponent))).getD infinity

/-- The double nearest to a 64-bit integer. -/
def ofInt64 (n : Int64) : Float :=
  (nearest? (n.toInt : Rat)).getD infinity

/-! ## § Exact functions -/

/-- The length of the hypotenuse over two legs, rounded once.  The sum of the squares is exact; its
root is taken with enough bits, and a last bit that tells whether anything was cut off. -/
def hypotenuse (x y : Float) : Float :=
  match magnitude x, magnitude y with
  | .infinite, _ | _, .infinite => infinity
  | .nan, _ | _, .nan => nan
  | .finite a p, .finite b q =>
    let least := min p q
    let legs (mantissa : Nat) (exponent : Int) : Nat := mantissa * twos (exponent - least)
    let square := (legs a p * legs a p + legs b q * legs b q) * twos 120
    let root := square.sqrt
    let doubled := 2 * root + (if root * root = square then 0 else 1)
    let exponent := least - 61
    (ofQuotient? (doubled * twos exponent) (twos (-exponent))).getD infinity

/-- The remainder of the quotient cut off toward zero; it has the sign of the dividend. -/
def remainder (x y : Float) : Float :=
  match magnitude x, magnitude y with
  | .infinite, _ | .nan, _ | _, .nan => nan
  | .finite _ _, .infinite => x
  | .finite a p, .finite b q =>
    if b = 0 then nan
    else
      let least := min p q
      let rest := a * twos (p - least) % (b * twos (q - least))
      let size := (ofQuotient? (rest * twos least) (twos (-least))).getD infinity
      copySign size x

/-- The remainder of the quotient rounded down; it has the sign of the divisor. -/
def modulo (x y : Float) : Float :=
  let rest := remainder x y
  if rest == 0 then copySign 0 y
  else if (y < 0) != (rest < 0) then rest + y
  else rest

/-- Whether the number is finite and has no fraction. -/
def isIntegral (x : Float) : Bool :=
  match toRat? x with
  | some q => q.den == 1
  | none => false

end ArrayCalc.Double
