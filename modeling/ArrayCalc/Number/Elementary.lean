import ArrayCalc.Number.Complex

/-!
# Elementary functions of complex numbers

Exponential, logarithm, square root, and the circular functions with their inverses.  The circular
functions are the hyperbolic ones turned by a right angle.

Each hyperbolic function has three regions.  Where a part is infinite or undefined, the limit that
exists is the value, with the signs of zeros and infinities kept.  Where an intermediate exponential
would overflow although the result need not, one factor `e` is split off.  Elsewhere the textbook
formula is used in a form that does not cancel.

A function leaves its domain at an infinite angle or at a pole, and its range where finite operands
have an infinite value.
-/

namespace ArrayCalc

/-- Why an elementary function has no value. -/
inductive FunctionError where
  | domain
  | range
deriving DecidableEq, Repr

namespace FunctionError

def message : FunctionError → String
  | .domain => "math domain error"
  | .range => "math range error"

end FunctionError

namespace Elementary

open Double (copySign infinity nan)

abbrev Outcome := Except FunctionError Complex

def pi : Float := Float.ofBits 0x400921fb54442d18

def euler : Float := Float.ofBits 0x4005bf0a8b145769

def logTwo : Float := Float.ofBits 0x3fe62e42fefa39ef

/-- A quarter of the largest double: below it, sums of two parts do not overflow. -/
def large : Float := Float.ofBits 0x7fcfffffffffffff

def rootOfLarge : Float := Float.sqrt large

def logOfLarge : Float := Float.log large

/-- The smallest double with full precision. -/
def least : Float := Float.ofBits 0x0010000000000000

def rootOfLeast : Float := Float.sqrt least

/-- `log (1 + x)` without the loss of the low bits of `x`. -/
def logOnePlus (x : Float) : Float :=
  let sum := 1 + x
  if sum == 1 then x
  else if sum.isInf || !(sum > 0) then Float.log sum
  else Float.log sum * (x / (sum - 1))

/-! ## § Exponential, logarithm, square root -/

/-- The exponential where a part is infinite or undefined. -/
def expAtEdge (z : Complex) : Outcome :=
  if z.im.isInf && (z.re.isFinite || (z.re.isInf && z.re > 0)) then .error .domain
  else if z.re.isInf then
    if z.re > 0 then
      if z.im == 0 then .ok ⟨infinity, z.im⟩
      else if z.im.isFinite then
        .ok ⟨copySign infinity z.im.cos, copySign infinity z.im.sin⟩
      else .ok ⟨infinity, nan⟩
    else if z.im == 0 then .ok ⟨0, z.im⟩
    else if z.im.isFinite then .ok ⟨copySign 0 z.im.cos, copySign 0 z.im.sin⟩
    else .ok ⟨0, 0⟩
  else if z.im == 0 then .ok ⟨nan, z.im⟩
  else .ok ⟨nan, nan⟩

/-- A result that overflowed from finite operands is out of range. -/
def inRange (z : Complex) : Outcome :=
  if z.re.isInf || z.im.isInf then .error .range else .ok z

def exp (z : Complex) : Outcome :=
  if !z.isFinite then expAtEdge z
  else if z.re > logOfLarge then
    let length := Float.exp (z.re - 1)
    inRange ⟨length * z.im.cos * euler, length * z.im.sin * euler⟩
  else
    let length := Float.exp z.re
    inRange ⟨length * z.im.cos, length * z.im.sin⟩

/-- The logarithm of the length of a finite number.  Near one the length is not computed at all,
for its distance from one would be lost. -/
def logOfLength (z : Complex) : Float :=
  let x := z.re.abs
  let y := z.im.abs
  if x > large || y > large then
    Float.log (Double.hypotenuse (x / 2) (y / 2)) + logTwo
  else if x < least && y < least then
    Float.log (Double.hypotenuse (x.scaleB 53) (y.scaleB 53)) - 53 * logTwo
  else
    let length := Double.hypotenuse x y
    if 0.71 <= length && length <= 1.73 then
      let larger := if x > y then x else y
      let smaller := if x > y then y else x
      logOnePlus ((larger - 1) * (larger + 1) + smaller * smaller) / 2
    else Float.log length

def log (z : Complex) : Outcome :=
  if !z.isFinite then
    let length := if z.re.isInf || z.im.isInf then infinity else nan
    .ok ⟨length, Float.atan2 z.im z.re⟩
  else if z.isZero then .error .domain
  else .ok ⟨logOfLength z, Float.atan2 z.im z.re⟩

/-- The square root where a part is infinite or undefined. -/
def sqrtAtEdge (z : Complex) : Complex :=
  if z.im.isInf then ⟨infinity, z.im⟩
  else if z.re.isInf then
    if z.re > 0 then ⟨infinity, if z.im.isNaN then nan else copySign 0 z.im⟩
    else if z.im.isNaN then ⟨nan, infinity⟩
    else ⟨0, copySign infinity z.im⟩
  else ⟨nan, nan⟩

/-- The principal square root: its real part is not negative. -/
def sqrt (z : Complex) : Complex :=
  if !z.isFinite then sqrtAtEdge z
  else if z.isZero then ⟨0, z.im⟩
  else
    let x := z.re.abs
    let y := z.im.abs
    let s :=
      if x < least && y < least then
        let x := x.scaleB 53
        (Float.sqrt (x + Double.hypotenuse x (y.scaleB 53))).scaleB (-27)
      else
        let x := x / 8
        2 * Float.sqrt (x + Double.hypotenuse x (y / 8))
    let d := y / (2 * s)
    if z.re >= 0 then ⟨s, copySign d z.im⟩ else ⟨d, copySign s z.im⟩

/-! ## § Hyperbolic functions -/

/-- The imaginary part is an angle; an infinite one has no sine and cosine. -/
def atInfiniteAngle (z : Complex) : Bool := z.im.isInf && !z.re.isNaN

def coshAtEdge (z : Complex) : Outcome :=
  if atInfiniteAngle z then .error .domain
  else if z.re.isInf then
    if z.im == 0 then .ok ⟨infinity, if z.re > 0 then z.im else -z.im⟩
    else if z.im.isFinite then
      let im := copySign infinity z.im.sin
      .ok ⟨copySign infinity z.im.cos, if z.re > 0 then im else -im⟩
    else .ok ⟨infinity, nan⟩
  else if z.re == 0 || z.im == 0 then .ok ⟨nan, 0⟩
  else .ok ⟨nan, nan⟩

def cosh (z : Complex) : Outcome :=
  if !z.isFinite then coshAtEdge z
  else if z.re.abs > logOfLarge then
    let x := z.re - copySign 1 z.re
    inRange ⟨z.im.cos * x.cosh * euler, z.im.sin * x.sinh * euler⟩
  else inRange ⟨z.im.cos * z.re.cosh, z.im.sin * z.re.sinh⟩

def sinhAtEdge (z : Complex) : Outcome :=
  if atInfiniteAngle z then .error .domain
  else if z.re.isInf then
    if z.im == 0 then .ok z
    else if z.im.isFinite then
      let re := copySign infinity z.im.cos
      .ok ⟨if z.re > 0 then re else -re, copySign infinity z.im.sin⟩
    else .ok ⟨infinity, nan⟩
  else if z.re == 0 then .ok ⟨0, nan⟩
  else if z.im == 0 then .ok ⟨nan, z.im⟩
  else .ok ⟨nan, nan⟩

def sinh (z : Complex) : Outcome :=
  if !z.isFinite then sinhAtEdge z
  else if z.re.abs > logOfLarge then
    let x := z.re - copySign 1 z.re
    inRange ⟨z.im.cos * x.sinh * euler, z.im.sin * x.cosh * euler⟩
  else inRange ⟨z.im.cos * z.re.sinh, z.im.sin * z.re.cosh⟩

def tanhAtEdge (z : Complex) : Outcome :=
  if z.im.isInf && z.re.isFinite then .error .domain
  else if z.re.isInf then
    let re := copySign 1 z.re
    if z.im == 0 then .ok ⟨re, z.im⟩
    else if z.im.isFinite then .ok ⟨re, copySign 0 (2 * z.im.sin * z.im.cos)⟩
    else .ok ⟨re, 0⟩
  else if z.im == 0 then .ok ⟨nan, z.im⟩
  else .ok ⟨nan, nan⟩

def tanh (z : Complex) : Outcome :=
  if !z.isFinite then tanhAtEdge z
  else if z.re.abs > logOfLarge then
    .ok ⟨copySign 1 z.re, 4 * z.im.sin * z.im.cos * Float.exp (-2 * z.re.abs)⟩
  else
    let x := z.re.tanh
    let y := z.im.tan
    let fall := 1 / z.re.cosh
    let product := x * y
    let den := 1 + product * product
    .ok ⟨x * (1 + y * y) / den, y / den * fall * fall⟩

/-- The inverse hyperbolic sine where a part is infinite or undefined. -/
def asinhAtEdge (z : Complex) : Complex :=
  let re :=
    if z.re.isInf then z.re
    else if z.im.isInf then (if z.re.isNaN then infinity else copySign infinity z.re)
    else nan
  let im :=
    if z.re.isNaN && z.im == 0 then z.im
    else if z.re.isNaN || z.im.isNaN then nan
    else Float.atan2 z.im z.re.abs
  ⟨re, im⟩

def asinh (z : Complex) : Complex :=
  if !z.isFinite then asinhAtEdge z
  else if z.re.abs > large || z.im.abs > large then
    let length := Float.log (Double.hypotenuse (z.re / 2) (z.im / 2)) + logTwo * 2
    ⟨copySign length z.re, Float.atan2 z.im z.re.abs⟩
  else
    let a := sqrt ⟨1 + z.im, -z.re⟩
    let b := sqrt ⟨1 - z.im, z.re⟩
    ⟨Float.asinh (a.re * b.im - b.re * a.im),
      Float.atan2 z.im (a.re * b.re - a.im * b.im)⟩

/-- The inverse hyperbolic tangent where a part is infinite or undefined. -/
def atanhAtEdge (z : Complex) : Complex :=
  let re :=
    if z.im.isInf && z.re.isNaN then 0
    else if z.re.isInf || z.im.isInf || z.re == 0 then copySign 0 z.re
    else nan
  let im :=
    if z.im.isInf || (z.re.isInf && !z.im.isNaN) then copySign (pi / 2) z.im
    else nan
  ⟨re, im⟩

/-- The inverse hyperbolic tangent right of the imaginary axis. -/
def atanhRight (z : Complex) : Outcome :=
  let y := z.im.abs
  if z.re > rootOfLarge || y > rootOfLarge then
    let half := Double.hypotenuse (z.re / 2) (z.im / 2)
    .ok ⟨z.re / 4 / half / half, -copySign (pi / 2) (-z.im)⟩
  else if z.re == 1 && y < rootOfLeast then
    if y == 0 then .error .domain
    else
      .ok ⟨-Float.log (Float.sqrt y / Float.sqrt (Double.hypotenuse y 2)),
        copySign (Float.atan2 2 (-y) / 2) z.im⟩
  else
    .ok ⟨logOnePlus (4 * z.re / ((1 - z.re) * (1 - z.re) + y * y)) / 4,
      -Float.atan2 (-2 * z.im) ((1 - z.re) * (1 + z.re) - y * y) / 2⟩

/-- The function is odd, so only the half plane on the right is computed. -/
def atanh (z : Complex) : Outcome :=
  if !z.isFinite then .ok (atanhAtEdge z)
  else if Double.isNegative z.re then (atanhRight z.neg).map Complex.neg
  else atanhRight z

/-! ## § Circular functions -/

def quarterTurn (z : Complex) : Complex := ⟨-z.im, z.re⟩

def quarterBack (z : Complex) : Complex := ⟨z.im, -z.re⟩

def cos (z : Complex) : Outcome := cosh (quarterTurn z)

def sin (z : Complex) : Outcome := (sinh (quarterTurn z)).map quarterBack

def tan (z : Complex) : Outcome := (tanh (quarterTurn z)).map quarterBack

def asin (z : Complex) : Outcome := .ok (quarterBack (asinh (quarterTurn z)))

def atan (z : Complex) : Outcome := (atanh (quarterTurn z)).map quarterBack

/-- The inverse cosine where a part is infinite or undefined. -/
def acosAtEdge (z : Complex) : Complex :=
  let re :=
    if z.re.isNaN || (z.im.isNaN && z.re != 0) then nan
    else if z.im.isNaN then pi / 2
    else Float.atan2 z.im.abs z.re
  let im :=
    if z.im.isInf then copySign infinity (-z.im)
    else if z.re.isInf then (if z.im.isNaN then infinity else copySign infinity (-z.im))
    else nan
  ⟨re, im⟩

def acos (z : Complex) : Outcome :=
  if !z.isFinite then .ok (acosAtEdge z)
  else if z.re.abs > large || z.im.abs > large then
    let length := Float.log (Double.hypotenuse (z.re / 2) (z.im / 2)) + logTwo * 2
    .ok ⟨Float.atan2 z.im.abs z.re, copySign length (-z.im)⟩
  else
    let a := sqrt ⟨1 - z.re, -z.im⟩
    let b := sqrt ⟨1 + z.re, z.im⟩
    .ok ⟨2 * Float.atan2 a.re b.re, Float.asinh (b.re * a.im - b.im * a.re)⟩

end Elementary

end ArrayCalc
