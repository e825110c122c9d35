import ArrayCalc.Value.Lattice

/-!
# Arithmetic primitives

Each primitive first brings its two operands to one kind and then computes within that kind.
Integers are kept modulo 2^64.  Fractions are exact and are handed to `Scalar.ofRat`, which turns
integral ones back into integers; the kinds an operation is not defined for are refused.
-/

namespace ArrayCalc.Primitive

def refuse {α : Type} (operator : String) (l r : Value) : Result α :=
  .domain (.notDefined operator [l.kind, r.kind])

def add (l r : Value) : Result Scalar := do
  match ← Operands.meet "+" l r with
  | .ints a b => return .int (a + b)
  | .rationals a b => Scalar.ofRat (a.val + b.val)
  | .floats a b => return .float (a + b)
  | .complexes a b => return .complex (a.add b)

def subtract (l r : Value) : Result Scalar := do
  match ← Operands.meet "-" l r with
  | .ints a b => return .int (a - b)
  | .rationals a b => Scalar.ofRat (a.val - b.val)
  | .floats a b => return .float (a - b)
  | .complexes a b => return .complex (a.sub b)

def multiply (l r : Value) : Result Scalar := do
  match ← Operands.meet "*" l r with
  | .ints a b => return .int (a * b)
  | .rationals a b => Scalar.ofRat (a.val * b.val)
  | .floats a b => return .float (a * b)
  | .complexes a b => return .complex (a.mul b)

/-- Quotients of integers are exact too. -/
def divideRat (a b : Rat) : Result Scalar :=
  if b = 0 then .domain (.divisionByZero "/") else Scalar.ofRat (a / b)

def divide (l r : Value) : Result Scalar := do
  match ← Operands.meet "/" l r with
  | .ints a b => divideRat a.toInt b.toInt
  | .rationals a b => divideRat a.val b.val
  | .floats a b => if b == 0 then .domain (.divisionByZero "/") else return .float (a / b)
  | .complexes a b =>
    if b.isZero then .domain (.divisionByZero "/") else return .complex (a.div b)

/-- The remainder of the quotient rounded down; it has the sign of the divisor. -/
def moduloRat (a b : Rat) : Rat := a - b * ((a / b).floor : Rat)

def modulo (l r : Value) : Result Scalar := do
  match ← Operands.meet "%" l r with
  | .ints a b =>
    if b = 0 then .domain (.divisionByZero "%") else return .ofInt (a.toInt.fmod b.toInt)
  | .rationals a b =>
    if b.val = 0 then .domain (.divisionByZero "%") else Scalar.ofRat (moduloRat a.val b.val)
  | .floats a b =>
    if b == 0 then .domain (.divisionByZero "%") else return .float (Double.modulo a b)
  | .complexes _ _ => refuse "%" l r

def integerQuotient (l r : Value) : Result Scalar := do
  match ← Operands.meet "idiv" l r with
  | .ints a b =>
    if b = 0 then .domain (.divisionByZero "idiv") else return .ofInt (a.toInt.fdiv b.toInt)
  | _ => refuse "idiv" l r

def integerRemainder (l r : Value) : Result Scalar := do
  match ← Operands.meet "imod" l r with
  | .ints a b =>
    if b = 0 then .domain (.divisionByZero "imod") else return .ofInt (a.toInt.fmod b.toInt)
  | _ => refuse "imod" l r

/-! ## § Powers -/

/-- The largest exponent of an exact power; a larger one is computed in doubles. -/
def exactPowerLimit : Nat := 4096

/-- A negative number to a power that is no integer is a complex number. -/
def powerFloat (a b : Float) : Result Scalar :=
  if a == 0 && b < 0 then .domain .zeroToNegativePower
  else if a < 0 && a.isFinite && b.isFinite && !Double.isIntegral b then
    match Complex.pow ⟨a, 0⟩ ⟨b, 0⟩ with
    | .ok z => .ok (.complex z)
    | .error _ => .ok (.float Double.infinity)
  else .ok (.float (Float.pow a b))

def powerRat (a b : Rat) : Result Scalar :=
  if a = 0 ∧ b < 0 then .domain .zeroToNegativePower
  else if b.den = 1 ∧ b.num.natAbs ≤ exactPowerLimit then Scalar.ofRat (a ^ b.num)
  else match Double.nearest? a, Double.nearest? b with
    | some x, some y => powerFloat x y
    | _, _ => .fault .overflow

def power (l r : Value) : Result Scalar := do
  match ← Operands.meet "**" l r with
  | .ints a b =>
    if 0 ≤ b.toInt then return .int (Word.pow a b.toInt.toNat)
    else powerRat a.toInt b.toInt
  | .rationals a b => powerRat a.val b.val
  | .floats a b => powerFloat a b
  | .complexes a b =>
    match Complex.pow a b with
    | .ok z => return .complex z
    | .error .undefined => .domain .zeroToComplexPower
    | .error .overflow => .fault .overflow

/-- A complex number of two real parts. -/
def join (l r : Value) : Result Scalar :=
  match l, r with
  | .scalar (.complex _), _ | _, .scalar (.complex _) => refuse "j" l r
  | _, _ =>
    if l.isNumeric && r.isNumeric then do return .complex ⟨← l.toFloat, ← r.toFloat⟩
    else refuse "j" l r

/-! ## § Comparison -/

/-- Characters equal only the same character; numbers are compared in their common kind. -/
def equals (l r : Value) : Result Bool :=
  match l, r with
  | .scalar (.char a), .scalar (.char b) => .ok (a == b)
  | .scalar (.char _), _ | _, .scalar (.char _) => .ok false
  | _, _ => do
    match ← Operands.meet "==" l r with
    | .ints a b => return a == b
    | .rationals a b => return a.val == b.val
    | .floats a b => return a == b
    | .complexes a b => return a.equals b

def equal (l r : Value) : Result Scalar := do return .ofBool (← equals l r)

def unequal (l r : Value) : Result Scalar := do return .ofBool (!(← equals l r))

/-- The four orders.  An undefined double stands in none of them to anything. -/
inductive Order where
  | less
  | lessEqual
  | greater
  | greaterEqual
deriving DecidableEq, Repr

namespace Order

def symbol : Order → String
  | less => "<"
  | lessEqual => "<="
  | greater => ">"
  | greaterEqual => ">="

def onInts : Order → Int → Int → Bool
  | less, a, b => a < b
  | lessEqual, a, b => a ≤ b
  | greater, a, b => b < a
  | greaterEqual, a, b => b ≤ a

def onRats : Order → Rat → Rat → Bool
  | less, a, b => a < b
  | lessEqual, a, b => a ≤ b
  | greater, a, b => b < a
  | greaterEqual, a, b => b ≤ a

def onFloats : Order → Float → Float → Bool
  | less, a, b => a < b
  | lessEqual, a, b => a <= b
  | greater, a, b => a > b
  | greaterEqual, a, b => a >= b

end Order

/-- Whether two operands of one kind stand in an order, complex numbers having none. -/
def ordered? (order : Order) : Operands → Option Bool
  | .ints a b => some (order.onInts a.toInt b.toInt)
  | .rationals a b => some (order.onRats a.val b.val)
  | .floats a b => some (order.onFloats a b)
  | .complexes _ _ => none

/-- Characters are ordered by their codes; a character and a number are not comparable. -/
def compare (order : Order) (l r : Value) : Result Scalar :=
  match l, r with
  | .scalar (.char a), .scalar (.char b) =>
    .ok (.ofBool (order.onInts a.code b.code))
  | _, _ => do
    match ordered? order (← Operands.meet order.symbol l r) with
    | some holds => return .ofBool holds
    | none => refuse order.symbol l r

/-- The left operand if it stands in the order to the right one, and else the right one. -/
def pick (operator : String) (order : Order) (l r : Value) : Result Scalar := do
  let operands ← Operands.meet operator l r
  match ordered? order operands with
  | none => refuse operator l r
  | some holds =>
    match if holds then operands.left else operands.right with
    | .rational q => Scalar.ofRat q.val
    | picked => return picked

def minimum (l r : Value) : Result Scalar := pick "min" .lessEqual l r

def maximum (l r : Value) : Result Scalar := pick "max" .greaterEqual l r

/-! ## § Logic and bits -/

/-- Both operands are looked at, the left one first. -/
def logical (meaning : Bool → Bool → Bool) (l r : Value) : Result Scalar := do
  let a ← l.truth
  let b ← r.truth
  return .ofBool (meaning a b)

/-- Bits are those of integers only. -/
def bitwise (operator : String) (meaning : Int64 → Int64 → Result Int64) (l r : Value) :
    Result Scalar :=
  match l, r with
  | .scalar (.int a), .scalar (.int b) => do return .int (← meaning a b)
  | _, _ => refuse operator l r

/-- A shift by a count that is not negative. -/
def shift (operator : String) (meaning : Int64 → Nat → Int64) : Value → Value → Result Scalar :=
  bitwise operator fun a b =>
    if b.toInt < 0 then .domain (.negativeShift operator) else .ok (meaning a b.toInt.toNat)

end ArrayCalc.Primitive
