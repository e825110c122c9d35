import ArrayCalc.Primitive.Function
import ArrayCalc.Primitive.Structure

/-!
# The primitive operators

Every primitive has a constructor, a name in source text and a meaning.  Most are elementwise: they
are defined on single values and reach into vectors, pairing elements of two vectors of one length
and repeating a scalar.  The others take whole values.
-/

namespace ArrayCalc

inductive UnaryPrimitive where
  | identity | negate | absolute | floor | ceiling | logicalNot | squareRoot
  | exponential | logarithm | sine | cosine | tangent | arcSine | arcCosine | arcTangent
  | realPart | imaginaryPart | inexact | character | code | roll | iota | length | reverse
deriving DecidableEq, Repr

namespace UnaryPrimitive

def name : UnaryPrimitive → String
  | identity => "+"
  | negate => "-"
  | absolute => "abs"
  | floor => "floor"
  | ceiling => "ceil"
  | logicalNot => "not"
  | squareRoot => "sqrt"
  | exponential => "exp"
  | logarithm => "log"
  | sine => "sin"
  | cosine => "cos"
  | tangent => "tan"
  | arcSine => "asin"
  | arcCosine => "acos"
  | arcTangent => "atan"
  | realPart => "real"
  | imaginaryPart => "imag"
  | inexact => "float"
  | character => "char"
  | code => "code"
  | roll => "?"
  | iota => "iota"
  | length => "rho"
  | reverse => "rev"

def all : List UnaryPrimitive :=
  [identity, negate, absolute, floor, ceiling, logicalNot, squareRoot, exponential, logarithm, sine,
   cosine, tangent, arcSine, arcCosine, arcTangent, realPart, imaginaryPart, inexact, character,
   code, roll, iota, length, reverse]

def ofName? (name : String) : Option UnaryPrimitive := all.find? fun op => op.name == name

/-- What a primitive does to a single value; the three that look at whole values, and `roll`, which
needs dice, are treated apart. -/
def onSingle (op : UnaryPrimitive) (v : Value) : Result Scalar :=
  match op with
  | identity =>
    match v with
    | .scalar s => .ok s
    | _ => Primitive.refuseOne "+" v
  | negate => Primitive.negate v
  | absolute => Primitive.absolute v
  | floor => Primitive.integral "floor" Rat.floor v
  | ceiling => Primitive.integral "ceil" Rat.ceil v
  | logicalNot => do return .ofBool (!(← v.truth))
  | squareRoot => Primitive.squareRoot v
  | exponential => Primitive.exponential.apply v
  | logarithm => Primitive.logarithm.apply v
  | sine => Primitive.sine.apply v
  | cosine => Primitive.cosine.apply v
  | tangent => Primitive.tangent.apply v
  | arcSine => Primitive.arcSine.apply v
  | arcCosine => Primitive.arcCosine.apply v
  | arcTangent => Primitive.arcTangent.apply v
  | realPart => Primitive.realPart v
  | imaginaryPart => Primitive.imaginaryPart v
  | inexact => Primitive.toInexact v
  | character => Primitive.character v
  | code => Primitive.code v
  | roll | iota | length | reverse => Primitive.refuseOne op.name v

/-- An elementwise primitive on any value.  The identity leaves even an absent value alone. -/
def elementwise (op : UnaryPrimitive) (v : Value) : Result Value :=
  match v with
  | .vector items => do return .vector (← items.mapM fun s => op.onSingle (.scalar s))
  | .scalar _ => do return .scalar (← op.onSingle v)
  | .absent => if op = identity then .ok .absent else do return .scalar (← op.onSingle v)

/-- Draws for every item in turn.  The draws that have been made stay made when a later one
fails. -/
def rollAll [Machine] (origin : Int) : Dice → List Scalar → Result (List Scalar) × Dice
  | dice, [] => (.ok [], dice)
  | dice, item :: rest =>
    match Primitive.roll origin dice (.scalar item) with
    | .error failure => (.error failure, dice)
    | .ok (drawn, dice) =>
      let (others, dice) := rollAll origin dice rest
      (others.map (drawn :: ·), dice)

/-- Applies a primitive, given the index origin and the dice; the dice come back for the next
draw. -/
def apply [Machine] (op : UnaryPrimitive) (origin : Int) (dice : Dice) (v : Value) :
    Result Value × Dice :=
  match op with
  | roll =>
    match v with
    | .vector items =>
      let (drawn, dice) := rollAll origin dice items
      (drawn.map .vector, dice)
    | _ =>
      match Primitive.roll origin dice v with
      | .ok (drawn, dice) => (.ok (.scalar drawn), dice)
      | .error failure => (.error failure, dice)
  | iota => (Primitive.iota origin v, dice)
  | length => (Primitive.length v, dice)
  | reverse => (Primitive.reverse v, dice)
  | _ => (op.elementwise v, dice)

end UnaryPrimitive

inductive BinaryPrimitive where
  | add | subtract | multiply | divide | modulo | integerQuotient | integerRemainder | power
  | join | equal | unequal | less | lessEqual | greater | greaterEqual | minimum | maximum
  | logicalAnd | logicalOr | bitAnd | bitOr | bitXor | shiftLeft | shiftRight | catenate | reshape
deriving DecidableEq, Repr

namespace BinaryPrimitive

def name : BinaryPrimitive → String
  | add => "+"
  | subtract => "-"
  | multiply => "*"
  | divide => "/"
  | modulo => "%"
  | integerQuotient => "idiv"
  | integerRemainder => "imod"
  | power => "**"
  | join => "j"
  | equal => "=="
  | unequal => "!="
  | less => "<"
  | lessEqual => "<="
  | greater => ">"
  | greaterEqual => ">="
  | minimum => "min"
  | maximum => "max"
  | logicalAnd => "and"
  | logicalOr => "or"
  | bitAnd => "&"
  | bitOr => "|"
  | bitXor => "^"
  | shiftLeft => "<<"
  | shiftRight => ">>"
  | catenate => ","
  | reshape => "rho"

def all : List BinaryPrimitive :=
  [add, subtract, multiply, divide, modulo, integerQuotient, integerRemainder, power, join, equal,
   unequal, less, lessEqual, greater, greaterEqual, minimum, maximum, logicalAnd, logicalOr, bitAnd,
   bitOr, bitXor, shiftLeft, shiftRight, catenate, reshape]

def ofName? (name : String) : Option BinaryPrimitive := all.find? fun op => op.name == name

/-- What a primitive does to two single values; the two that take whole values are treated
apart. -/
def onSingles (op : BinaryPrimitive) (l r : Value) : Result Scalar :=
  match op with
  | add => Primitive.add l r
  | subtract => Primitive.subtract l r
  | multiply => Primitive.multiply l r
  | divide => Primitive.divide l r
  | modulo => Primitive.modulo l r
  | integerQuotient => Primitive.integerQuotient l r
  | integerRemainder => Primitive.integerRemainder l r
  | power => Primitive.power l r
  | join => Primitive.join l r
  | equal => Primitive.equal l r
  | unequal => Primitive.unequal l r
  | less => Primitive.compare .less l r
  | lessEqual => Primitive.compare .lessEqual l r
  | greater => Primitive.compare .greater l r
  | greaterEqual => Primitive.compare .greaterEqual l r
  | minimum => Primitive.minimum l r
  | maximum => Primitive.maximum l r
  | logicalAnd => Primitive.logical (· && ·) l r
  | logicalOr => Primitive.logical (· || ·) l r
  | bitAnd => Primitive.bitwise "&" (fun a b => .ok (a &&& b)) l r
  | bitOr => Primitive.bitwise "|" (fun a b => .ok (a ||| b)) l r
  | bitXor => Primitive.bitwise "^" (fun a b => .ok (a ^^^ b)) l r
  | shiftLeft => Primitive.shift "<<" Word.shiftLeft l r
  | shiftRight => Primitive.shift ">>" Word.shiftRight l r
  | catenate | reshape => Primitive.refuse op.name l r

/-- An elementwise primitive on any two values. -/
def elementwise (op : BinaryPrimitive) (l r : Value) : Result Value :=
  match l, r with
  | .vector xs, .vector ys =>
    if xs.length ≠ ys.length then .shape (.lengthMismatch op.name xs.length ys.length)
    else do
      return .vector (← (xs.zip ys).mapM fun (x, y) => op.onSingles (.scalar x) (.scalar y))
  | .vector xs, _ => do return .vector (← xs.mapM fun x => op.onSingles (.scalar x) r)
  | _, .vector ys => do return .vector (← ys.mapM fun y => op.onSingles l (.scalar y))
  | _, _ => do return .scalar (← op.onSingles l r)

def apply (op : BinaryPrimitive) (l r : Value) : Result Value :=
  match op with
  | catenate => Primitive.catenate l r
  | reshape => Primitive.reshape l r
  | _ => op.elementwise l r

/-- What the reduction of nothing is: the value that leaves the right operand alone. -/
def identity? : BinaryPrimitive → Option Value
  | add | subtract | bitOr | bitXor | logicalOr | shiftLeft | shiftRight => some (.scalar (.int 0))
  | multiply | divide | power | logicalAnd => some (.scalar (.int 1))
  | bitAnd => some (.scalar (.int (-1)))
  | minimum => some (.scalar (.float Double.infinity))
  | maximum => some (.scalar (.float (-Double.infinity)))
  | catenate => some (.vector [])
  | _ => none

end BinaryPrimitive

end ArrayCalc
