import ArrayCalc.Evaluation.Variables
import ArrayCalc.Primitive.Bulk
import ArrayCalc.Token.OperatorWord

/-!
# Derived operators

Reduction puts a binary operator between the elements of a vector and works from the right.  A scan
gives the reductions of all beginnings.  The inner product `f.g` reduces by `f` what `g` makes of
paired elements; the outer product `o.g` combines every element of one operand with the other
operand.

All of them are told how to apply a binary operator.  Where a primitive allows it, long vectors take
a bulk route.  Within a product an operator is applied some levels further down, which is its toll.
-/

namespace ArrayCalc.Evaluation

/-- The way a binary operator is applied. -/
abbrev Applying := Value → String → Value → Evaluation Value

/-- The reduction of some items and a last one, from the right. -/
def fold (apply : Applying) (operator : String) (items : List Scalar) (last : Scalar) :
    Evaluation Value :=
  items.foldrM (fun item total => apply (.scalar item) operator total) (.scalar last)

/-- The reduction of a vector that has elements. -/
def foldItems (apply : Applying) (operator : String) (items : List Scalar) : Evaluation Value :=
  match items.getLast? with
  | some last => fold apply operator items.dropLast last
  | none => fail (.domain (.noIdentity operator))

variable [Machine]

def reduce (apply : Applying) (operator : String) (v : Value) : Evaluation Value := do
  let items ← ofResult v.elements
  let primitive := (← get).primitive? operator
  match items with
  | [] =>
    match primitive.bind BinaryPrimitive.identity? with
    | some identity => return identity
    | none => fail (.domain (.noIdentity operator))
  | [item] => return .scalar item
  | _ =>
    match if primitive.isSome then Bulk.reduce? operator items else none with
    | some total => return .scalar total
    | none => foldItems apply operator items

/-- The result of an operator that has to be a scalar. -/
def scalarOr (e : ShapeError) : Value → Evaluation Scalar
  | .scalar s => return s
  | _ => failShape e

def scan (apply : Applying) (operator : String) (v : Value) : Evaluation Value := do
  match v with
  | .scalar s => return .scalar s
  | _ =>
    let items ← ofResult v.elements
    let primitive := (← get).primitive? operator
    match if primitive.isSome then Bulk.scan? operator items else none with
    | some totals => return .vector totals
    | none =>
      match items with
      | [] => return .vector []
      | first :: _ =>
        let totals ← (List.range (items.length - 1)).mapM fun i => do
          scalarOr (.scanResult operator) (← foldItems apply operator (items.take (i + 2)))
        return .vector (first :: totals)

/-- The outer product; `each` combines an element with an operand, and `both` two scalars. -/
def outer (both each : Value → Value → Evaluation Value) (word combiner : String) (l r : Value) :
    Evaluation Value := do
  match l, r with
  | .vector _, .vector _ => failShape (.outerOfVectors word)
  | .vector items, _ =>
    return .vector (← items.mapM fun item => do
      scalarOr (.productResult combiner) (← each (.scalar item) r))
  | _, .vector items =>
    return .vector (← items.mapM fun item => do
      scalarOr (.productResult combiner) (← each l (.scalar item)))
  | .scalar _, .scalar _ => both l r
  | _, _ => throw (.fault .absentOperand)

/-- The elements of two operands, where a scalar is repeated to the length of the other operand. -/
def pairUp (l r : Value) : Result (List Scalar × List Scalar) := do
  let lefts ← l.elements
  let rights ← r.elements
  match l, r with
  | .scalar s, _ => return (List.replicate rights.length s, rights)
  | _, .scalar s => return (lefts, List.replicate lefts.length s)
  | _, _ => return (lefts, rights)

/-- The inner product; `combine` applies the second operator, and `apply` the first. -/
def inner (apply : Applying) (combine : Value → Value → Evaluation Value)
    (word reducer combiner : String) (l r : Value) : Evaluation Value := do
  let (lefts, rights) ← ofResult (pairUp l r)
  if lefts.length ≠ rights.length then
    failShape (.lengthMismatch word lefts.length rights.length)
  else
    let w ← get
    let primitive := (w.primitive? reducer).isSome && (w.primitive? combiner).isSome
    match if primitive then Bulk.inner? reducer combiner lefts rights else none with
    | some total => return .scalar total
    | none =>
      let combined ← (lefts.zip rights).mapM fun (a, b) => do
        scalarOr (.productResult word) (← combine (.scalar a) (.scalar b))
      reduce apply reducer (.vector combined)

/-- Applies the product of some operators, given the way to apply a single one at some toll. -/
def applyProduct (single : Nat → Applying) (toll : Nat) :
    List String → Value → Value → Evaluation Value
  | [], l, r => single toll l "" r
  | [operator], l, r => single toll l operator r
  | reducer :: combiner :: others, l, r =>
    let word := OperatorWord.product (reducer :: combiner :: others)
    let combineWord := OperatorWord.product (combiner :: others)
    let combine (toll : Nat) (a b : Value) := applyProduct single toll (combiner :: others) a b
    if reducer.isEmpty || combineWord.isEmpty then fail (.undefined (.noBinary word))
    else if reducer = "o" then outer (combine (toll + 3)) (combine (toll + 4)) word combineWord l r
    else inner (single (toll + 4)) (combine (toll + 3)) word reducer combineWord l r

end ArrayCalc.Evaluation
