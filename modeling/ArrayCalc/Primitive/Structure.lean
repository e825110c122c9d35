import ArrayCalc.Value.Lattice

/-!
# Primitives on whole values

Counting, reversing, joining and reshaping look at a value as a list of elements and never at the
elements themselves.
-/

namespace ArrayCalc.Primitive

/-- The integers from `origin` on; the count may come as a vector of one element. -/
def iota (origin : Int) (v : Value) : Result Value := do
  let v ← match v with
    | .vector [s] => pure (.scalar s)
    | .vector _ => .shape .countOfRank
    | _ => pure v
  let count ← v.toInteger "iota"
  if count < 0 then .domain .negativeCount
  else return .vector ((List.range count.toNat).map fun (i : Nat) => .ofInt (origin + i))

def length (v : Value) : Result Value := do
  return .scalar (.ofInt (← v.elements).length)

def reverse (v : Value) : Result Value :=
  match v with
  | .vector items => .ok (.vector items.reverse)
  | _ => .ok v

def catenate (l r : Value) : Result Value := Value.catenate [l, r]

/-- The first `count` items of an endless repetition; nothing if there is nothing to repeat. -/
def cycle (count : Nat) (items : List Scalar) : List Scalar :=
  let array := items.toArray
  (List.range count).filterMap fun i => array[i % array.size]?

/-- As many elements as the left operand says, repeated from the start when they run out. -/
def reshape (l r : Value) : Result Value := do
  let l ← match l with
    | .vector [s] => pure (.scalar s)
    | .vector _ => .shape .shapeOfRank
    | _ => pure l
  let count ← l.toInteger "rho"
  if count < 0 then .domain .negativeLength
  else
    let items ← r.elements
    if count ≠ 0 ∧ items = [] then .shape .emptyExtension
    else return .vector (cycle count.toNat items)

end ArrayCalc.Primitive
