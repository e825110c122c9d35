import ArrayCalc.Machine
import ArrayCalc.Value

/-!
# Bulk routes

Long vectors of one kind are reduced, scanned and multiplied by the array library.  It has operations
on integers, and among floats it finds the largest and the smallest.
-/

namespace ArrayCalc.Bulk

/-- The elements of a vector of integers. -/
def ints? (items : List Scalar) : Option (List Int64) :=
  items.mapM fun
    | .int n => some n
    | _ => none

/-- The elements of a vector of floats. -/
def floats? (items : List Scalar) : Option (List Float) :=
  items.mapM fun
    | .float x => some x
    | _ => none

/-- The direction of an operation that is safe for floats. -/
def Operation.extreme? : Operation → Option Extreme
  | .extreme e => some e
  | _ => none

variable [Machine]

def reduce? (operator : String) (items : List Scalar) : Option Scalar := do
  let operation ← Operation.ofName? operator
  if Machine.policy.covers items.length then
    match ints? items, floats? items, operation.extreme? with
    | some ns, _, _ => return .int (Machine.library.reduceInts operation ns)
    | none, some xs, some e => return .float (Machine.library.reduceFloats e xs)
    | _, _, _ => none
  else none

def scan? (operator : String) (items : List Scalar) : Option (List Scalar) := do
  let operation ← Operation.ofName? operator
  if Machine.policy.covers items.length then
    match ints? items, floats? items, operation.extreme? with
    | some ns, _, _ => return (Machine.library.scanInts operation ns).map .int
    | none, some xs, some e => return (Machine.library.scanFloats e xs).map .float
    | _, _, _ => none
  else none

/-- The sum of products of two integer vectors of one length. -/
def inner? (reducer combiner : String) (left right : List Scalar) : Option Scalar :=
  if reducer ≠ "+" ∨ combiner ≠ "*" ∨ left.length ≠ right.length then none
  else if Machine.policy.covers left.length then
    match ints? left, ints? right with
    | some as, some bs => some (.int (Machine.library.dot as bs))
    | _, _ => none
  else none

end ArrayCalc.Bulk
