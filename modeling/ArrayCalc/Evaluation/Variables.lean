import ArrayCalc.Workspace

/-!
# Variables and their elements

Evaluation works on a workspace.  What it has done before an error stays done.

A variable belongs to the session or is a slot of the innermost frame.  A subscript is an integer or
a vector of integers, counted from the origin of the settings, and it selects elements of a vector,
to read them or to replace them.
-/

namespace ArrayCalc

abbrev Evaluation := EStateM Failure Workspace

namespace Evaluation

def ofResult {α : Type} : Result α → Evaluation α
  | .ok a => return a
  | .error failure => throw failure

def fail {α : Type} (e : Error) : Evaluation α := throw (.error e)

def failShape {α : Type} (e : ShapeError) : Evaluation α := fail (.shape e)

def failCall {α : Type} (e : CallError) : Evaluation α := fail (.call e)

/-! ## § Variables -/

/-- What a lookup has found; neither nothing nor an absent value will do. -/
def defined (name : String) : Option Value → Evaluation Value
  | some (.scalar s) => return .scalar s
  | some (.vector items) => return .vector items
  | _ => fail (.undefined (.noVariable name))

/-- The value in a slot of the innermost frame. -/
def readSlot (slot : Nat) : Evaluation Value := do
  let w ← get
  if w.stack.depth = 0 then failCall .noFrame
  else match w.stack.slot? slot with
    | some v => return v
    | none => throw (.fault .noSlot)

/-- Fills a slot of the innermost frame. -/
def writeSlot (slot : Nat) (v : Value) : Evaluation Unit := do
  let w ← get
  if w.stack.depth = 0 then failCall .noFrame
  else match w.stack.setSlot? slot v with
    | some stack => set { w with stack := stack }
    | none => throw (.fault .noSlot)

/-- A place that can hold a value. -/
inductive Place where
  | ofSession (name : String)
  | ofFrame (name : String) (slot : Nat)
deriving DecidableEq

namespace Place

/-- The variable that a tree is, if it is one. -/
def ofExpr? : Expr → Option Place
  | .sessionVar name => some (.ofSession name)
  | .slotVar name slot => some (.ofFrame name slot)
  | _ => none

def name : Place → String
  | ofSession name | ofFrame name _ => name

def read : Place → Evaluation Value
  | ofSession name => do defined name ((← get).global? name)
  | ofFrame name slot => do defined name (some (← readSlot slot))

def write (v : Value) : Place → Evaluation Unit
  | ofSession name => modify (·.setGlobal name v)
  | ofFrame _ slot => writeSlot slot v

end Place

/-! ## § Subscripts -/

/-- The position that an index names in a vector of the given length. -/
def position (origin : Int) (length : Nat) (index : Scalar) : Result Nat := do
  let i ← Value.toInteger (.scalar index) "index"
  let p := i - origin
  if 0 ≤ p ∧ p < length then return p.toNat else Result.shape (.indexRange i length)

/-- The positions that a subscript names, one after the other. -/
def positions (origin : Int) (length : Nat) (subscript : Value) : Result (List Nat) := do
  (← subscript.elements).mapM (position origin length)

/-- The elements at some positions of a vector. -/
def elementsAt (items : List Scalar) (places : List Nat) : List Scalar :=
  places.filterMap (items[·]?)

/-- The part of a value that a subscript selects; without a subscript that is all of it. -/
def select (origin : Int) (base : Value) (subscript : Option Value) : Result Value :=
  match base, subscript with
  | .vector items, none => .ok (.vector items)
  | .vector items, some s => do
    let places ← positions origin items.length s
    let chosen := elementsAt items places
    match s, chosen with
    | .scalar _, [item] => return .scalar item
    | _, _ => return .vector chosen
  | _, _ => .shape .indexedScalar

/-- Puts new items in some places of a vector, one after the other. -/
def replaceAt (items : List Scalar) (changes : List (Nat × Scalar)) : List Scalar :=
  changes.foldl (fun row change => row.set change.1 change.2) items

/-- A vector with what a subscript selects replaced by a scalar, or by as many items. -/
def replace (origin : Int) (items : List Scalar) (subscript : Option Value) (v : Value) :
    Result (List Scalar) := do
  let places ← match subscript with
    | none => pure (List.range items.length)
    | some s => positions origin items.length s
  match v with
  | .vector news =>
    if news.length ≠ places.length then
      Result.shape (.assignmentLength places.length news.length)
    else return replaceAt items (places.zip news)
  | .scalar s => return replaceAt items (places.map (·, s))
  | .absent => Result.fault .absentElement

end Evaluation

end ArrayCalc
