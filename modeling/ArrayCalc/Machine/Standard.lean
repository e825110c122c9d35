import ArrayCalc.Machine
import ArrayCalc.Number.Double

/-!
# The standard machine

The machine that the program is run on unless it is told otherwise.  Its array library goes through
a row from the left: integers are counted modulo 2^64; of two doubles the larger one and the smaller
one are told by their places, so that minus zero is smaller than zero; an undefined double spreads,
and doubles too small for a full mantissa count as zeros.  Its generator counts in large odd steps
and mixes the bits.
-/

namespace ArrayCalc

namespace Bulk

/-! ## § Rows of integers -/

/-- The operation on two integers. -/
def Operation.onInts : Operation → Int64 → Int64 → Int64
  | .sum, a, b => a + b
  | .product, a, b => a * b
  | .extreme .largest, a, b => if a ≥ b then a else b
  | .extreme .smallest, a, b => if a ≤ b then a else b

/-- The fold from the left of a row that is not empty. -/
def total {α : Type} [Inhabited α] (f : α → α → α) : List α → α
  | [] => default
  | first :: rest => rest.foldl f first

/-- All results of the fold from the left on the way, after a first one. -/
def running {α : Type} (f : α → α → α) : α → List α → List α
  | total, [] => [total]
  | total, item :: rest => total :: running f (f total item) rest

/-- The folds of all beginnings. -/
def accumulate {α : Type} (f : α → α → α) : List α → List α
  | [] => []
  | first :: rest => running f first rest

/-! ## § Rows of floats -/

/-- The direction as a sign. -/
def Extreme.sign : Extreme → Int
  | .largest => 1
  | .smallest => -1

/-- The more extreme of two doubles. -/
def Extreme.onFloats (e : Extreme) (a b : Float) : Float :=
  if a.isNaN then a else if b.isNaN then b
  else if e.sign * Double.place a < e.sign * Double.place b then b else a

def Library.standard : Library where
  reduceInts operation ns := total operation.onInts ns
  scanInts operation ns := accumulate operation.onInts ns
  dot as bs := (as.zip bs).foldl (fun sum (a, b) => sum + a * b) 0
  reduceFloats e xs := total e.onFloats (xs.map Double.flushed)
  scanFloats e xs := accumulate e.onFloats (xs.map Double.flushed)

end Bulk

namespace Dice

/-- The next word: a counter in large odd steps, with its bits mixed thoroughly. -/
def word (d : Dice) : UInt64 × Dice :=
  let state := d.state + 0x9e3779b97f4a7c15
  let a := (state ^^^ (state >>> 30)) * 0xbf58476d1ce4e5b9
  let b := (a ^^^ (a >>> 27)) * 0x94d049bb133111eb
  (b ^^^ (b >>> 31), ⟨state⟩)

end Dice

def Generator.standard : Generator where
  ofSeed seed := ⟨(Int64.ofInt seed).toUInt64⟩
  split dice := (dice.word.2, ⟨dice.word.1⟩)
  below dice bound := dice.state.toNat % bound
  unit dice := Float.scaleB (Float.ofNat (dice.state >>> 11).toNat) (-53)

namespace Machine

/-- The reader is given up before it takes anything more, unless one level or two more would do: then
the next token has been scanned, and if a single one would do, the token before it as well. -/
def standardCut (missing : Nat) (line : List Char) : Cut where
  tokens := if missing = 0 then 1 else 0
  characters := if missing < 3 then line.length else 0

@[reducible]
def standard : Machine where
  nesting := 980
  calls := 986
  cut := standardCut
  tearsFrames := true
  policy := {}
  library := .standard
  generator := .standard

end Machine

/-- The standard machine is taken wherever no other one is given. -/
instance (priority := low) : Machine := .standard

end ArrayCalc
