import ArrayCalc.Settings

/-!
# The array library

Long vectors of one kind are reduced, scanned and multiplied as a whole by a library for arrays.
What it makes of a row is all that is known of it; when it is asked is a policy, which the
environment can change.
-/

namespace ArrayCalc.Bulk

/-- The direction in which something extreme is looked for. -/
inductive Extreme where
  | largest
  | smallest
deriving DecidableEq, Repr

/-- The operations that the library has.  All of them are on integers; floats are never added or
multiplied as a whole, since the result would depend on the order. -/
inductive Operation where
  | sum
  | product
  | extreme (e : Extreme)
deriving DecidableEq, Repr

/-- The operation that an operator stands for. -/
def Operation.ofName? : String → Option Operation
  | "+" => some .sum
  | "*" => some .product
  | "max" => some (.extreme .largest)
  | "min" => some (.extreme .smallest)
  | _ => none

/-- What the library makes of rows that are not empty. -/
structure Library where
  reduceInts : Operation → List Int64 → Int64
  /-- The reductions of all beginnings. -/
  scanInts : Operation → List Int64 → List Int64
  /-- The sum of the products of two rows of one length. -/
  dot : List Int64 → List Int64 → Int64
  reduceFloats : Extreme → List Float → Float
  scanFloats : Extreme → List Float → List Float

/-- When the library is asked. -/
structure Policy where
  enabled : Bool := true
  /-- The least length of a row that it is asked about. -/
  leastLength : Nat := 64
  leastLength_pos : 0 < leastLength := by decide

namespace Policy

/-- Whether the library is asked about rows of a length. -/
def covers (policy : Policy) (length : Nat) : Bool :=
  policy.enabled && decide (policy.leastLength ≤ length)

/-- The policy that an environment asks for; nothing if it names a length that is no integer. -/
def ofEnvironment? (environment : List (String × String)) : Option Policy := do
  let text (key : String) : Option String := environment.lookup (Settings.variableStem ++ key)
  let least ← match text "FAST_PATH_MIN" with
    | none => some 64
    | some least => IntegerText.decimal? least
  return {
    enabled := text "DISABLE_FAST_PATHS" != some "1"
    leastLength := max 1 least.toNat
    leastLength_pos := Nat.lt_of_lt_of_le Nat.zero_lt_one (Nat.le_max_left 1 least.toNat) }

end Policy

end ArrayCalc.Bulk
