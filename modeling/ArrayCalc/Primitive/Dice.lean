/-!
# Dice

The draws of `?` are made by a generator that is not part of the calculator: all that is kept is its
state.  For every draw the state is split in two, one for the draw and one for all that come after.
-/

namespace ArrayCalc

/-- The state of a generator. -/
structure Dice where
  state : UInt64
deriving DecidableEq, Repr

/-- A generator of evenly spread draws. -/
structure Generator where
  ofSeed : Int → Dice
  /-- The state for the later draws, and the one for the next. -/
  split : Dice → Dice × Dice
  /-- A number below a positive bound. -/
  below : Dice → Nat → Nat
  /-- A double from zero up to, but without, one. -/
  unit : Dice → Float

end ArrayCalc
