import ArrayCalc.Primitive.Dice
import ArrayCalc.Primitive.Library

/-!
# Machines

What the calculator finds where it runs and does not make itself: how deep it may go, an array
library, and a generator for the dice.

Reading and evaluation go down level by level, and where no level is left they are given up.  That
can happen in the midst of something.  The reader may be given up while the scanner has a token in
its hands, and then what it has taken of the token is lost; a call may be given up while its frame is
opened, and then its size is on record without its slots.
-/

namespace ArrayCalc

/-- Where the reader is given up. -/
structure Cut where
  /-- How many tokens of the line are still taken. -/
  tokens : Nat
  /-- How many characters of the token behind them have been scanned. -/
  characters : Nat
deriving DecidableEq, Repr

class Machine where
  /-- The levels that there are for an expression while it is read. -/
  nesting : Nat
  /-- The levels that there are for its evaluation. -/
  calls : Nat
  /-- Where the reader is given up when so many levels are missing in front of a line. -/
  cut : Nat → List Char → Cut
  /-- Whether a call may be given up in the midst of opening its frame. -/
  tearsFrames : Bool
  policy : Bulk.Policy
  library : Bulk.Library
  generator : Generator

namespace Machine

/-- The levels that a file takes which is loaded by a command. -/
def loadingToll : Nat := 2

/-- The machine as a file finds it that is loaded by a command. -/
@[reducible]
def within (machine : Machine) : Machine :=
  { machine with
    nesting := machine.nesting - loadingToll
    calls := machine.calls - loadingToll }

end Machine

end ArrayCalc
