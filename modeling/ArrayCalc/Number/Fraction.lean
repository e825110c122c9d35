import ArrayCalc.Number.Double
import ArrayCalc.Number.Word

/-!
# Fractions within 64 bits

Exact arithmetic is done in `Rat`.  A result is kept as a fraction only if its numerator and its
denominator, in lowest terms, are 64-bit integers; the bound is part of the type.  A number that is
too wide is replaced by the closest fraction whose denominator is not.
-/

namespace ArrayCalc

/-- A rational number whose parts, in lowest terms, lie in the 64-bit range. -/
structure Fraction where
  val : Rat
  num_fits : Fits64 val.num
  den_fits : Fits64 val.den
deriving DecidableEq

namespace Fraction

/-- Whether a rational number has parts within 64 bits. -/
def Bounded (q : Rat) : Prop := Fits64 q.num ∧ Fits64 q.den

instance (q : Rat) : Decidable (Bounded q) := inferInstanceAs (Decidable (_ ∧ _))

def ofRat? (q : Rat) : Option Fraction :=
  if h : Bounded q then some ⟨q, h.1, h.2⟩ else none

/-- A word as a fraction over one. -/
def ofWord (n : Int64) : Fraction where
  val := (n.toInt : Rat)
  num_fits := by rw [Rat.num_intCast]; exact fits64_toInt n
  den_fits := by rw [Rat.den_intCast]; decide

def num (q : Fraction) : Int := q.val.num

def den (q : Fraction) : Int := q.val.den

/-- The nearest double.  The parts of a fraction are far below the largest double. -/
def toFloat (q : Fraction) : Float := (Double.nearest? q.val).getD Double.infinity

end Fraction

/-! ## § Best approximation -/

namespace Approximation

/-- Two neighbouring convergents of a continued fraction, the older one first. -/
structure Convergents where
  num₀ : Int
  den₀ : Int
  num₁ : Int
  den₁ : Int

/-- The last two convergents with a denominator up to `bound`, for the continued fraction of
`num / den` continued from `c`. -/
def convergents (bound : Int) (c : Convergents) (num : Int) (den : Nat) : Convergents :=
  if den = 0 then c
  else
    let term := num / (den : Int)
    let next := c.den₀ + term * c.den₁
    if next > bound then c
    else
      convergents bound ⟨c.num₁, c.den₁, c.num₀ + term * c.num₁, next⟩ den (num % den).toNat
termination_by den
decreasing_by
  have := Int.emod_lt_of_pos num (b := (den : Int)) (by omega)
  have := Int.emod_nonneg num (b := (den : Int)) (by omega)
  omega

/-- The fraction closest to `q` with a denominator up to `bound`.  It is the last convergent or the
last mediant before the bound; at equal distance the convergent is taken. -/
def closest (bound : Int) (q : Rat) : Rat :=
  if (q.den : Int) ≤ bound then q
  else
    let c := convergents bound ⟨0, 1, 1, 0⟩ q.num q.den
    let steps := (bound - c.den₀) / c.den₁
    let mediant : Rat :=
      ((c.num₀ + steps * c.num₁ : Int) : Rat) / ((c.den₀ + steps * c.den₁ : Int) : Rat)
    let convergent : Rat := (c.num₁ : Rat) / (c.den₁ : Rat)
    if (convergent - q).abs ≤ (mediant - q).abs then convergent else mediant

end Approximation

end ArrayCalc
