import ArrayCalc.Number.Double
import ArrayCalc.Number.Radix

/-!
# Decimal digits of exact numbers

A positive number is written with some count of significant digits and a power of ten: `digits`
stands for `d.ddd × 10 ^ exponent`.  Two ways of choosing the digits are needed: the given number
of correctly rounded ones, and the fewest that tell a double from all others.
-/

namespace ArrayCalc.Decimal

/-- `digits` read as `d.ddd`, times ten to the `exponent`. -/
structure Scientific where
  digits : List Char
  exponent : Int
deriving DecidableEq, Repr

/-- The exponent of the leading digit of `num / den`, for positive numbers. -/
def leadingExponent (num den : Nat) : Int :=
  let guess : Int := ((Radix.digitsOf 10 num).length : Int) - (Radix.digitsOf 10 den).length
  if den * tens guess ≤ num * tens (-guess) then guess else guess - 1

/-- Ten to the `count` as a number of `count + 1` digits is one place too long: the digits are
those of the power below, at the next higher exponent. -/
def normalize (count digits : Nat) (exponent : Int) : Scientific :=
  if digits = tens count then ⟨Radix.digitsOf 10 (tens (count - 1)), exponent + 1⟩
  else ⟨Radix.digitsOf 10 digits, exponent⟩

/-- `num / den` rounded to `count` significant digits, for positive numbers. -/
def significant (count num den : Nat) : Scientific :=
  let exponent := leadingExponent num den
  let shift := (count : Int) - 1 - exponent
  normalize count (Double.roundDiv (num * tens shift) (den * tens (-shift))) exponent

/-- `num / den` rounded to `places` digits after the point, without the point. -/
def fixedPlaces (places num den : Nat) : Nat :=
  Double.roundDiv (num * tens places) den

/-! ## § Fewest digits -/

/-- The numbers that round to a double: between `low` and `high` over the common denominator `den`,
the ends included if `closed`.  The double itself is `mid / den`. -/
structure Neighbourhood where
  low : Nat
  mid : Nat
  high : Nat
  den : Nat
  closed : Bool

/-- The halfway points to the two neighbours of a double.  Below a power of two the doubles lie
twice as dense, unless they are already as dense as they can be. -/
def neighbourhood (mantissa : Nat) (exponent : Int) : Neighbourhood :=
  let scale := twos (exponent - 2)
  let below := if mantissa = Double.leadingBit ∧ exponent > -1074 then 1 else 2
  { low := (4 * mantissa - below) * scale
    mid := 4 * mantissa * scale
    high := (4 * mantissa + 2) * scale
    den := twos (-(exponent - 2))
    closed := mantissa % 2 = 0 }

/-- Whether `num / scale` lies in the neighbourhood, after both are brought over one
denominator. -/
def Neighbourhood.holds (n : Neighbourhood) (num scale : Nat) : Bool :=
  let low := n.low * scale
  let high := n.high * scale
  let point := num * n.den
  if n.closed then low ≤ point && point ≤ high else low < point && point < high

/-- The digits of the grid with `count` significant digits that lie next to the double and round to
it; of two such the nearer, of two equally near ones the even. -/
def Neighbourhood.onGrid? (n : Neighbourhood) (exponent : Int) (count : Nat) : Option Nat :=
  let shift := (count : Int) - 1 - exponent
  let up := tens shift
  let down := tens (-shift)
  let below := n.mid * up / (n.den * down)
  let holds (digits : Nat) : Bool := n.holds (digits * down) up
  match holds below, holds (below + 1) with
  | true, true => some (Double.roundDiv (n.mid * up) (n.den * down))
  | true, false => some below
  | false, true => some (below + 1)
  | false, false => none

/-- The first grid, from `count` significant digits on, that has a hit. -/
def Neighbourhood.search (n : Neighbourhood) (exponent : Int) (count : Nat) :
    Nat → Scientific
  | 0 => significant 17 n.mid n.den
  | tries + 1 =>
    match n.onGrid? exponent count with
    | some digits => normalize count digits exponent
    | none => n.search exponent (count + 1) tries

/-- The fewest digits that are read back as the double `mantissa * 2 ^ exponent`, and of those the
nearest to it; seventeen always suffice. -/
def shortest (mantissa : Nat) (exponent : Int) : Scientific :=
  let n := neighbourhood mantissa exponent
  n.search (leadingExponent n.mid n.den) 1 17

/-! ## § Layout -/

/-- The exponent of scientific notation, with its sign and at least two digits. -/
def exponentText (mark : Char) (exponent : Int) : List Char :=
  let digits := Radix.digitsOf 10 exponent.natAbs
  mark :: (if exponent < 0 then '-' else '+') :: (if digits.length < 2 then '0' :: digits else digits)

/-- Digits with a point after the first, if others follow or the point is wanted anyway. -/
def pointAfterFirst (digits : List Char) (keepPoint : Bool) : List Char :=
  match digits with
  | [] => []
  | first :: rest => if rest.isEmpty && !keepPoint then [first] else first :: '.' :: rest

/-- Digits with the last `places` after the point, if there are any or the point is wanted
anyway. -/
def pointBeforeLast (places : Nat) (digits : List Char) (keepPoint : Bool) : List Char :=
  let padded := List.replicate (places + 1 - digits.length) '0' ++ digits
  let whole := padded.length - places
  padded.take whole ++
    (if places = 0 then (if keepPoint then ['.'] else []) else '.' :: padded.drop whole)

/-- The text without the zeros at its end. -/
def dropTrailingZeros (text : List Char) : List Char :=
  (text.reverse.dropWhile (· == '0')).reverse

/-- The shortest text of a double: positional from 10^-4 up to 10^16, where it shows at least one
digit after the point, and scientific elsewhere. -/
def shortestText (x : Float) : String :=
  match Double.magnitude x with
  | .nan => "nan"
  | .infinite => if Double.isNegative x then "-inf" else "inf"
  | .finite mantissa exponent =>
    let size : List Char :=
      if mantissa = 0 then ['0', '.', '0']
      else
        let s := shortest mantissa exponent
        if s.exponent < -4 ∨ 16 ≤ s.exponent then
          pointAfterFirst s.digits false ++ exponentText 'e' s.exponent
        else
          let places := (s.digits.length : Int) - 1 - s.exponent
          if places ≤ 0 then s.digits ++ List.replicate (-places).toNat '0' ++ ['.', '0']
          else pointBeforeLast places.toNat s.digits false
    String.ofList (if Double.isNegative x then '-' :: size else size)

end ArrayCalc.Decimal
