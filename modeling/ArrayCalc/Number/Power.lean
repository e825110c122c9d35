/-!
# Powers with an exponent of either sign

A number is often a quotient of integers times a power of two or of ten.  `twos e` and `tens e` are
one for a negative `e`; so `twos e / twos (-e)` is the power of two for every exponent, with all of
it in the numerator or all of it in the denominator.
-/

namespace ArrayCalc

def twos (exponent : Int) : Nat := Nat.pow 2 exponent.toNat

def tens (exponent : Int) : Nat := Nat.pow 10 exponent.toNat

end ArrayCalc
