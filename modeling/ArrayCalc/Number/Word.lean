/-!
# 64-bit integers

The integers of the calculator are the signed 64-bit words of the core library.  Exact results are
computed in `Int` and brought back by `Int64.ofInt`, which keeps the number modulo 2^64.
-/

namespace ArrayCalc

/-- Whether `n` lies in the signed 64-bit range. -/
def Fits64 (n : Int) : Prop := -0x8000000000000000 ≤ n ∧ n < 0x8000000000000000

instance (n : Int) : Decidable (Fits64 n) := inferInstanceAs (Decidable (_ ∧ _))

/-- The signed 64-bit number that equals `n` modulo 2^64. -/
def wrap64 (n : Int) : Int := n.bmod 0x10000000000000000

theorem fits64_toInt (n : Int64) : Fits64 n.toInt :=
  ⟨Int64.le_toInt n, Int64.toInt_lt n⟩

/-- A number in the range is its own word. -/
theorem toInt_ofInt_of_fits {n : Int} (h : Fits64 n) : (Int64.ofInt n).toInt = n :=
  Int64.toInt_ofInt_of_le h.1 h.2

namespace Word

/-- `base ^ exponent` modulo 2^64, by repeated squaring. -/
def pow (base : Int64) (exponent : Nat) : Int64 :=
  if exponent = 0 then 1
  else
    let half := pow (base * base) (exponent / 2)
    if exponent % 2 = 1 then base * half else half
termination_by exponent
decreasing_by omega

/-- Shifted to the left by a count that may be any number; from 64 on nothing is left. -/
def shiftLeft (a : Int64) (count : Nat) : Int64 :=
  if count ≥ 64 then 0 else a <<< Int64.ofNat count

/-- Shifted to the right with the sign filled in; from 63 on only the sign is left. -/
def shiftRight (a : Int64) (count : Nat) : Int64 :=
  a >>> Int64.ofNat (min count 63)

end Word

end ArrayCalc
