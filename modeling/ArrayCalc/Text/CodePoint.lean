/-!
# Code points

What a character value holds.  Most code points are characters.  The others are surrogates: an
escape can name them, but no text can hold them.
-/

namespace ArrayCalc

inductive CodePoint where
  | char (c : Char)
  | surrogate (code : Nat) (inside : 0xd800 ≤ code ∧ code < 0xe000)
deriving DecidableEq

namespace CodePoint

instance : Coe Char CodePoint := ⟨char⟩

def code : CodePoint → Nat
  | char c => c.toNat
  | surrogate code _ => code

theorem code_lt (c : CodePoint) : c.code < 0x110000 := by
  cases c with
  | char c =>
    have valid := c.valid
    unfold code Char.toNat
    rcases valid with low | ⟨-, high⟩
    · exact Nat.lt_trans low (by decide)
    · exact high
  | surrogate code inside => exact Nat.lt_trans inside.2 (by decide)

/-- The code point with a code, if there is one. -/
def ofCode? (code : Nat) : Option CodePoint :=
  if h : code.isValidChar then some (char (Char.ofNatAux code h))
  else if h : 0xd800 ≤ code ∧ code < 0xe000 then some (surrogate code h)
  else none

/-- The code point as a character of a text. -/
def char? : CodePoint → Option Char
  | char c => some c
  | surrogate _ _ => none

end CodePoint

end ArrayCalc
