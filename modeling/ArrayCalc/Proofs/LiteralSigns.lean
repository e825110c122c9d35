import ArrayCalc.Proofs.ClosestFractions
import ArrayCalc.Proofs.ExactLiterals

/-!
# Signs of literals

A literal is not zero if its nearest double is not, and it should be read as a number of its sign.
Integers are, and so are all literals whose parts are within 64 bits.  The others are replaced by the
closest fraction to their nearest double, and of a very small double that is zero: a literal up to
half of the smallest fraction loses its value, whereas a larger one only comes out inexact.

With too many digits in a row a literal is not read at all.
-/

namespace ArrayCalc

variable {q r : ℚ} {x : Float}

/-! ## § Signs -/

/-- The rational number that an exact number or a finite double is. -/
def Scalar.real? : Scalar → Option Rat
  | .float x => Double.toRat? x
  | s => s.rat?

/-- A real number with the sign of another one, which is not zero. -/
def Scalar.HasSign (s : Scalar) (q : Rat) : Prop := ∃ r, s.real? = some r ∧ 0 < r * q

/-- The value of the nearest double; there is none if that is infinite. -/
def Double.nearestValue? (q : Rat) : Option Rat := (nearest? q).bind toRat?

namespace Scalar

variable {s : Scalar}

theorem Keeps.real? (h : s.Keeps r) : s.real? = some r := by
  rcases rat?_cases h.value with ⟨n, rfl, -⟩ | ⟨f, rfl, -⟩
  · exact h.value
  · exact h.value

theorem Keeps.hasSign (h : s.Keeps r) (sign : 0 < r * q) : s.HasSign q := ⟨r, h.real?, sign⟩

theorem Keeps.hasSign_self (h : s.Keeps q) (some : q ≠ 0) : s.HasSign q :=
  h.hasSign (mul_self_pos.2 some)

end Scalar

namespace Numeral

/-! ## § Closest fractions to doubles -/

/-- Half of the smallest fraction within 64 bits. -/
def leastKept : Rat := 1 / (2 * 0x7fffffffffffffff)

/-- The closest fraction within 64 bits, as far as the denominator goes. -/
abbrev closest (r : Rat) : Rat := Approximation.closest 0x7fffffffffffffff r

section Wide

variable (wide : ¬Fraction.Bounded q) (near : Double.nearest? q = some x)
  (value : Double.toRat? x = some r)

include wide near value

/-- A wide number is replaced by the closest fraction to its nearest double. -/
theorem ofExact_wide : ofExact q = match Scalar.ofRat (closest r) with
    | .ok (.float _) | .error _ => .float x
    | .ok exact => exact := by
  unfold ofExact
  rw [Scalar.ofRat_wide wide near]
  dsimp only
  rw [value]
  rfl

/-- If that does not fit, the double itself is kept. -/
theorem ofExact_cases : (ofExact q).Keeps (closest r) ∨ ofExact q = .float x := by
  rw [ofExact_wide wide near value]
  split
  next => exact .inr rfl
  next => exact .inr rfl
  next s other exact =>
    refine .inl ((Scalar.ofRat_cases exact).resolve_right fun float => ?_)
    cases s with
    | float y => exact other y rfl
    | int | rational | complex | char => exact nomatch float

end Wide

theorem closest_sign (some : r ≠ 0) :
    if leastKept < |r| then 0 < closest r * r else closest r = 0 := by
  have least : leastKept < |r| ↔ ¬2 * |r| * (0x7fffffffffffffff : Int) ≤ 1 := by
    unfold leastKept
    rw [not_le, div_lt_iff₀ (by norm_num)]
    push_cast
    rw [mul_left_comm, mul_assoc]
  have sign := @Approximation.closest_sign 0x7fffffffffffffff r (by decide) some
  by_cases large : leastKept < |r|
  · rw [if_pos large]
    rwa [if_neg (least.1 large)] at sign
  · rw [if_neg large]
    rwa [if_pos (not_not.1 (mt least.2 large))] at sign

/-- **An exact value keeps its sign, unless it is replaced by zero.** -/
theorem ofExact_sign (near : Double.nearest? q = some x) (value : Double.toRat? x = some r)
    (some : r ≠ 0) : if Fraction.Bounded q ∨ leastKept < |r| then (ofExact q).HasSign q
      else ofExact q = .int 0 := by
  have sign := Double.nearest?_sign near value some
  have replaced := closest_sign some
  by_cases fits : Fraction.Bounded q
  · rw [if_pos (.inl fits)]
    exact (ofExact_fits fits).hasSign_self (right_ne_zero_of_mul sign.ne')
  by_cases large : leastKept < |r|
  · rw [if_pos large] at replaced
    rw [if_pos (.inr large)]
    rcases ofExact_cases fits near value with keeps | float
    · -- The fraction has the sign of the double, which has that of the number.
      have chain : 0 < closest r * q * (r * r) := by
        have := mul_pos replaced sign
        linarith
      exact keeps.hasSign (pos_of_mul_pos_left chain (mul_self_nonneg r))
    · rw [float]
      exact ⟨r, value, sign⟩
  · rw [if_neg large] at replaced
    rw [if_neg (not_or.2 ⟨fits, large⟩), ofExact_wide fits near value, replaced]
    rfl

/-! ## § Literals -/

namespace Parts

variable {text : List Char} {base : Int} {d : Parts}

/-- A literal whose value survives reading: one that is an integer, exact, or not too small. -/
def Survives (d : Parts) (text : List Char) (r : Rat) : Prop :=
  d.Whole text ∨ Fraction.Bounded d.number ∨ leastKept < |r|

section

variable (short : d.Short) (decimal : base = 0 ∨ base = 10)
  (near : Double.nearest? d.number = some x) (value : Double.toRat? x = some r) (some : r ≠ 0)

include short decimal near value some

/-- An integer has its sign, even as a double. -/
theorem Whole.real_sign (h : d.Whole text) :
    ∃ s, real text base = .ok s ∧ s.HasSign d.number := by
  have stands := h.stands decimal short
  have sign := Double.nearest?_sign near value some
  by_cases fits : Fits64 d.integer
  · exact ⟨_, stands.real_eq fits,
      (h.keeps fits).hasSign_self (right_ne_zero_of_mul sign.ne')⟩
  · refine ⟨.float x, ?_, r, value, sign⟩
    rw [h.number_eq] at near
    rw [stands.real_wide fits, near]

/-- **A literal is read as a number of its sign, or it is lost.** -/
theorem Written.real_sign (h : d.Written text) :
    (d.Survives text r → ∃ s, real text base = .ok s ∧ s.HasSign d.number) ∧
      (¬d.Survives text r → real text base = .ok (.int 0)) := by
  by_cases whole : d.Whole text
  · exact ⟨fun _ => whole.real_sign short decimal near value some,
      fun lost => absurd (.inl whole) lost⟩
  · have read : real text base = .ok (ofExact d.number) := by
      rw [h.real_decimal decimal ((h.whole_or decimal).resolve_left whole), value_short short]
      rfl
    have sign := ofExact_sign near value some
    rw [read]
    constructor
    · intro survives
      rw [if_pos (survives.resolve_left whole)] at sign
      exact ⟨_, rfl, sign⟩
    · intro lost
      rw [if_neg (mt .inr lost)] at sign
      rw [sign]

end

end Parts

/-- What becomes of the real literals of a base whose nearest double is not zero. -/
structure LiteralSigns (base : Int) : Prop where
  survives : ∀ d text r, Parts.Written d text → d.Short →
    Double.nearestValue? d.number = some r → r ≠ 0 → d.Survives text r →
    ∃ s, read (String.ofList text) base = .ok s ∧ s.HasSign d.number
  /-- All others become zero. -/
  lost : ∀ d text r, Parts.Written d text → d.Short →
    Double.nearestValue? d.number = some r → r ≠ 0 → ¬d.Survives text r →
    read (String.ofList text) base = .ok (.int 0)
  refused : ∀ d text, Parts.Written d text → ¬d.Short →
    ∃ count, digitLimit < count ∧
      read (String.ofList text) base = refuse (.tooManyDigits count)

/-- **A literal keeps its sign, unless it is a decimal of a size up to half of the smallest
fraction.** -/
theorem literal_signs {base : Int} (decimal : base = 0 ∨ base = 10) : LiteralSigns base where
  survives d text r h short value some survives := by
    obtain ⟨x, near, value⟩ := Option.bind_eq_some_iff.1 value
    rw [h.read_eq]
    exact (h.real_sign short decimal near value some).1 survives
  lost d text r h short value some lost := by
    obtain ⟨x, near, value⟩ := Option.bind_eq_some_iff.1 value
    rw [h.read_eq]
    exact (h.real_sign short decimal near value some).2 lost
  refused d text h long := by
    rw [h.read_eq]
    exact h.real_long decimal long

/-- Above and below half of the smallest fraction. -/
theorem literal_signs_tiny :
    ((10 : Int) = 0 ∨ (10 : Int) = 10) ∧
      (∃ s, read "-6e-20" 10 = .ok s ∧ s.HasSign (-6 / 10 ^ 20)) ∧
      read "5e-20" 10 = .ok (.int 0) := by
  have signs := literal_signs (.inr rfl : (10 : Int) = 0 ∨ (10 : Int) = 10)
  have digits {x : List Char} (h : x.all Text.isAsciiDigit = true) : Digits x :=
    List.all_eq_true.1 h
  have above : Parts.Written ⟨true, ['6'], [], some (true, ['2', '0'])⟩
      ['-', '6', 'e', '-', '2', '0'] :=
    .mk .minus (digits rfl) .none (.power (.inl rfl) .minus (digits rfl) nofun) (.inl nofun)
  have below : Parts.Written ⟨false, ['5'], [], some (true, ['2', '0'])⟩
      ['5', 'e', '-', '2', '0'] :=
    .mk .none (digits rfl) .none (.power (.inl rfl) .minus (digits rfl) nofun) (.inl nofun)
  refine ⟨.inr rfl, ?_, ?_⟩
  · have number : Parts.number ⟨true, ['6'], [], some (true, ['2', '0'])⟩ = -6 / 10 ^ 20 := by
      decide +kernel
    rw [← number]
    exact signs.survives _ _ (-4984604984193435 / 83076749736557242056487941267521536) above
      ⟨by decide, by decide, by decide⟩ (by decide +kernel) (by decide +kernel)
      (.inr (.inr (by decide +kernel)))
  · refine signs.lost _ _ (2076918743413931 / 41538374868278621028243970633760768) below
      ⟨by decide, by decide, by decide⟩ (by decide +kernel) (by decide +kernel) ?_
    rintro (whole | fits | large)
    · exact nomatch whole.exponent
    · exact absurd fits (by decide +kernel)
    · exact absurd large (by decide +kernel)

end Numeral

end ArrayCalc
