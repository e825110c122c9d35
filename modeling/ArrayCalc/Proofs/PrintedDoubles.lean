import ArrayCalc.Proofs.ClosestFractions
import ArrayCalc.Proofs.DecimalTexts

/-!
# Printed doubles

The text of a double is a decimal that rounds to it, and a reader keeps of a decimal either the exact
value, or the double, or the closest fraction to the double.  All of these have the double as their
nearest, unless it is too small for a fraction.  The parts of a complex number are read in this way
too.
-/

namespace ArrayCalc

open Lexeme (withSign Quotient Unsigned Behind separators)
open Numeral (Parts)

/-- A double that a reader of decimals gets back from its text: zero, or one that is not smaller than
the closest fraction can be. -/
def Double.Readable (x : Float) : Prop := x = 0 ∨ ∃ q, toRat? x = some q ∧ leastFraction ≤ |q|

theorem Double.Readable.finite {x : Float} (h : Double.Readable x) :
    ∃ mantissa exponent, magnitude x = .finite mantissa exponent := by
  have value : ∃ q, toRat? x = some q := by
    rcases h with rfl | ⟨q, value, -⟩
    · exact ⟨0, by decide +kernel⟩
    · exact ⟨q, value⟩
  obtain ⟨q, value⟩ := value
  cases hm : magnitude x with
  | finite mantissa exponent => exact ⟨mantissa, exponent, rfl⟩
  | infinite | nan => simp [toRat?, hm] at value

/-- A decimal that is kept as a scalar with this double as its nearest one. -/
structure Numeral.Spells (d : Parts) (x : Float) : Prop where
  plain : d.Plain
  value : Value.toFloat (.scalar (ofExact (if d.negative then -d.size else d.size))) = .ok x

/-- **The text of a double is a decimal for it.** -/
theorem Decimal.shortestText_spells {x : Float} (h : Double.Readable x) :
    ∃ d : Parts, Numeral.Spells d x ∧ shortestText x = String.ofList d.text := by
  rcases h with rfl | ⟨q, value, large⟩
  · have zero : Numeral.Ascii ['0'] := ascii_of_length (List.forall_mem_singleton.2 rfl) (by decide)
    have text : shortestText 0 = "0.0" := by decide +kernel
    -- Zero has no leading digit, and is not searched for.
    refine ⟨⟨false, ['0'], ['0'], none⟩, ⟨⟨zero, List.cons_ne_nil _ _, zero, nofun,
      .inl (List.cons_ne_nil _ _)⟩, ?_⟩, text⟩
    have none : Parts.size ⟨false, ['0'], ['0'], none⟩ = 0 := by
      unfold Parts.size
      exact zero_mul _
    rw [none]
    decide +kernel
  · have pos : (0 : ℚ) < |q| := lt_of_lt_of_le (by norm_num [Double.leastFraction]) large
    obtain ⟨mantissa, exponent, hx, some, size, sign⟩ :=
      Double.finite_of_toRat? value (abs_pos.1 pos)
    obtain ⟨proper, -⟩ := Double.proper_of_magnitude hx
    have spells := shortest_spells proper some
    obtain ⟨d, negative, plain, text, same⟩ := laidOut spells (Double.isNegative x)
    have rounds : Double.Rounds d.size mantissa exponent := same ▸ spells.rounds
    have positive := rounds.pos some
    have signed : |if d.negative then -d.size else d.size| = d.size := by
      split
      · rw [abs_neg, abs_of_pos positive]
      · exact abs_of_pos positive
    have negative_iff : (if d.negative then -d.size else d.size) < 0 ↔ Double.isNegative x = true := by
      rw [← negative]
      split
      next h => simp [h, positive]
      next h => simp [h, positive.le]
    have near := Double.nearest?_of_rounds hx some (signed.symm ▸ rounds) negative_iff
    refine ⟨d, ⟨plain, Numeral.toFloat_ofExact near value large⟩, ?_⟩
    rw [shortestText_eq hx some, text, Parts.text, negative]

/-! ## § Words -/

section Words

variable {v : Vocabulary} {d e : Parts} {x y : Float} {base : Int}

namespace Lexeme

variable {y z : List Char}

/-- Two numbers with the mark of the imaginary part between them. -/
theorem number_complex (h : Quotient v y) (k : Quotient v z) (marked : v.digits.contains 'j' = false)
    (negative negative' : Bool) {c : Char} (hc : c ∈ separators) (tail : List Char) :
    number v (withSign negative y ++ 'j' :: (withSign negative' z ++ c :: tail))
      = .token .complex (withSign negative y ++ 'j' :: withSign negative' z).length := by
  -- The sign of the second part is skipped before its digits are measured.
  obtain ⟨sign, second, length⟩ : ∃ sign, withSign negative' z = sign ++ z ∧
      signLength (withSign negative' z ++ c :: tail) = sign.length := by
    cases negative' with
    | true => exact ⟨['-'], rfl, rfl⟩
    | false =>
      obtain ⟨digit, rest, rfl, hd⟩ := k.starts
      exact ⟨[], rfl, signLength_numeral hd _⟩
  have behind := number_eq h negative (.inr (.inr ⟨rfl, rfl, marked⟩))
    (withSign negative' z ++ c :: tail)
  have before : (withSign negative y).length + 1 + sign.length
      = (withSign negative y ++ 'j' :: sign).length := by
    rw [List.length_append, List.length_cons]
    omega
  have split : withSign negative y ++ 'j' :: (sign ++ z ++ c :: tail)
      = (withSign negative y ++ 'j' :: sign) ++ (z ++ c :: tail) := by simp
  have word : withSign negative y ++ 'j' :: (sign ++ z)
      = (withSign negative y ++ 'j' :: sign) ++ z := by simp
  have mark : ((withSign negative y ++ 'j' :: sign) ++ z).contains 'j' = true := by simp
  refine behind.trans ?_
  show complexFrom v _ (_ + 1 + signLength _) = _
  rw [length, before, second, split, complexFrom, List.drop_left, k.length false c tail (.inl hc)]
  dsimp only
  rw [word, ← List.length_append, numberToken, ← List.append_assoc, List.take_left,
    mark, marked]
  rfl

end Lexeme

theorem spelled_complex {y z : List Char} (h : Quotient v y) (k : Quotient v z)
    (starts : ∃ c rest, y = c :: rest ∧ Text.isAsciiDigit c = true)
    (marked : v.digits.contains 'j' = false) (negative negative' : Bool) :
    Spelled v .complex (withSign negative y ++ 'j' :: withSign negative' z) := by
  have joined : withSign negative y ++ 'j' :: withSign negative' z
      = withSign negative (y ++ 'j' :: withSign negative' z) := by cases negative <;> rfl
  have notMem {c : Char} (mark : c ≠ 'j' ∧ c ≠ '-') (first : c ∉ y) (second : c ∉ z) :
      c ∉ withSign negative y ++ 'j' :: withSign negative' z := by
    unfold withSign
    split <;> split <;> simp [mark, first, second]
  have whole {c : Char} (hc : c ∈ separators) (tail : List Char) :
      Lexeme.number v (withSign negative (y ++ 'j' :: withSign negative' z) ++ c :: tail)
        = .token .complex (withSign negative (y ++ 'j' :: withSign negative' z)).length := by
    rw [← joined, List.append_assoc]
    exact Lexeme.number_complex h k marked negative negative' hc tail
  refine ⟨?_, notMem (by decide) h.marks.1 k.marks.1,
    notMem (by decide) h.marks.2.1 k.marks.2.1, rfl⟩
  rw [joined]
  obtain ⟨c, rest, rfl, hc⟩ := starts
  exact Lexeme.cut_number ⟨c, _, rfl, Lexeme.isNumeral_of_ascii hc⟩
    (Lexeme.takenForNumber_digit hc _) negative whole

/-- A word for a double: a number that has it as its nearest one. -/
structure Numeral.WordFor (v : Vocabulary) (x : Float) (word : List Char) : Prop where
  spelled : Spelled v .number word
  read : ∃ s, Numeral.read (String.ofList word) v.inputBase = .ok s ∧
    Value.toFloat (.scalar s) = .ok x

section Decimals

open Numeral.Parts (unsigned_sizeText)

/-- A decimal is neither a quotient nor complex. -/
theorem Numeral.Parts.Plain.marks (h : d.Plain) : '/' ∉ d.text ∧ 'j' ∉ d.text :=
  ⟨h.written.notMem (by decide) (by decide), h.written.notMem (by decide) (by decide)⟩

theorem Numeral.rational_text (h : d.Plain) (decimal : base = 0 ∨ base = 10) :
    rational d.text base = .ok (ofExact (if d.negative then -d.size else d.size)) := by
  rw [rational, splitAt?_of_notMem h.marks.1]
  exact Parts.real_text h decimal

variable (decimal : v.inputBase = 0 ∨ v.inputBase = 10)

include decimal

theorem Numeral.Spells.word (h : Numeral.Spells d x) : Numeral.WordFor v x d.text := by
  have kind : Lexeme.quotientKind d.text = .number := if_neg (by simpa using h.plain.marks.1)
  refine ⟨?_, _, ?_, h.value⟩
  · rw [← kind]
    obtain ⟨c, rest, eq, digit⟩ := Parts.sizeText_starts h.plain
    have taken : Lexeme.TakenForNumber v d.sizeText := eq ▸ Lexeme.takenForNumber_digit digit rest
    exact Lexeme.spelled_quotient (unsigned_sizeText h.plain decimal).quotient taken d.negative
  · rw [Numeral.read_rational fun hj => absurd hj h.plain.marks.2]
    exact Numeral.rational_text h.plain decimal

/-- A number that is too large for a double. -/
theorem Lexeme.unsigned_huge : Unsigned v "1e999".toList := by
  -- This exponent has no sign, so the text is not one of the layouts of a double.
  refine ⟨⟨'1', _, rfl, isNumeral_of_ascii rfl⟩, fun slash imaginary c tail hc => ?_, by decide⟩
  obtain ⟨ends, no_digit, no_letter⟩ := hc.closing
  have digits := Numeral.Parts.digits_decimal decimal
  have digit : Text.isAsciiDigit c = false := Numeral.Parts.behind_ascii decimal no_digit
  have bare := numberDigits_ascii (v := v) (x := ['1']) (d := 'e')
    (List.forall_mem_singleton.2 rfl) (List.cons_ne_nil _ _) (by decide) ("999".toList ++ c :: tail)
  have whole : wholeLength v ("1e999".toList ++ c :: tail) = 1 := by
    show wholeLength v (['1'] ++ 'e' :: ("999".toList ++ c :: tail)) = 1
    unfold wholeLength
    rw [bare, digits]
    rfl
  have power : runLength Text.isAsciiDigit ("999".toList ++ c :: tail) = 3 :=
    runLength_behind (List.all_eq_true.1 (by decide)) digit tail
  have no_sign : ("999".toList ++ c :: tail).head?.any ['+', '-'].contains = false := rfl
  have exponent : exponentLength ('e' :: ("999".toList ++ c :: tail)) = .ok 4 := by
    unfold exponentLength
    dsimp only
    rw [if_pos (.inl rfl), no_sign, if_neg (show ¬false = true by decide),
      List.drop_zero, power]
    rfl
  rw [realLength_eq, whole]
  show lengthFrom slash imaginary ('1' :: 'e' :: ("999".toList ++ c :: tail)) 1 = _
  unfold lengthFrom
  rw [List.drop_one, List.tail_cons, exponent]
  show (if endsNumber slash imaginary (c :: tail) = true then _ else _ : Except Nat Nat) = _
  rw [ends, if_pos rfl]
  rfl

/-- Infinite doubles are written as numbers that are too large. -/
theorem Numeral.word_huge (negative : Bool) :
    Numeral.WordFor v (if negative then -Double.infinity else Double.infinity)
      (withSign negative "1e999".toList) := by
  have spelled := Lexeme.spelled_quotient (Lexeme.unsigned_huge decimal).quotient
    (Lexeme.takenForNumber_digit rfl _) negative
  cases negative with
  | false =>
    have read : Numeral.read "1e999" v.inputBase = .ok (.float Double.infinity) := by
      rcases decimal with base | base <;> rw [base] <;> decide +kernel
    exact ⟨spelled, _, read, rfl⟩
  | true =>
    have read : Numeral.read "-1e999" v.inputBase = .ok (.float (-Double.infinity)) := by
      rcases decimal with base | base <;> rw [base] <;> decide +kernel
    exact ⟨spelled, _, read, rfl⟩

/-- **The text of a double calls `float` with a word for it.** -/
theorem Scalar.floatText {x : Float}
    (h : Double.magnitude x = .infinite ∨ Double.Readable x) :
    ∃ word, (Scalar.float x).literalText = "(float " ++ String.ofList word ++ ")" ∧
      Numeral.WordFor v x word := by
  rcases h with infinite | readable
  · have text := Scalar.literalText.eq_3 x
    rw [infinite] at text
    have huge := Numeral.word_huge decimal (Double.isNegative x)
    rw [← Double.eq_infinity infinite] at huge
    refine ⟨_, text.trans ?_, huge⟩
    rw [Double.eq_infinity infinite]
    cases Double.isNegative x <;> decide +kernel
  · obtain ⟨d, spells, text⟩ := Decimal.shortestText_spells readable
    obtain ⟨mantissa, exponent, hx⟩ := readable.finite
    refine ⟨_, ?_, spells.word decimal⟩
    rw [Scalar.literalText, hx, text]

/-- **The text of a complex number is a word that is read as the number.** -/
theorem Scalar.complexText {z : Complex} (hx : Double.Readable z.re) (hy : Double.Readable z.im) :
    Spelled v .complex (Scalar.complex z).literalText.toList ∧
      Numeral.read (Scalar.complex z).literalText v.inputBase = .ok (.complex z) := by
  obtain ⟨d, re, first⟩ := Decimal.shortestText_spells hx
  obtain ⟨e, im, second⟩ := Decimal.shortestText_spells hy
  have text : (Scalar.complex z).literalText = String.ofList (d.text ++ 'j' :: e.text) := by
    rw [Scalar.literalText, first, second, ← String.toList_inj]
    simp
  have marked : v.digits.contains 'j' = false := by
    rw [Numeral.Parts.digits_decimal decimal]
    rfl
  have nearest {s : Scalar} {x : Float} (h : Value.toFloat (.scalar s) = .ok x) :
      Numeral.toFloat s = x := by rw [Numeral.toFloat, h]
  rw [text, String.toList_ofList]
  refine ⟨?_, ?_⟩
  · exact spelled_complex (unsigned_sizeText re.plain decimal).quotient
      (unsigned_sizeText im.plain decimal).quotient (Parts.sizeText_starts re.plain) marked
      d.negative e.negative
  · unfold Numeral.read
    rw [String.toList_ofList]
    dsimp only
    rw [show (Radix.alphabet v.inputBase).contains 'j' = false from marked,
      if_neg (by decide), Numeral.splitAt?_append re.plain.marks.2]
    dsimp only
    rw [Numeral.rational_text re.plain decimal, Numeral.rational_text im.plain decimal]
    show (Except.ok (Scalar.complex ⟨Numeral.toFloat _, Numeral.toFloat _⟩) : Numeral.Reading Scalar)
      = _
    rw [nearest re.value, nearest im.value]

end Decimals

end Words

end ArrayCalc
