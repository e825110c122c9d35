import ArrayCalc.Proofs.DigitRuns
import ArrayCalc.Value.Format
import Mathlib.Data.List.Forall2

/-!
# Numerals in every base

Reading and writing numbers are inverse to each other.  Any digits of a base, in either letter case
and with or without a sign, are read as the integer they stand for, and as no integer where that is
too large for 64 bits.  What is written for an integer or a fraction is read as the same number.
-/

namespace ArrayCalc

/-! ## § What is written -/

namespace Radix

variable {base : Nat}

/-- The text of an integer: a minus sign if it is negative, and digits in lower case, the first of
which is zero only if the number is. -/
structure Written (base : Nat) (n : Int) (digits : List Nat) (text : List Char) : Prop where
  text : ∃ word, text = (if n < 0 then ['-'] else []) ++ word ∧
    List.Forall₂ (fun digit c => (decimalDigits ++ lowerLetters)[digit]? = some c) digits word
  below : ∀ digit ∈ digits, digit < base
  nonempty : digits ≠ []
  leading : digits.head? = some 0 → n = 0 ∧ digits = [0]

theorem written_intText (least : 2 ≤ base) (most : base ≤ 36) (n : Int) :
    Written base n (places base n.natAbs).reverse (intText base n) := by
  have below : ∀ digit ∈ (places base n.natAbs).reverse, digit < base := fun digit hd =>
    places_lt least n.natAbs digit (List.mem_reverse.1 hd)
  refine ⟨⟨digitsOf base n.natAbs, ?_, ?_⟩, below, ?_, ?_⟩
  · unfold intText
    split <;> rfl
  · rw [digitsOf, List.forall₂_map_right_iff, List.forall₂_same]
    intro digit hd
    exact getElem?_digitChar ((below digit hd).trans_le most)
  · simp [places_ne_nil]
  · intro first
    rw [List.head?_reverse] at first
    have zero := places_getLast? least first
    refine ⟨Int.natAbs_eq_zero.1 zero, ?_⟩
    rw [zero, places, if_pos (.inl (by omega))]
    rfl

end Radix

/-! ## § Formats -/

section Formats

variable {settings : Settings} {base : Nat} (same : settings.outputBase = base)

include same

theorem Settings.intText_eq (n : Int) :
    settings.intText n = String.ofList (Radix.intText base n) := by
  rw [intText, same, Int.toNat_natCast]

theorem Scalar.format_int (n : Int64) :
    (int n).format settings = .ok (String.ofList (Radix.intText base n.toInt)) :=
  congrArg Except.ok (Settings.intText_eq same n.toInt)

theorem Scalar.format_rational (q : Fraction) :
    (rational q).format settings
      = .ok (String.ofList (Radix.intText base q.num ++ '/' :: Radix.intText base q.den)) := by
  show Except.ok (settings.intText q.num ++ "/" ++ settings.intText q.den) = _
  rw [Settings.intText_eq same, Settings.intText_eq same]
  congr 1
  rw [← String.toList_inj]
  simp

end Formats

/-! ## § Reading and writing -/

namespace Numeral

/-- Reading and writing in a base undo each other. -/
structure Inverse (base : Nat) : Prop where
  literal : ∀ negative sign digits word, Sign negative sign →
    List.Forall₂ Radix.Spells digits word → (∀ digit ∈ digits, digit < base) →
    word ≠ [] → word.length ≤ 4300 →
    let n := applySign negative (Nat.ofDigits base digits.reverse : Nat)
    (Fits64 n → ∃ m : Int64, m.toInt = n ∧ read (String.ofList (sign ++ word)) base = .ok (.int m)) ∧
      (¬Fits64 n → ∀ m, read (String.ofList (sign ++ word)) base ≠ .ok (.int m))
  integer : ∀ settings : Settings, settings.outputBase = base → ∀ n : Int64,
    ∃ text digits, (Scalar.int n).format settings = .ok text ∧
      Radix.Written base n.toInt digits text.toList ∧ read text base = .ok (.int n)
  fraction : ∀ settings : Settings, settings.outputBase = base → ∀ q : Fraction,
    (Scalar.rational q).Canonical → ∃ text, (Scalar.rational q).format settings = .ok text ∧
      read text base = .ok (.rational q)

/-- **Reading and writing undo each other in every base.** -/
theorem inverse {base : Nat} (least : 2 ≤ base) (most : base ≤ 36) : Inverse base where
  literal negative sign digits word hs spells below nonempty length := by
    have run := Radix.Run.of_spells spells below nonempty
    have stands := stands_run (.inl rfl) least most hs run length
    have value : word.map Radix.digitValue = digits := by
      clear below nonempty length run stands
      induction spells with
      | nil => rfl
      | cons spells _ ih => rw [List.map_cons, spells.digitValue, ih]
    rw [Radix.valueOf_eq_ofDigits, value] at stands
    constructor
    · intro fits
      exact ⟨_, toInt_ofInt_of_fits fits, stands.read_int fits⟩
    · intro wide
      exact stands.read_wide wide
  integer settings same n := by
    have stands := stands_intText (.inl rfl) least most (fits64_toInt n)
    refine ⟨_, (Radix.places base n.toInt.natAbs).reverse, Scalar.format_int same n,
      ?_, ?_⟩
    · rw [String.toList_ofList]
      exact Radix.written_intText least most n.toInt
    · rw [stands.read_int (fits64_toInt n), Scalar.ofInt, Int64.ofInt_toInt]
  fraction settings same q canonical := by
    have numerator := stands_intText (.inl rfl) least most q.num_fits
    have denominator := stands_intText (.inl rfl) least most q.den_fits
    exact ⟨_, Scalar.format_rational same q, numerator.read_fraction canonical denominator⟩

/-- In base twenty `j` is a digit, and separates no imaginary part. -/
theorem inverse_twenty : Inverse 20 := inverse (by decide) (by decide)

end Numeral

end ArrayCalc
