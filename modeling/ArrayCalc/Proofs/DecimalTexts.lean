import ArrayCalc.Proofs.RealLiterals
import ArrayCalc.Proofs.ShortestDecimals

/-!
# Texts of decimals

A decimal is written as digits, a point with digits behind it and an exponent, of which all but the
first may be missing.  What is written so is one token, and it is taken apart again into the same
parts.  Each layout of a double is of this form.
-/

namespace ArrayCalc

/-! ## § Values of digits -/

theorem Radix.valueOf_zeros (base count : Nat) : valueOf base (List.replicate count '0') = 0 := by
  induction count with
  | zero => rfl
  | succ count ih =>
    rw [List.replicate_succ', valueOf_append, ih, Nat.zero_mul]
    rfl

namespace Numeral

open Lexeme (withSign)

/-- Digits of a decimal. -/
def Ascii (digits : List Char) : Prop :=
  (∀ c ∈ digits, Text.isAsciiDigit c = true) ∧ digits.length ≤ digitLimit

namespace Parts

/-- The text of an exponent. -/
def exponentText (d : Parts) : List Char :=
  match d.exponent with
  | none => []
  | some (negative, digits) => 'e' :: (if negative then '-' else '+') :: digits

/-- The point and the digits behind it. -/
def pointText (d : Parts) : List Char := if d.decimals.isEmpty then [] else '.' :: d.decimals

/-- What stands behind the whole part. -/
def fractionText (d : Parts) : List Char := d.pointText ++ d.exponentText

/-- The text of a decimal without its sign. -/
def sizeText (d : Parts) : List Char := d.whole ++ d.fractionText

def text (d : Parts) : List Char := withSign d.negative d.sizeText

/-- A decimal with digits before the point, which is told from an integer by what follows. -/
structure Plain (d : Parts) : Prop where
  whole : Ascii d.whole
  some : d.whole ≠ []
  decimals : Ascii d.decimals
  exponent : ∀ negative digits, d.exponent = Option.some (negative, digits) →
    Ascii digits ∧ digits ≠ []
  inexact : d.decimals ≠ [] ∨ d.exponent ≠ none

variable {d : Parts}

/-! ## § Reading -/

/-- The text of a decimal is a real literal with its parts. -/
theorem Plain.written (h : d.Plain) : d.Written d.text := by
  have point : PointText d.decimals d.pointText := by
    unfold pointText
    split
    next none =>
      rw [List.isEmpty_iff.1 none]
      exact .none
    next => exact .point h.decimals.1
  have power : PowerText d.exponent d.exponentText := by
    unfold exponentText
    cases he : d.exponent with
    | none => exact .none
    | some e =>
      obtain ⟨negative, digits⟩ := e
      obtain ⟨ascii, some⟩ := h.exponent negative digits he
      cases negative with
      | false => exact .power (.inl rfl) .plus ascii.1 some
      | true => exact .power (.inl rfl) .minus ascii.1 some
  obtain ⟨sign, hs, eq⟩ := sign_withSign d.negative d.sizeText
  rw [text, eq]
  exact .mk hs h.whole.1 point power (.inl h.some)

theorem Plain.short (h : d.Plain) : d.Short where
  whole := h.whole.2
  decimals := h.decimals.2
  exponent := by
    rintro ⟨negative, digits⟩ he
    exact (h.exponent negative digits he).1.2

/-- **A decimal is read as its value.** -/
theorem real_text (h : d.Plain) {base : Int} (decimal : base = 0 ∨ base = 10) :
    real d.text base = .ok (ofExact (if d.negative then -d.size else d.size)) := by
  have other : integer? d.text base = .ok none := by
    refine (h.written.whole_or decimal).resolve_left ?_
    rintro ⟨-, -, decimals, exponent⟩
    exact h.inexact.elim (fun some => some decimals) fun some => some exponent
  rw [h.written.real_decimal decimal other, value_short h.short]
  rfl

/-! ## § Characters -/

theorem exponentText_head (d : Parts) (c : Char) (more : List Char)
    (h : d.exponentText = c :: more) : c = 'e' := by
  unfold exponentText at h
  split at h
  · exact nomatch h
  · exact (List.cons.inj h).1.symm

theorem fractionText_head (d : Parts) (c : Char) (more : List Char)
    (h : d.fractionText = c :: more) : c = '.' ∨ c = 'e' := by
  unfold fractionText pointText at h
  split at h
  · exact .inr (exponentText_head d c more h)
  · exact .inl (List.cons.inj h).1.symm

theorem sizeText_starts (h : d.Plain) :
    ∃ c rest, d.sizeText = c :: rest ∧ Text.isAsciiDigit c = true := by
  obtain ⟨c, rest, eq⟩ := List.exists_cons_of_ne_nil h.some
  exact ⟨c, rest ++ d.fractionText, by rw [sizeText, eq, List.cons_append],
    h.whole.1 c (by simp [eq])⟩

theorem fractionText_ne_nil (h : d.Plain) : d.fractionText ≠ [] := by
  unfold fractionText pointText
  rcases h.inexact with some | some
  · rw [if_neg (by simpa using some)]
    exact List.cons_ne_nil _ _
  · obtain ⟨e, he⟩ := Option.ne_none_iff_exists'.1 some
    refine List.append_ne_nil_of_right_ne_nil _ ?_
    rw [exponentText, he]
    exact List.cons_ne_nil _ _

/-! ## § Scanning -/

section Scanning

open Lexeme (Unsigned Behind realLength_eq lengthFrom mantissa wholeLength runLength_behind)

variable {v : Vocabulary}

theorem digits_decimal (decimal : v.inputBase = 0 ∨ v.inputBase = 10) :
    v.digits = Radix.decimalDigits := by
  unfold Vocabulary.digits
  rcases decimal with base | base <;> rw [base] <;> rfl

theorem digit_of_ascii (decimal : v.inputBase = 0 ∨ v.inputBase = 10) {digits : List Char}
    (h : Ascii digits) : ∀ c ∈ digits, v.digits.contains c = true := by
  intro c hc
  rw [digits_decimal decimal]
  exact List.contains_iff_mem.2 (Radix.mem_decimalDigits (h.1 c hc))

/-- What ends a decimal is no digit. -/
theorem behind_ascii (decimal : v.inputBase = 0 ∨ v.inputBase = 10) {c : Char}
    (no_digit : v.digits.contains c = false) : Text.isAsciiDigit c = false := by
  refine Bool.eq_false_iff.2 fun digit => ?_
  rw [digits_decimal decimal] at no_digit
  exact nomatch no_digit.symm.trans (List.contains_iff_mem.2 (Radix.mem_decimalDigits digit))

theorem exponentLength_text (h : d.Plain) {c : Char} (digit : Text.isAsciiDigit c = false)
    (letter : c ≠ 'e' ∧ c ≠ 'E') (tail : List Char) :
    Lexeme.exponentLength (d.exponentText ++ c :: tail) = .ok d.exponentText.length := by
  unfold exponentText
  split
  next => exact if_neg (not_or.2 letter)
  next negative digits he =>
    obtain ⟨ascii, some⟩ := h.exponent negative digits he
    have run := runLength_behind ascii.1 digit tail
    have count : digits.length ≠ 0 := fun e => some (List.length_eq_zero_iff.1 e)
    have sign : (((if negative then '-' else '+') :: (digits ++ c :: tail)).head?.any
        ['+', '-'].contains) = true := by cases negative <;> rfl
    unfold Lexeme.exponentLength
    dsimp only [List.cons_append]
    rw [if_pos (.inl rfl), sign, if_pos rfl, List.drop_one, List.tail_cons, run, if_neg count,
      List.length_cons, List.length_cons]
    exact congrArg Except.ok (by omega)

theorem fraction_head (h : d.Plain) (decimal : v.inputBase = 0 ∨ v.inputBase = 10) (c : Char)
    (tail : List Char) :
    ∃ b more, d.fractionText ++ c :: tail = b :: more ∧ v.digits.contains b = false ∧
      b ∉ ['x', 'X', 'o', 'O'] := by
  obtain ⟨b, more, eq⟩ := List.exists_cons_of_ne_nil (fractionText_ne_nil h)
  refine ⟨b, more ++ c :: tail, by rw [eq, List.cons_append], ?_⟩
  rw [digits_decimal decimal]
  rcases fractionText_head d b more eq with rfl | rfl <;> exact ⟨by decide, by decide⟩

theorem mantissa_text (h : d.Plain) (decimal : v.inputBase = 0 ∨ v.inputBase = 10) {c : Char}
    (no_digit : v.digits.contains c = false) (no_point : c ≠ '.') (whole : Nat) (tail : List Char) :
    mantissa v.digits whole (d.fractionText ++ c :: tail) = whole + d.pointText.length := by
  -- Behind the digits there is an exponent or the end.
  obtain ⟨b, more, next, stop, point⟩ : ∃ b more, d.exponentText ++ c :: tail = b :: more ∧
      v.digits.contains b = false ∧ b ≠ '.' := by
    cases eq : d.exponentText with
    | nil => exact ⟨c, tail, rfl, no_digit, no_point⟩
    | cons b more =>
      obtain rfl := exponentText_head d b more eq
      exact ⟨'e', more ++ c :: tail, rfl, by rw [digits_decimal decimal]; rfl, by decide⟩
  unfold fractionText pointText
  rw [List.append_assoc, next]
  split
  · unfold mantissa
    split
    next eq => exact absurd (List.cons.inj eq).1 point
    next => rfl
  · show whole + 1 + Lexeme.runLength v.digits.contains (d.decimals ++ b :: more) = _
    rw [runLength_behind (digit_of_ascii decimal h.decimals) stop, List.length_cons]
    omega

/-- **A decimal is one number.** -/
theorem unsigned_sizeText (h : d.Plain) (decimal : v.inputBase = 0 ∨ v.inputBase = 10) :
    Unsigned v d.sizeText := by
  refine ⟨?_, fun slash imaginary c tail hc => ?_, ?_⟩
  · obtain ⟨c, rest, eq, digit⟩ := sizeText_starts h
    exact ⟨c, rest, eq, Lexeme.isNumeral_of_ascii digit⟩
  · obtain ⟨ends, no_digit, no_letter⟩ := hc.closing
    simp only [List.mem_cons, List.not_mem_nil, or_false, not_or] at no_letter
    obtain ⟨point, e, E, prefixes⟩ := no_letter
    obtain ⟨b, more, next, stop, letter⟩ :=
      fraction_head h decimal c tail
    have text : d.sizeText ++ c :: tail = d.whole ++ (d.fractionText ++ c :: tail) :=
      List.append_assoc _ _ _
    have bare := Lexeme.numberDigits_ascii (v := v) h.whole.1 h.some letter more
    have whole : wholeLength v (d.whole ++ b :: more) = d.whole.length := by
      unfold wholeLength
      rw [bare, List.drop_zero, runLength_behind (digit_of_ascii decimal h.whole) stop, Nat.zero_add]
    rw [realLength_eq, text, next, whole, bare, List.drop_left, ← next,
      mantissa_text h decimal no_digit point]
    have rest : (d.whole ++ (d.fractionText ++ c :: tail)).drop
        (d.whole.length + d.pointText.length) = d.exponentText ++ c :: tail := by
      rw [← List.drop_drop, List.drop_left, fractionText, List.append_assoc, List.drop_left]
    have length : d.whole.length + d.pointText.length + d.exponentText.length = d.sizeText.length := by
      rw [sizeText, fractionText, List.length_append, List.length_append, Nat.add_assoc]
    unfold lengthFrom
    rw [rest, exponentLength_text h (behind_ascii decimal no_digit) ⟨e, E⟩]
    dsimp only
    rw [← List.drop_drop, rest, List.drop_left, ends, if_pos rfl, length]
  · have notMem {c : Char} (digit : Text.isAsciiDigit c = false)
        (mark : c ∉ ['.', 'e', 'E', '+', '-']) : c ∉ d.sizeText := by
      intro hc
      refine h.written.notMem digit mark ?_
      unfold text withSign
      split <;> simp [hc]
    exact ⟨notMem (by decide) (by decide), notMem (by decide) (by decide),
      notMem (by decide) (by decide), notMem (by decide) (by decide)⟩

end Scanning

end Parts

end Numeral

/-! ## § Layouts -/

namespace Decimal

open Lexeme (withSign)
open Numeral (Parts Ascii)

/-- The digits of a double, laid out. -/
def Scientific.layout (s : Scientific) : List Char :=
  if s.exponent < -4 ∨ 16 ≤ s.exponent then
    pointAfterFirst s.digits false ++ exponentText 'e' s.exponent
  else
    let places := (s.digits.length : Int) - 1 - s.exponent
    if places ≤ 0 then s.digits ++ List.replicate (-places).toNat '0' ++ ['.', '0']
    else pointBeforeLast places.toNat s.digits false

theorem shortestText_eq {x : Float} {mantissa : Nat} {exponent : Int}
    (h : Double.magnitude x = .finite mantissa exponent) (some : mantissa ≠ 0) :
    shortestText x
      = String.ofList (withSign (Double.isNegative x) (shortest mantissa exponent).layout) := by
  unfold shortestText
  rw [h]
  dsimp only
  rw [if_neg some]
  rfl

variable {s : Scientific} {mantissa : Nat} {exponent : Int}

/-- A decimal that stands for the digits and is written as they are laid out. -/
structure LaidOut (s : Scientific) (d : Parts) : Prop where
  plain : d.Plain
  text : s.layout = d.sizeText
  size : d.size = s.value

theorem ascii_of_length {digits : List Char} (ascii : ∀ c ∈ digits, Text.isAsciiDigit c = true)
    (short : digits.length ≤ 100) : Ascii digits :=
  ⟨ascii, short.trans (by decide)⟩

theorem Scientific.Spells.ascii (h : s.Spells mantissa exponent) :
    ∀ c ∈ s.digits, Text.isAsciiDigit c = true := by
  obtain ⟨n, eq⟩ := h.digits
  rw [eq]
  exact Radix.isAsciiDigit_digitsOf n

theorem Scientific.Spells.some (h : s.Spells mantissa exponent) : s.digits ≠ [] := by
  obtain ⟨n, eq⟩ := h.digits
  rw [eq]
  exact Radix.digitsOf_ne_nil 10 n

/-- The digits of an exponent, at least two. -/
def exponentDigits (exponent : Int) : List Char :=
  let digits := Radix.digitsOf 10 exponent.natAbs
  if digits.length < 2 then '0' :: digits else digits

theorem exponentDigits_ascii (exponent : Int) :
    (∀ c ∈ exponentDigits exponent, Text.isAsciiDigit c = true) ∧ exponentDigits exponent ≠ [] := by
  have ascii := Radix.isAsciiDigit_digitsOf exponent.natAbs
  unfold exponentDigits
  dsimp only
  split
  · exact ⟨List.forall_mem_cons.2 ⟨by decide, ascii⟩, List.cons_ne_nil _ _⟩
  · exact ⟨ascii, Radix.digitsOf_ne_nil _ _⟩

theorem length_exponentDigits {exponent : Int} (within : exponent.natAbs < 1076) :
    (exponentDigits exponent).length ≤ 5 := by
  have short : (Radix.digitsOf 10 exponent.natAbs).length ≤ 4 :=
    Radix.length_digitsOf_le (by decide) (by decide) (by omega)
  unfold exponentDigits
  dsimp only
  split
  · rw [List.length_cons]
    omega
  · omega

theorem valueOf_exponentDigits (exponent : Int) :
    Radix.valueOf 10 (exponentDigits exponent) = exponent.natAbs := by
  have value := @Radix.valueOf_digitsOf 10 (by decide) (by decide) exponent.natAbs
  unfold exponentDigits
  dsimp only
  split
  · exact value
  · exact value

/-- With an exponent the point stands behind the first digit. -/
theorem laidOut_scientific (h : s.Spells mantissa exponent) (negative : Bool)
    (far : s.exponent < -4 ∨ 16 ≤ s.exponent) :
    ∃ d : Parts, d.negative = negative ∧ LaidOut s d := by
  obtain ⟨c, rest, eq⟩ := List.exists_cons_of_ne_nil h.some
  have ascii := h.ascii
  have few := h.few
  obtain ⟨exponent_ascii, exponent_some⟩ := exponentDigits_ascii s.exponent
  have exponent_short := length_exponentDigits h.within
  rw [eq] at ascii few
  rw [List.length_cons] at few
  obtain ⟨first, others⟩ := List.forall_mem_cons.1 ascii
  refine ⟨⟨negative, [c], rest, Option.some (decide (s.exponent < 0), exponentDigits s.exponent)⟩,
    rfl, ⟨?_, List.cons_ne_nil _ _, ?_, ?_, .inr nofun⟩, ?_, ?_⟩
  · exact ascii_of_length (List.forall_mem_singleton.2 first) (by simp)
  · exact ascii_of_length others (by dsimp only; omega)
  · rintro _ _ ⟨⟩
    exact ⟨ascii_of_length exponent_ascii (by omega), exponent_some⟩
  · unfold Scientific.layout
    rw [if_pos far, eq]
    cases rest <;> simp [pointAfterFirst, exponentText, Parts.sizeText, Parts.fractionText,
      Parts.pointText, Parts.exponentText, exponentDigits]
  · have power : Numeral.applySign (decide (s.exponent < 0)) s.exponent.natAbs = s.exponent := by
      unfold Numeral.applySign
      split
      next negative => have := of_decide_eq_true negative; omega
      next positive => have := of_decide_eq_false (Bool.eq_false_iff.2 positive); omega
    unfold Parts.size Parts.power Scientific.value
    dsimp only
    rw [valueOf_exponentDigits, power, eq, List.singleton_append, List.length_cons]
    congr 2
    push_cast
    ring

/-- A double without a fraction has zeros up to the point and one behind it. -/
theorem laidOut_whole (h : s.Spells mantissa exponent) (negative : Bool)
    (near : ¬(s.exponent < -4 ∨ 16 ≤ s.exponent))
    (whole : (s.digits.length : Int) - 1 - s.exponent ≤ 0) :
    ∃ d : Parts, d.negative = negative ∧ LaidOut s d := by
  have few := h.few
  obtain ⟨zeros, count⟩ : ∃ zeros : Nat, -((s.digits.length : Int) - 1 - s.exponent) = zeros :=
    ⟨(-((s.digits.length : Int) - 1 - s.exponent)).toNat, by omega⟩
  have zero : Ascii ['0'] := ascii_of_length (List.forall_mem_singleton.2 rfl) (by decide)
  refine ⟨⟨negative, s.digits ++ List.replicate zeros '0', ['0'], none⟩,
    rfl, ⟨?_, ?_, ?_, nofun, .inl (List.cons_ne_nil _ _)⟩, ?_, ?_⟩
  · refine ascii_of_length (fun c hc => ?_) ?_
    · rcases List.mem_append.1 hc with hc | hc
      · exact h.ascii c hc
      · rw [List.eq_of_mem_replicate hc]
        rfl
    · rw [List.length_append, List.length_replicate]
      omega
  · exact List.append_ne_nil_of_left_ne_nil h.some _
  · exact zero
  · unfold Scientific.layout
    rw [if_neg near]
    dsimp only
    rw [if_pos whole, count, Int.toNat_natCast]
    rfl
  · have place : s.exponent + 1 - s.digits.length = zeros := by omega
    have last : Radix.valueOf 10 ['0'] = 0 := rfl
    unfold Parts.size Parts.power Scientific.value
    dsimp only
    rw [place, Radix.valueOf_join, Radix.valueOf_join, Radix.valueOf_zeros, last,
      List.length_replicate, List.length_singleton, zpow_natCast]
    push_cast
    rw [zpow_neg_one]
    ring

/-- A double with a fraction near one has its last digits behind the point. -/
theorem laidOut_positional (h : s.Spells mantissa exponent) (negative : Bool)
    (near : ¬(s.exponent < -4 ∨ 16 ≤ s.exponent))
    (fraction : 0 < (s.digits.length : Int) - 1 - s.exponent) :
    ∃ d : Parts, d.negative = negative ∧ LaidOut s d := by
  have few := h.few
  obtain ⟨places, count⟩ : ∃ places : Nat, (s.digits.length : Int) - 1 - s.exponent = places :=
    ⟨((s.digits.length : Int) - 1 - s.exponent).toNat, by omega⟩
  obtain ⟨padded, eq⟩ : ∃ padded,
      padded = List.replicate (places + 1 - s.digits.length) '0' ++ s.digits := ⟨_, rfl⟩
  have length : padded.length = places + 1 - s.digits.length + s.digits.length := by
    rw [eq, List.length_append, List.length_replicate]
  have ascii : ∀ c ∈ padded, Text.isAsciiDigit c = true := by
    intro c hc
    rw [eq] at hc
    rcases List.mem_append.1 hc with hc | hc
    · rw [List.eq_of_mem_replicate hc]
      rfl
    · exact h.ascii c hc
  have value : Radix.valueOf 10 padded = Radix.valueOf 10 s.digits := by
    rw [eq, Radix.valueOf_join, Radix.valueOf_zeros, Nat.zero_mul, Nat.zero_add]
  have before : (padded.take (padded.length - places)).length = padded.length - places := by
    rw [List.length_take]
    omega
  have behind : (padded.drop (padded.length - places)).length = places := by
    rw [List.length_drop]
    omega
  refine ⟨⟨negative, padded.take (padded.length - places), padded.drop (padded.length - places), none⟩,
    rfl, ⟨?_, ?_, ?_, nofun, .inl ?_⟩, ?_, ?_⟩
  · exact ascii_of_length (fun c hc => ascii c (List.mem_of_mem_take hc)) (by dsimp only; omega)
  · refine List.ne_nil_of_length_pos ?_
    dsimp only
    omega
  · exact ascii_of_length (fun c hc => ascii c (List.mem_of_mem_drop hc)) (by dsimp only; omega)
  · refine List.ne_nil_of_length_pos ?_
    dsimp only
    omega
  · have some : (padded.drop (padded.length - places)).isEmpty = false := by
      rw [List.isEmpty_eq_false_iff]
      exact List.ne_nil_of_length_pos (by omega)
    unfold Scientific.layout
    rw [if_neg near]
    dsimp only
    rw [if_neg (not_le.2 fraction), count, Int.toNat_natCast, pointBeforeLast, ← eq,
      if_neg (by omega)]
    unfold Parts.sizeText Parts.fractionText Parts.pointText Parts.exponentText
    dsimp only
    rw [some, List.append_nil]
    rfl
  · have place : s.exponent + 1 - s.digits.length = 0 - (places : Int) := by omega
    unfold Parts.size Parts.power Scientific.value
    dsimp only
    rw [List.take_append_drop, value, behind, place]

/-- **The digits of a double are written as a decimal that stands for them.** -/
theorem laidOut (h : s.Spells mantissa exponent) (negative : Bool) :
    ∃ d : Parts, d.negative = negative ∧ LaidOut s d := by
  by_cases far : s.exponent < -4 ∨ 16 ≤ s.exponent
  · exact laidOut_scientific h negative far
  · rcases le_or_gt ((s.digits.length : Int) - 1 - s.exponent) 0 with whole | fraction
    · exact laidOut_whole h negative far whole
    · exact laidOut_positional h negative far fraction

end Decimal

end ArrayCalc
