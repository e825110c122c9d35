import ArrayCalc.Proofs.DigitRuns
import ArrayCalc.Proofs.WrittenTokens

/-!
# Words of exact numbers

An exact number is written with decimal digits.  It is a token by itself in any base, and stands for
the same number if the base has the same digits.
-/

namespace ArrayCalc

/-! ## § Numbers without a sign -/

namespace Lexeme

variable {v : Vocabulary} {slash imaginary : Bool} {kind : TokenKind} {x y tail : List Char}
  {c d p : Char}

/-- Digits of a base are decimal ones or letters. -/
theorem isWordChar_of_digit (h : v.digits.contains c = true) : Text.isWordChar c = true := by
  have words : (Radix.decimalDigits ++ Radix.lowerLetters ++ Radix.upperLetters).all
      Text.isWordChar = true := by decide +kernel
  exact List.all_eq_true.1 words c (Radix.alphabet_subset _ (List.contains_iff_mem.1 h))

theorem isWordChar_of_isNumeral (h : v.isNumeral c = true) : Text.isWordChar c = true := by
  rcases Bool.or_eq_true_iff.1 h with ascii | digit
  · exact isWordChar_of_isAsciiDigit ascii
  · exact isWordChar_of_digit digit

/-- What may stand behind a number. -/
def Behind (v : Vocabulary) (slash imaginary : Bool) (d : Char) : Prop :=
  d ∈ separators ∨ (slash = true ∧ d = '/') ∨
    (imaginary = true ∧ d = 'j' ∧ v.digits.contains 'j' = false)

/-- A character that a number ends before. -/
structure Closing (v : Vocabulary) (slash imaginary : Bool) (d : Char) : Prop where
  ends : ∀ tail, endsNumber slash imaginary (d :: tail) = true
  no_digit : v.digits.contains d = false
  no_letter : d ∉ ['.', 'e', 'E', 'x', 'X', 'o', 'O']

theorem Behind.closing (h : Behind v slash imaginary d) : Closing v slash imaginary d := by
  have strange (hd : Text.isWordChar d = false) : v.digits.contains d = false :=
    Bool.eq_false_iff.2 fun hm => nomatch hd.symm.trans (isWordChar_of_digit hm)
  rcases h with h | ⟨rfl, rfl⟩ | ⟨rfl, rfl, no_digit⟩
  · simp only [separators, List.mem_cons, List.not_mem_nil, or_false] at h
    rcases h with rfl | rfl | rfl | rfl | rfl | rfl
    all_goals
      exact ⟨fun _ => Bool.or_eq_true_iff.2 (.inr rfl), strange (by decide), by decide⟩
  · exact ⟨fun _ => rfl, strange (by decide), by decide⟩
  · exact ⟨fun tail => by simp [endsNumber], no_digit, by decide⟩

/-- The text of a number without a sign. -/
structure Unsigned (v : Vocabulary) (x : List Char) : Prop where
  starts : ∃ c rest, x = c :: rest ∧ v.isNumeral c = true
  length : ∀ slash imaginary d tail, Behind v slash imaginary d →
    realLength v slash imaginary (x ++ d :: tail) = .ok x.length
  marks : '\n' ∉ x ∧ '\r' ∉ x ∧ '/' ∉ x ∧ 'j' ∉ x

theorem isNumeral_of_ascii (digit : Text.isAsciiDigit c = true) : v.isNumeral c = true :=
  Bool.or_eq_true_iff.2 (.inl digit)

theorem ne_of_isNumeral (numeral : v.isNumeral c = true) (other : Text.isWordChar d = false) :
    c ≠ d := by
  rintro rfl
  exact nomatch other.symm.trans (isWordChar_of_isNumeral numeral)

/-- Digits have no base prefix before them. -/
theorem numberDigits_ascii (ascii : ∀ c ∈ x, Text.isAsciiDigit c = true) (some : x ≠ [])
    (hd : d ∉ ['x', 'X', 'o', 'O']) (tail : List Char) :
    numberDigits v (x ++ d :: tail) = (0, v.digits) := by
  obtain ⟨c, rest, rfl⟩ := List.exists_cons_of_ne_nil some
  -- The second character is a digit too, or the one behind.
  have second : ∃ e more, rest ++ d :: tail = e :: more ∧ e ∉ ['x', 'X', 'o', 'O'] := by
    cases rest with
    | nil => exact ⟨d, tail, rfl, hd⟩
    | cons e more =>
      refine ⟨e, more ++ d :: tail, rfl, fun hm => ?_⟩
      have digit := ascii e (by simp)
      simp only [List.mem_cons, List.not_mem_nil, or_false] at hm
      rcases hm with rfl | rfl | rfl | rfl <;> exact absurd digit (by decide)
  obtain ⟨e, more, he, letter⟩ := second
  unfold numberDigits
  rw [List.cons_append, he]
  simp only [List.mem_cons, List.not_mem_nil, or_false, not_or] at letter
  obtain ⟨x, X, o, O⟩ := letter
  split
  · split
    next h => exact absurd (List.cons.inj (List.cons.inj h).2).1 x
    next h => exact absurd (List.cons.inj (List.cons.inj h).2).1 X
    next h => exact absurd (List.cons.inj (List.cons.inj h).2).1 o
    next h => exact absurd (List.cons.inj (List.cons.inj h).2).1 O
    next => rfl
  · rfl

/-- A run of digits is one number, if it does not look like a base prefix. -/
theorem unsigned_run (some : x ≠ []) (digits : ∀ c ∈ x, v.digits.contains c = true) (real : 'j' ∉ x)
    (bare : ∀ d tail, d ∉ ['x', 'X', 'o', 'O'] → numberDigits v (x ++ d :: tail) = (0, v.digits)) :
    Unsigned v x := by
  refine ⟨?_, fun slash imaginary d tail hd => ?_, ?_⟩
  · obtain ⟨c, rest, rfl⟩ := List.exists_cons_of_ne_nil some
    exact ⟨c, rest, rfl, Bool.or_eq_true_iff.2 (.inr (digits c List.mem_cons_self))⟩
  · obtain ⟨ends, no_digit, no_letter⟩ := hd.closing
    simp only [List.mem_cons, List.not_mem_nil, or_false, not_or] at no_letter
    obtain ⟨point, e, E, prefixes⟩ := no_letter
    have bare := bare d tail (by simp [prefixes])
    have whole : wholeLength v (x ++ d :: tail) = x.length := by
      unfold wholeLength
      rw [bare, List.drop_zero, runLength_behind digits no_digit, Nat.zero_add]
    have no_exponent : exponentLength (d :: tail) = .ok 0 := if_neg (not_or.2 ⟨e, E⟩)
    have no_more : mantissa v.digits x.length (d :: tail) = x.length := by
      unfold mantissa
      split
      next h => exact absurd (List.cons.inj h).1 point
      next => rfl
    rw [realLength_eq, whole, bare, List.drop_left, no_more]
    unfold lengthFrom
    rw [List.drop_left, no_exponent]
    dsimp only
    rw [Nat.add_zero, List.drop_left, ends, if_pos rfl]
  · have strange {mark : Char} (hm : Text.isWordChar mark = false) : mark ∉ x := by
      intro mem
      have word := isWordChar_of_digit (digits mark mem)
      rw [hm] at word
      exact Bool.false_ne_true word
    exact ⟨strange (by decide), strange (by decide), strange (by decide), real⟩

theorem unsigned_digits (ascii : ∀ c ∈ x, Text.isAsciiDigit c = true) (some : x ≠ [])
    (digits : ∀ c ∈ x, v.digits.contains c = true) : Unsigned v x := by
  refine unsigned_run some digits ?_ fun d tail hd => numberDigits_ascii ascii some hd tail
  intro hm
  exact absurd (ascii _ hm) (by decide)

/-! ## § Quotients -/

/-- The text of a number or a quotient of two without a sign. -/
structure Quotient (v : Vocabulary) (x : List Char) : Prop where
  starts : ∃ c rest, x = c :: rest ∧ v.isNumeral c = true
  length : ∀ imaginary d tail, Behind v false imaginary d →
    quotientLength v imaginary (x ++ d :: tail) = .ok x.length
  marks : '\n' ∉ x ∧ '\r' ∉ x ∧ 'j' ∉ x

theorem Behind.mono (h : Behind v false imaginary d) : Behind v true imaginary d :=
  h.imp_right fun h => h.imp_left fun h => nomatch h.1

theorem Behind.ne_slash (h : Behind v false imaginary d) : d ≠ '/' := by
  rcases h with h | ⟨h, -⟩ | ⟨-, rfl, -⟩
  · rintro rfl
    exact absurd h (by decide)
  · exact nomatch h
  · decide

theorem Unsigned.quotient (h : Unsigned v x) : Quotient v x := by
  refine ⟨h.starts, fun imaginary d tail hd => ?_, h.marks.1, h.marks.2.1, h.marks.2.2.2⟩
  unfold quotientLength
  rw [h.length true imaginary d tail hd.mono]
  dsimp only
  rw [List.drop_left]
  split
  next e => exact absurd (List.cons.inj e).1 hd.ne_slash
  next => rfl

theorem startsNumber_numeral (hc : v.isNumeral c = true) (rest : List Char) :
    startsNumber v (c :: rest) = true := by
  simp [startsNumber, hc]

theorem Unsigned.over (hx : Unsigned v x) (hy : Unsigned v y) : Quotient v (x ++ '/' :: y) := by
  have number (tail : List Char) : startsNumber v (y ++ tail) = true := by
    obtain ⟨c, rest, rfl, hc⟩ := hy.starts
    exact startsNumber_numeral hc _
  refine ⟨?_, fun imaginary d tail hd => ?_, ?_⟩
  · obtain ⟨c, rest, rfl, hc⟩ := hx.starts
    exact ⟨c, _, rfl, hc⟩
  · unfold quotientLength
    rw [List.append_assoc, List.cons_append,
      hx.length true imaginary '/' _ (.inr (.inl ⟨rfl, rfl⟩))]
    dsimp only
    rw [List.drop_left]
    show (if startsNumber v (y ++ d :: tail) then _ else _ : Except Nat Nat) = _
    rw [number, if_pos rfl, hy.length false imaginary d tail hd, List.length_append,
      List.length_cons]
    exact congrArg Except.ok (by omega)
  · have first := hx.marks
    have second := hy.marks
    simp only [List.mem_append, List.mem_cons, not_or] at first second ⊢
    grind

/-! ## § Signs -/

theorem signLength_numeral (hc : v.isNumeral c = true) (rest : List Char) :
    signLength (c :: rest) = 0 := by
  have plus := ne_of_isNumeral hc (d := '+') (by decide)
  have minus := ne_of_isNumeral hc (d := '-') (by decide)
  simp [signLength, plus, minus]

/-- A number is taken with its sign. -/
theorem number_eq (h : Quotient v x) (negative : Bool) (hd : Behind v false true d)
    (tail : List Char) :
    number v (withSign negative x ++ d :: tail)
      = numberBefore v (withSign negative x ++ d :: tail) (withSign negative x).length
          (d :: tail) := by
  obtain ⟨c, rest, rfl, hc⟩ := h.starts
  have length := h.length true d tail hd
  cases negative with
  | false =>
    have unsigned : signLength (c :: rest ++ d :: tail) ≠ 1 := by
      rw [List.cons_append, signLength_numeral hc]
      decide
    show number v (c :: rest ++ d :: tail) = _
    unfold number
    rw [if_neg unsigned]
    refine (signedNumber_ok (by rw [List.drop_zero]; exact length)).trans ?_
    rw [Nat.zero_add, List.drop_left]
    rfl
  | true =>
    have signed : quotientLength v true (('-' :: c :: rest ++ d :: tail).drop 1)
        = .ok (c :: rest).length := length
    have behind : ('-' :: c :: rest ++ d :: tail).drop (1 + (c :: rest).length) = d :: tail := by
      rw [Nat.add_comm, List.cons_append, List.drop_succ_cons, List.drop_left]
    have no_mark (mark : Char) (hm : Text.isWordChar mark = false) (others : List Char) :
        c :: (rest ++ d :: tail) ≠ mark :: others :=
      fun e => ne_of_isNumeral hc hm (List.cons.inj e).1
    show number v ('-' :: c :: rest ++ d :: tail) = _
    rw [number_signed rfl]
    unfold signBefore
    rw [List.cons_append, List.drop_one, List.tail_cons, List.cons_append]
    split
    next e => exact absurd e (no_mark '/' (by decide) _)
    next e => exact absurd e (no_mark '\\' (by decide) _)
    next =>
      rw [startsNumber_numeral hc, if_pos rfl]
      refine (signedNumber_ok signed).trans ?_
      rw [behind, Nat.add_comm]
      rfl

/-- The kind of a number that is no complex one. -/
def quotientKind (word : List Char) : TokenKind :=
  if word.contains '/' then .rational else .number

theorem isNumeral_quotientKind (word : List Char) : (quotientKind word).isNumeral = true := by
  unfold quotientKind
  split <;> rfl

/-- A text that the scanner takes for a number at its first character. -/
def TakenForNumber (v : Vocabulary) (x : List Char) : Prop :=
  ∀ c rest, x = c :: rest → ∀ p d tail, d ∈ separators →
    ofText v p c (rest ++ d :: tail) = number v (c :: (rest ++ d :: tail))

theorem takenForNumber_digit (hc : Text.isAsciiDigit c = true) (rest : List Char) :
    TakenForNumber v (c :: rest) := by
  rintro c rest ⟨⟩ p d tail -
  cases ofText_begins c with
  | numeral _ _ cut => exact cut v p _
  | feed hd | semicolon hd | comment hd | backquote hd | equals hd =>
    subst hd
    exact absurd hc (by decide)
  | quote hd | sign hd => rcases hd with rfl | rfl <;> exact absurd hc (by decide)
  | letter _ no_number => exact nomatch no_number.2.symm.trans hc
  | special other => exact nomatch other.symm.trans (isWordChar_of_isAsciiDigit hc)

/-- A number is cut as one, from its first digit or its sign on. -/
theorem cut_number (starts : ∃ c rest, x = c :: rest ∧ v.isNumeral c = true)
    (taken : TakenForNumber v x) (negative : Bool)
    (whole : ∀ {d : Char}, d ∈ separators → ∀ tail, number v (withSign negative x ++ d :: tail)
      = .token kind (withSign negative x).length) :
    ∃ c rest, withSign negative x = c :: rest ∧ (c ≠ ' ' ∧ c ≠ '\t') ∧
      ∀ p d tail, endsOperand p = false → d ∈ separators →
        ofText v (some p) c (rest ++ d :: tail) = .token kind (withSign negative x).length := by
  obtain ⟨c, rest, rfl, hc⟩ := starts
  cases negative with
  | false =>
    refine ⟨c, rest, rfl, ⟨ne_of_isNumeral hc (by decide), ne_of_isNumeral hc (by decide)⟩, ?_⟩
    intro p d tail _ hd
    rw [taken c rest rfl (some p) d tail hd]
    exact whole hd tail
  | true =>
    refine ⟨'-', c :: rest, rfl, by decide, fun p d tail hp hd => ?_⟩
    have no_point : startsWith '.' (c :: rest ++ d :: tail) = false :=
      beq_eq_false_iff_ne.2 fun e => ne_of_isNumeral hc (by decide) (Option.some.inj e)
    show signed v (some p) ('-' :: (c :: rest ++ d :: tail)) (c :: rest ++ d :: tail) = _
    rw [signed_number hp no_point]
    exact whole hd tail

theorem spelled_quotient (h : Quotient v x) (taken : TakenForNumber v x) (negative : Bool) :
    Spelled v (quotientKind (withSign negative x)) (withSign negative x) := by
  have marks : '\n' ∉ withSign negative x ∧ '\r' ∉ withSign negative x ∧
      'j' ∉ withSign negative x := by
    cases negative <;> simpa [withSign] using h.marks
  have kind : (quotientKind (withSign negative x)).isLineEnd = false := by
    unfold quotientKind
    split <;> rfl
  have whole {d : Char} (hd : d ∈ separators) (tail : List Char) :
      number v (withSign negative x ++ d :: tail)
        = .token (quotientKind (withSign negative x)) (withSign negative x).length := by
    have no_j : d ≠ 'j' := by
      rintro rfl
      exact absurd hd (by decide)
    rw [number_eq h negative (.inl hd)]
    unfold numberBefore
    split
    next e => exact absurd (List.cons.inj e).1 no_j
    next =>
      have real : (withSign negative x).contains 'j' = false := by simpa using marks.2.2
      unfold numberToken quotientKind
      rw [List.take_left]
      dsimp only
      rw [real, Bool.false_and, if_neg (by decide)]
      split <;> rfl
  exact ⟨cut_number h.starts taken negative whole, marks.1, marks.2.1, kind⟩

end Lexeme

/-! ## § Numbers in a base -/

namespace Radix

/-- A number has the same text in a base as in base ten: the digits of the base are the decimal ones,
or the number is a digit in both. -/
def Agrees (base : Int) (n : Nat) : Prop :=
  base = 0 ∨ base = 10 ∨ (2 ≤ base ∧ base ≤ 36 ∧ n < 10 ∧ (n : Int) < base)

variable {base : Int} {n : Nat}

/-- The digits of a number that a base agrees on: decimal ones, or one. -/
theorem Agrees.digits (h : Agrees base n) :
    (base = 0 ∨ base = 10) ∨ (2 ≤ base ∧ base ≤ 36) ∧ (n : Int) < base ∧
      digitsOf 10 n = [digitChar n] ∧ n < 10 := by
  rcases h with h | h | ⟨least, most, small, below⟩
  · exact .inl (.inl h)
  · exact .inl (.inr h)
  · exact .inr ⟨⟨least, most⟩, below, digitsOf_small small, small⟩

theorem Agrees.alphabet (h : Agrees base n) :
    ∀ c ∈ digitsOf 10 n, (alphabet base).contains c = true := by
  rcases h.digits with h | ⟨⟨least, most⟩, below, digits, small⟩
  · have same : Radix.alphabet base = decimalDigits := by rcases h with rfl | rfl <;> rfl
    intro c hc
    rw [same]
    exact List.contains_iff_mem.2 (mem_decimalDigits (isAsciiDigit_digitsOf n c hc))
  · have all : ∀ b ≤ 36, ∀ n : Nat, n < 10 → n < b →
        (Radix.alphabet (b : Int)).contains (digitChar n) = true := by decide
    rw [digits, List.forall_mem_singleton]
    obtain ⟨b, rfl⟩ := Int.eq_ofNat_of_zero_le (by omega : 0 ≤ base)
    exact all b (by omega) n small (by omega)

end Radix

namespace Numeral

open Radix (Agrees)

variable {base : Int}

/-- **Digits that a base agrees on are read as their number.** -/
theorem stands_of_agrees {n : Int} (agrees : Agrees base n.natAbs) (fits : Fits64 n) :
    Stands base (Radix.intText 10 n) n := by
  rcases agrees.digits with (rfl | rfl) | ⟨⟨least, most⟩, below, digits, -⟩
  · exact stands_intText (.inr ⟨rfl, rfl⟩) (by decide) (by decide) fits
  · exact stands_intText (.inl rfl) (by decide) (by decide) fits
  · obtain ⟨radix, rfl⟩ := Int.eq_ofNat_of_zero_le (by omega : 0 ≤ base)
    have small : n.natAbs < radix := by omega
    have same : Radix.intText 10 n = Radix.intText radix n := by
      rw [Radix.intText_eq, Radix.intText_eq, digits, Radix.digitsOf_small small]
    rw [same]
    exact stands_intText (.inl rfl) (by omega) (by omega) fits

/-- An integer is read back. -/
theorem read_int {n : Int} (agrees : Agrees base n.natAbs) (fits : Fits64 n) :
    read (Radix.decimalText n) base = .ok (.ofInt n) :=
  (stands_of_agrees agrees fits).read_int fits

/-- A fraction is read back. -/
theorem read_fraction {q : Fraction} (canonical : (Scalar.rational q).Canonical)
    (num : Agrees base q.num.natAbs) (den : Agrees base q.den.natAbs) :
    read (Radix.decimalText q.num ++ "/" ++ Radix.decimalText q.den) base
      = .ok (.rational q) := by
  have text : Radix.decimalText q.num ++ "/" ++ Radix.decimalText q.den
      = String.ofList (Radix.intText 10 q.num ++ '/' :: Radix.intText 10 q.den) := by
    rw [← String.toList_inj]
    simp [Radix.decimalText]
  rw [text]
  exact (stands_of_agrees num q.num_fits).read_fraction canonical (stands_of_agrees den q.den_fits)

theorem notMem_intText {c : Char} (hc : Text.isAsciiDigit c = false) (sign : c ≠ '-') (n : Int) :
    c ∉ Radix.intText 10 n := by
  have digits : c ∉ Radix.digitsOf 10 n.natAbs :=
    fun hm => nomatch hc.symm.trans (Radix.isAsciiDigit_digitsOf n.natAbs c hm)
  unfold Radix.intText
  split
  · simp [sign, digits]
  · exact digits

end Numeral

/-! ## § Exact numbers as tokens -/

section Exact

open Lexeme (Unsigned withSign quotientKind spelled_quotient)
open Radix (Agrees digitsOf)

variable {v : Vocabulary}

theorem Lexeme.unsigned_digitsOf {n : Nat} (agrees : Agrees v.inputBase n) :
    Unsigned v (digitsOf 10 n) :=
  unsigned_digits (Radix.isAsciiDigit_digitsOf n) (Radix.digitsOf_ne_nil 10 n) agrees.alphabet

theorem Lexeme.taken_digitsOf (n : Nat) (more : List Char) :
    TakenForNumber v (digitsOf 10 n ++ more) := by
  obtain ⟨c, rest, eq⟩ := List.exists_cons_of_ne_nil (Radix.digitsOf_ne_nil 10 n)
  rw [eq]
  exact takenForNumber_digit (Radix.isAsciiDigit_digitsOf n c (by simp [eq])) _

theorem spelled_int {n : Int} (agrees : Agrees v.inputBase n.natAbs) :
    Spelled v .number (Radix.decimalText n).toList := by
  have whole : quotientKind (Radix.intText 10 n) = .number :=
    if_neg (by simpa using Numeral.notMem_intText (by decide) (by decide) n)
  have taken := Lexeme.taken_digitsOf (v := v) n.natAbs []
  rw [List.append_nil] at taken
  unfold Radix.decimalText
  rw [String.toList_ofList, ← whole, Radix.intText_eq]
  exact spelled_quotient (Lexeme.unsigned_digitsOf agrees).quotient taken _

theorem spelled_fraction {q : Fraction} (num : Agrees v.inputBase q.num.natAbs)
    (den : Agrees v.inputBase q.den.natAbs) :
    Spelled v .rational (Scalar.rational q).literalText.toList := by
  have positive : Radix.intText 10 q.den = digitsOf 10 q.den.natAbs := if_neg (by simp [Fraction.den])
  have signed : (Scalar.rational q).literalText.toList
      = withSign (decide (q.num < 0))
        (digitsOf 10 q.num.natAbs ++ '/' :: digitsOf 10 q.den.natAbs) := by
    show (Radix.decimalText q.num ++ "/" ++ Radix.decimalText q.den).toList = _
    unfold Radix.decimalText
    rw [positive, Radix.intText_eq]
    by_cases h : q.num < 0 <;> simp [withSign, h]
  have fraction : quotientKind (Scalar.rational q).literalText.toList = .rational :=
    if_pos (by rw [signed]; simp [withSign]; split <;> simp)
  rw [← fraction, signed]
  exact spelled_quotient ((Lexeme.unsigned_digitsOf num).over (Lexeme.unsigned_digitsOf den))
    (Lexeme.taken_digitsOf _ _) _

end Exact

end ArrayCalc
