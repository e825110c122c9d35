import ArrayCalc.Numeral
import ArrayCalc.Proofs.Canonical
import Mathlib.Algebra.Group.Nat.Defs
import Mathlib.Data.Nat.Digits.Defs

/-!
# Runs of digits

The places of a number are the remainders of repeated division by the base, so its digits stand for
the number again.  More generally a run of digits, in either letter case and with any zeros in front,
stands for the sum of its digits times powers of the base.

With or without a sign such a run is read as an integer, in its own base or, if it is a decimal one,
where base prefixes are looked for.  Two of them with a slash between them are read as a fraction.
-/

namespace ArrayCalc

namespace Radix

variable {base n digit : Nat} {c : Char} {word : List Char} {digits : List Nat}

/-! ## § The digits of a number -/

theorem digitValue_digitChar (h : digit < 36) : digitValue (digitChar digit) = digit := by
  have all : ∀ digit < 36, digitValue (digitChar digit) = digit := by decide
  exact all digit h

theorem isAsciiDigit_digitChar (h : digit < 10) : Text.isAsciiDigit (digitChar digit) = true := by
  have all : ∀ digit < 10, Text.isAsciiDigit (digitChar digit) = true := by decide
  exact all digit h

theorem places_lt (hb : 2 ≤ base) (n : Nat) : ∀ place ∈ places base n, place < base := by
  fun_induction places base n with
  | case1 n small =>
    rw [List.forall_mem_singleton]
    omega
  | case2 n large ih =>
    rw [List.forall_mem_cons]
    exact ⟨Nat.mod_lt n (by omega), ih⟩

theorem places_ne_nil (base n : Nat) : places base n ≠ [] := by
  rw [places]
  split <;> exact List.cons_ne_nil _ _

/-- The highest place is not zero, except of zero itself. -/
theorem places_getLast? (hb : 2 ≤ base) (h : (places base n).getLast? = some 0) : n = 0 := by
  fun_induction places base n with
  | case1 n small => exact Option.some.inj h
  | case2 n large ih =>
    have higher : (places base (n / base)).getLast? = some 0 := by
      obtain ⟨place, more, eq⟩ := List.exists_cons_of_ne_nil (places_ne_nil base (n / base))
      rw [eq, List.getLast?_cons_cons] at h
      rw [eq, h]
    have zero := ih higher
    rw [Nat.div_eq_zero_iff] at zero
    omega

theorem valueOf_append (base : Nat) (digits : List Char) (c : Char) :
    valueOf base (digits ++ [c]) = valueOf base digits * base + digitValue c := by
  rw [valueOf, List.foldl_append]
  rfl

/-- **Digits stand for the number that they are the digits of.** -/
theorem valueOf_digitsOf (hb : 2 ≤ base) (most : base ≤ 36) (n : Nat) :
    valueOf base (digitsOf base n) = n := by
  unfold digitsOf
  fun_induction places base n with
  | case1 n small =>
    have place : n < 36 := by omega
    show 0 * base + digitValue (digitChar n) = n
    rw [digitValue_digitChar place, Nat.zero_mul, Nat.zero_add]
  | case2 n large ih =>
    have place : n % base < 36 := Nat.lt_of_lt_of_le (Nat.mod_lt n (by omega)) most
    rw [List.reverse_cons, List.map_append, List.map_singleton, valueOf_append, ih,
      digitValue_digitChar place, Nat.div_add_mod']

theorem digitsOf_ne_nil (base n : Nat) : digitsOf base n ≠ [] := by
  simpa [digitsOf] using places_ne_nil base n

/-- Below the base there is one digit. -/
theorem digitsOf_small (h : n < base) : digitsOf base n = [digitChar n] := by
  rw [digitsOf, places, if_pos (.inl h)]
  rfl

theorem length_digitsOf_le (hb : 2 ≤ base) {count : Nat} (pos : 0 < count) (h : n < base ^ count) :
    (digitsOf base n).length ≤ count := by
  have places_le : (places base n).length ≤ count := by
    fun_induction places base n generalizing count with
    | case1 => exact pos
    | case2 n large ih =>
      have more : 1 < count := by
        refine Nat.lt_of_not_le fun single => large (.inl ?_)
        obtain rfl : count = 1 := by omega
        rwa [Nat.pow_one] at h
      obtain ⟨rest, rfl⟩ := Nat.exists_eq_add_of_lt pos
      rw [Nat.zero_add] at h more ⊢
      refine Nat.succ_le_succ (ih (by omega) ?_)
      rw [Nat.div_lt_iff_lt_mul (by omega), ← Nat.pow_succ]
      exact h
  simpa [digitsOf] using places_le

theorem isAsciiDigit_digitsOf (n : Nat) : ∀ c ∈ digitsOf 10 n, Text.isAsciiDigit c = true := by
  intro c hc
  obtain ⟨place, hp, rfl⟩ := List.mem_map.1 hc
  exact isAsciiDigit_digitChar (places_lt (by decide) n place (List.mem_reverse.1 hp))

/-! ## § Runs -/

theorem mem_decimalDigits {c : Char} (h : Text.isAsciiDigit c = true) : c ∈ decimalDigits := by
  have range : 48 ≤ c.toNat ∧ c.toNat ≤ 57 := by
    simpa [Text.isAsciiDigit, Char.le_def, UInt32.le_iff_toNat_le] using h
  have all : ∀ n ≤ 57, 48 ≤ n → Char.ofNat n ∈ decimalDigits := by decide
  have := all c.toNat range.2 range.1
  rwa [Char.ofNat_toNat] at this

theorem alphabet_subset (base : Int) :
    alphabet base ⊆ decimalDigits ++ lowerLetters ++ upperLetters := by
  have decimal {digits : List Char} (h : digits ⊆ decimalDigits) :
      digits ⊆ decimalDigits ++ lowerLetters ++ upperLetters := fun c hc => by simp [h hc]
  unfold alphabet
  split
  · exact decimal fun _ hc => hc
  split
  · exact decimal (List.take_subset _ _)
  split
  · exact decimal (List.take_subset _ _)
  · intro c hc
    simp only [List.mem_append] at hc ⊢
    exact hc.imp (.imp_right (List.mem_of_mem_take ·)) (List.mem_of_mem_take ·)

/-- A character stands for a digit: a decimal digit, or a letter in either case. -/
def Spells (digit : Nat) (c : Char) : Prop :=
  (decimalDigits ++ lowerLetters)[digit]? = some c ∨
    (decimalDigits ++ upperLetters)[digit]? = some c

theorem Spells.digitValue (h : Spells digit c) : digitValue c = digit := by
  have lower : ∀ digit < 36, (decimalDigits ++ lowerLetters)[digit]?.all
      (Radix.digitValue · == digit) = true := by decide
  have upper : ∀ digit < 36, (decimalDigits ++ upperLetters)[digit]?.all
      (Radix.digitValue · == digit) = true := by decide
  rcases h with h | h
  · have same := lower digit (List.getElem?_eq_some_iff.1 h).1
    rw [h] at same
    exact eq_of_beq same
  · have same := upper digit (List.getElem?_eq_some_iff.1 h).1
    rw [h] at same
    exact eq_of_beq same

/-- Digits below the base are digits of the base. -/
theorem Spells.mem_alphabet (h : Spells digit c) (below : digit < base) : c ∈ alphabet base := by
  have found {letters : List Char} (h : (decimalDigits ++ letters)[digit]? = some c) :
      c ∈ decimalDigits.take base ∨ 10 < base ∧ c ∈ letters.take (base - 10) := by
    by_cases small : digit < decimalDigits.length
    · rw [List.getElem?_append_left small, ← List.getElem?_take_of_lt below] at h
      exact .inl (List.mem_of_getElem? h)
    · have ten : 10 ≤ digit := Nat.le_of_not_lt small
      have shifted : digit - 10 < base - 10 := by omega
      rw [List.getElem?_append_right ten] at h
      exact .inr ⟨by omega, List.mem_of_getElem? ((List.getElem?_take_of_lt shifted).trans h)⟩
  unfold alphabet
  rw [if_neg (by omega), if_neg (by omega)]
  split
  next few =>
    rcases h with h | h
    · exact (found h).resolve_right fun more => by omega
    · exact (found h).resolve_right fun more => by omega
  next more =>
    simp only [List.mem_append]
    rcases h with h | h
    · rcases found h with digit | ⟨-, letter⟩
      · exact .inl (.inl (List.mem_of_mem_take digit))
      · exact .inl (.inr letter)
    · rcases found h with digit | ⟨-, letter⟩
      · exact .inl (.inl (List.mem_of_mem_take digit))
      · exact .inr letter

theorem getElem?_digitChar (h : digit < 36) :
    (decimalDigits ++ lowerLetters)[digit]? = some (digitChar digit) := by
  have all : ∀ digit < 36, (decimalDigits ++ lowerLetters)[digit]? = some (digitChar digit) := by
    decide
  exact all digit h

theorem spells_digitChar (h : digit < 36) : Spells digit (digitChar digit) :=
  .inl (getElem?_digitChar h)

/-- The value of a run is the sum of its digits times powers of the base. -/
theorem valueOf_eq_ofDigits (base : Nat) (word : List Char) :
    valueOf base word = Nat.ofDigits base (word.map digitValue).reverse := by
  rw [Nat.ofDigits_eq_foldr, List.foldr_reverse, List.foldl_map, valueOf]
  congr
  funext value c
  rw [Nat.cast_id, Nat.mul_comm, Nat.add_comm]

/-- A run of digits of a base. -/
structure Run (base : Nat) (word : List Char) : Prop where
  nonempty : word ≠ []
  digits : ∀ c ∈ word, c ∈ alphabet base

namespace Run

theorem of_spells (h : List.Forall₂ Spells digits word) (below : ∀ digit ∈ digits, digit < base)
    (nonempty : word ≠ []) : Run base word := by
  refine ⟨nonempty, fun c hc => ?_⟩
  clear nonempty
  induction h with
  | nil => exact nomatch hc
  | cons spells _ ih =>
    rw [List.forall_mem_cons] at below
    rcases List.mem_cons.1 hc with rfl | hc
    · exact spells.mem_alphabet below.1
    · exact ih below.2 hc

theorem digitsOf (least : 2 ≤ base) (most : base ≤ 36) (n : Nat) :
    Run base (Radix.digitsOf base n) := by
  refine ⟨digitsOf_ne_nil base n, fun c hc => ?_⟩
  obtain ⟨place, hp, rfl⟩ := List.mem_map.1 hc
  have below := places_lt least n place (List.mem_reverse.1 hp)
  exact (spells_digitChar (below.trans_le most)).mem_alphabet below

/-- Only digits and letters occur in a run. -/
theorem notMem (h : Run base word)
    (strange : c ∉ decimalDigits ++ lowerLetters ++ upperLetters) : c ∉ word :=
  fun hc => strange (alphabet_subset _ (h.digits c hc))

theorem isAllDigits (h : Run base word) : isAllDigits word base = true := by
  unfold Radix.isAllDigits
  rw [List.isEmpty_eq_false_iff.2 h.nonempty, Bool.not_false, Bool.true_and]
  exact List.all_eq_true.2 fun c hc => List.contains_iff_mem.2 (h.digits c hc)

end Run

end Radix

/-- A number that may have a minus sign. -/
def Lexeme.withSign (negative : Bool) (x : List Char) : List Char :=
  if negative then '-' :: x else x

theorem Radix.intText_eq (base : Nat) (n : Int) :
    intText base n = Lexeme.withSign (decide (n < 0)) (digitsOf base n.natAbs) := by
  by_cases h : n < 0 <;> simp [intText, Lexeme.withSign, h]

namespace Numeral

open Radix (Run)

variable {base : Int} {radix : Nat} {negative : Bool} {sign word text : List Char} {mark : Char}

/-! ## § Integers -/

/-- The signs that a number may have; `true` is a minus. -/
inductive Sign : Bool → List Char → Prop
  | none : Sign false []
  | plus : Sign false ['+']
  | minus : Sign true ['-']

theorem sign_withSign (negative : Bool) (x : List Char) :
    ∃ sign, Sign negative sign ∧ Lexeme.withSign negative x = sign ++ x := by
  cases negative with
  | false => exact ⟨[], .none, rfl⟩
  | true => exact ⟨['-'], .minus, rfl⟩

/-- A sign is taken off whatever starts with no other sign. -/
theorem splitSign_append (hs : Sign negative sign) {body : List Char}
    (no_minus : ∀ rest, body ≠ '-' :: rest) (no_plus : ∀ rest, body ≠ '+' :: rest) :
    splitSign (sign ++ body) = (negative, body) := by
  cases hs with
  | plus | minus => rfl
  | none =>
    rw [List.nil_append]
    unfold splitSign
    split
    next rest => exact absurd rfl (no_minus rest)
    next rest => exact absurd rfl (no_plus rest)
    next => rfl

theorem splitSign_run (hs : Sign negative sign) (run : Run radix word) :
    splitSign (sign ++ word) = (negative, word) := by
  refine splitSign_append hs ?_ ?_
  · rintro rest rfl
    exact run.notMem (c := '-') (by decide) List.mem_cons_self
  · rintro rest rfl
    exact run.notMem (c := '+') (by decide) List.mem_cons_self

/-- The base that digits are taken in: the given one, or ten where base prefixes are looked for. -/
def TakenIn (base : Int) (radix : Nat) : Prop := base = radix ∨ base = 0 ∧ radix = 10

theorem splitBase_run (h : TakenIn base radix) (least : 2 ≤ radix) (run : Run radix word) :
    splitBase base word = ((radix : Int), word) := by
  unfold splitBase
  rcases h with rfl | ⟨rfl, rfl⟩
  · rw [if_neg (by omega)]
  · -- The letter of a prefix is no decimal digit.
    have second (letter : Char) (hl : letter ∉ Radix.decimalDigits) (first : Char)
        (rest : List Char) : word ≠ first :: letter :: rest := by
      rintro rfl
      exact hl (run.digits letter (by simp))
    rw [if_pos rfl]
    split
    · exact absurd rfl (second 'x' (by decide) _ _)
    · exact absurd rfl (second 'X' (by decide) _ _)
    · exact absurd rfl (second 'o' (by decide) _ _)
    · exact absurd rfl (second 'O' (by decide) _ _)
    · rfl

/-- **A run of digits is read as the number it stands for.** -/
theorem integer?_run (h : TakenIn base radix) (least : 2 ≤ radix) (most : radix ≤ 36)
    (hs : Sign negative sign) (run : Run radix word) (length : word.length ≤ digitLimit) :
    integer? (sign ++ word) base = .ok (some (applySign negative (Radix.valueOf radix word))) := by
  have value : natural radix word = .ok (Radix.valueOf radix word) := by
    unfold natural
    rw [if_neg (by omega), if_neg fun long => absurd long.1 (Nat.not_lt.2 length), Int.toNat_natCast]
  unfold integer?
  rw [splitSign_run hs run]
  dsimp only
  rw [splitBase_run h least run]
  dsimp only
  rw [run.isAllDigits, if_pos rfl, value]
  rfl

theorem splitAt?_of_notMem (h : mark ∉ text) : splitAt? mark text = none := by
  have all : ∀ c ∈ text, (c != mark) = true := fun c hc => bne_iff_ne.2 fun e => h (e ▸ hc)
  have whole : (text ++ []).dropWhile (· != mark) = [] := List.dropWhile_append_of_pos all
  rw [List.append_nil] at whole
  rw [splitAt?, whole]

theorem splitAt?_append {before : List Char} (h : mark ∉ before) (behind : List Char) :
    splitAt? mark (before ++ mark :: behind) = some (before, behind) := by
  have all : ∀ c ∈ before, (c != mark) = true := fun c hc => bne_iff_ne.2 fun e => h (e ▸ hc)
  unfold splitAt?
  rw [List.dropWhile_append_of_pos all, List.takeWhile_append_of_pos all,
    List.dropWhile_cons_of_neg (by simp), List.takeWhile_cons_of_neg (by simp), List.append_nil]

/-- Where there is no `j`, or where it is a digit, a number has no imaginary part. -/
theorem read_rational (h : 'j' ∈ text → 'j' ∈ Radix.alphabet base) :
    read (String.ofList text) base = rational text base := by
  unfold read
  rw [String.toList_ofList]
  dsimp only
  split
  next => rfl
  next separates =>
    rw [splitAt?_of_notMem fun hj => separates (List.contains_iff_mem.2 (h hj))]

/-- A text that is read as an integer by itself, and is no quotient or complex number. -/
structure Stands (base : Int) (text : List Char) (n : Int) : Prop where
  nonempty : text ≠ []
  integer : integer? text base = .ok (some n)
  whole : '/' ∉ text
  real : 'j' ∈ text → 'j' ∈ Radix.alphabet base

theorem stands_run (h : TakenIn base radix) (least : 2 ≤ radix) (most : radix ≤ 36)
    (hs : Sign negative sign) (run : Run radix word) (length : word.length ≤ digitLimit) :
    Stands base (sign ++ word) (applySign negative (Radix.valueOf radix word)) := by
  refine ⟨?_, integer?_run h least most hs run length, ?_, ?_⟩
  · simp [run.nonempty]
  · have digits : '/' ∉ word := run.notMem (by decide)
    cases hs <;> simp [digits]
  · intro hj
    have digit : 'j' ∈ word := by cases hs <;> simpa using hj
    rcases h with rfl | ⟨rfl, rfl⟩
    · exact run.digits _ digit
    · exact run.digits _ digit

/-- A number within 64 bits has few enough digits. -/
theorem stands_intText (h : TakenIn base radix) (least : 2 ≤ radix) (most : radix ≤ 36) {n : Int}
    (fits : Fits64 n) : Stands base (Radix.intText radix n) n := by
  have small : n.natAbs < radix ^ 64 := by
    have bound : n.natAbs < 2 ^ 64 := by
      obtain ⟨low, high⟩ := fits
      omega
    exact bound.trans_le (Nat.pow_le_pow_left least 64)
  have length := Radix.length_digitsOf_le least (by decide) small
  obtain ⟨sign, hs, text⟩ := sign_withSign (decide (n < 0)) (Radix.digitsOf radix n.natAbs)
  have stands := stands_run h least most hs (.digitsOf least most n.natAbs)
    (length.trans (by decide))
  rw [Radix.valueOf_digitsOf least most] at stands
  have value : applySign (decide (n < 0)) n.natAbs = n := by
    unfold applySign
    simp only [decide_eq_true_eq]
    split <;> omega
  rw [value] at stands
  rwa [Radix.intText_eq, text]

namespace Stands

variable {n : Int} {x y : List Char}

theorem real_eq (h : Stands base text n) (fits : Fits64 n) :
    Numeral.real text base = .ok (.ofInt n) := by
  unfold Numeral.real
  rw [List.isEmpty_eq_false_iff.2 h.nonempty, h.integer]
  exact if_pos fits

theorem read_eq (h : Stands base text n) :
    read (String.ofList text) base = Numeral.real text base := by
  rw [read_rational h.real, rational, splitAt?_of_notMem h.whole]

/-- **An integer is read back.** -/
theorem read_int (h : Stands base text n) (fits : Fits64 n) :
    read (String.ofList text) base = .ok (.ofInt n) :=
  h.read_eq.trans (h.real_eq fits)

/-- An integer that is too large becomes a double, if there is one for it. -/
theorem real_wide (h : Stands base text n) (wide : ¬Fits64 n) :
    Numeral.real text base = match Double.nearest? (n : Rat) with
      | some x => .ok (.float x)
      | none => .error .overflow := by
  unfold Numeral.real
  rw [List.isEmpty_eq_false_iff.2 h.nonempty, h.integer]
  exact if_neg wide

theorem read_wide (h : Stands base text n) (wide : ¬Fits64 n) (m : Int64) :
    read (String.ofList text) base ≠ .ok (.int m) := by
  rw [h.read_eq, h.real_wide wide]
  split <;> nofun

/-- **A fraction is read back.** -/
theorem read_fraction {q : Fraction} (canonical : (Scalar.rational q).Canonical)
    (hx : Stands base x q.num) (hy : Stands base y q.den) :
    read (String.ofList (x ++ '/' :: y)) base = .ok (.rational q) := by
  have real : 'j' ∈ x ++ '/' :: y → 'j' ∈ Radix.alphabet base := by
    intro hj
    rcases List.mem_append.1 hj with hj | hj
    · exact hx.real hj
    · exact hy.real (by simpa using hj)
  rw [read_rational real, rational, splitAt?_append hx.whole]
  dsimp only
  rw [hx.real_eq q.num_fits, hy.real_eq q.den_fits]
  have value : q.val = (q.num : Rat) / (q.den : Rat) := by
    rw [← Rat.divInt_eq_div]
    exact (Rat.num_divInt_den q.val).symm
  have den_pos : (q.den : Rat) ≠ 0 := by
    have pos : q.val.den ≠ 0 := q.val.den_nz
    unfold Fraction.den
    exact_mod_cast pos
  have numerator : (Int64.ofInt q.num).toInt = q.num := toInt_ofInt_of_fits q.num_fits
  have denominator : (Int64.ofInt q.den).toInt = q.den := toInt_ofInt_of_fits q.den_fits
  have back : Scalar.ofRat q.val = .ok (.rational q) := by
    have bounded : Fraction.ofRat? q.val = some q := dif_pos ⟨q.num_fits, q.den_fits⟩
    unfold Scalar.ofRat
    rw [if_neg (fun h => Scalar.canonical_rational.1 canonical h.1), bounded]
  show quotient _ (.ofInt q.num) (.ofInt q.den) = _
  simp only [quotient, Scalar.ofInt, Value.toRat, numerator, denominator, if_neg den_pos]
  rw [← value, back]

end Stands

end Numeral

end ArrayCalc
