import ArrayCalc.Proofs.RationalOperators
import ArrayCalc.Proofs.RealLiterals

/-!
# Exact literals

A real literal whose number has parts within 64 bits is that number, however it is written: what
counts are the parts in lowest terms, not the digits or the size of the exponent.  Two real literals
with a slash between them are the quotient of what they are read as, if both are exact and one of them
at least is an integer.

An integer that is too large for a double is the one real literal that is not read at all, and then
its quotients are not either, whatever the other part is.
-/

namespace ArrayCalc

variable {q x y : ℚ} {a b s : Scalar}

theorem Scalar.Keeps.exact (h : s.Keeps q) : s.isExact = true := by
  rcases rat?_cases h.value with ⟨n, rfl, -⟩ | ⟨f, rfl, -⟩
  · rfl
  · rfl

namespace Numeral

variable {text num den : List Char} {base : Int} {d e : Parts}

theorem ofExact_fits (fits : Fraction.Bounded q) : (ofExact q).Keeps q := by
  obtain ⟨s, exact, keeps⟩ := Scalar.ofRat_fits fits
  unfold ofExact
  rw [exact]
  split
  next x same =>
    obtain rfl := Except.ok.inj same
    exact nomatch keeps.value
  next same =>
    obtain rfl := Except.ok.inj same
    exact keeps
  next same => exact nomatch same

theorem ofExact_kind (q : ℚ) : (ofExact q).isExact = true ∨ (ofExact q).kind = .float := by
  have kind {q : ℚ} {s : Scalar} (h : Scalar.ofRat q = .ok s) :
      s.isExact = true ∨ s.kind = .float := (Scalar.ofRat_cases h).imp_left (·.exact)
  unfold ofExact
  split
  · dsimp only
    split
    · exact .inr rfl
    · exact .inr rfl
    next exact => exact kind exact
  next exact => exact kind exact
  next => exact .inr rfl

/-! ## § Real literals -/

namespace Parts

theorem Whole.keeps (h : d.Whole text) (fits : Fits64 d.integer) :
    (Scalar.ofInt d.integer).Keeps d.number := by
  rw [h.number_eq]
  constructor
  · show some (((Int64.ofInt d.integer).toInt : Int) : ℚ) = some (d.integer : ℚ)
    rw [toInt_ofInt_of_fits fits]
  · exact iff_of_true rfl (Rat.den_intCast _)

/-- **A literal that fits is exact.** -/
theorem Written.real_fits (h : d.Written text) (short : d.Short) (decimal : base = 0 ∨ base = 10)
    (fits : Fraction.Bounded d.number) : ∃ s, real text base = .ok s ∧ s.Keeps d.number := by
  rcases h.whole_or decimal with whole | other
  · have word : Fits64 d.integer := by
      rw [whole.number_eq] at fits
      simpa using fits.1
    exact ⟨_, (whole.stands decimal short).real_eq word, whole.keeps word⟩
  · refine ⟨_, ?_, ofExact_fits fits⟩
    rw [h.real_decimal decimal other, value_short short]
    rfl

/-- A literal is read as an exact number or a double, unless it is an integer without a double. -/
theorem Written.real_cases (h : d.Written text) (short : d.Short) (decimal : base = 0 ∨ base = 10) :
    (∃ s, real text base = .ok s ∧ (s.isExact = true ∨ s.kind = .float)) ∨
      real text base = .error .overflow ∧ d.Whole text ∧ Double.nearest? d.number = none := by
  rcases h.whole_or decimal with whole | other
  · have stands := whole.stands decimal short
    by_cases fits : Fits64 d.integer
    · exact .inl ⟨_, stands.real_eq fits, .inl rfl⟩
    · rw [stands.real_wide fits, whole.number_eq]
      cases near : Double.nearest? (d.integer : ℚ) with
      | some x => exact .inl ⟨_, rfl, .inr rfl⟩
      | none => exact .inr ⟨rfl, whole, rfl⟩
  · refine .inl ⟨_, ?_, ofExact_kind d.number⟩
    rw [h.real_decimal decimal other, value_short short]
    rfl

end Parts

/-! ## § Quotients -/

/-- A number is read exactly if it fits, and as its nearest double if not. -/
def ReadsAs (x : Reading Scalar) (q : ℚ) : Prop :=
  if Fraction.Bounded q then ∃ s, x = .ok s ∧ s.Keeps q
  else ∃ d, x = .ok (.float d) ∧ Double.nearest? q = some d

theorem quotient_exact (ha : a.rat? = some x) (hb : b.rat? = some y)
    (integral : ¬(a.kind = .rational ∧ b.kind = .rational)) :
    quotient text a b = if y = 0 then refuse (.zeroDenominator (String.ofList text))
      else match Scalar.ofRat (x / y) with
        | .ok q => .ok q
        | .error _ => .error .overflow := by
  rcases rat?_cases ha with ⟨m, rfl, rfl⟩ | ⟨p, rfl, rfl⟩
  · rcases rat?_cases hb with ⟨n, rfl, rfl⟩ | ⟨q, rfl, rfl⟩ <;> rfl
  · rcases rat?_cases hb with ⟨n, rfl, rfl⟩ | ⟨q, rfl, rfl⟩
    · rfl
    · exact absurd ⟨rfl, rfl⟩ integral

theorem quotient_reads (ha : a.rat? = some x) (hb : b.rat? = some y)
    (integral : ¬(a.kind = .rational ∧ b.kind = .rational)) (other : y ≠ 0) :
    ReadsAs (quotient text a b) (x / y) := by
  rw [quotient_exact ha hb integral, if_neg other]
  unfold ReadsAs
  split
  next fits =>
    obtain ⟨s, exact, keeps⟩ := Scalar.ofRat_fits fits
    rw [exact]
    exact ⟨s, rfl, keeps⟩
  next wide =>
    have small := small_div (bounded_of_rat? ha) (bounded_of_rat? hb) other
    obtain ⟨d, near⟩ := Double.nearest?_of_small small
    rw [Scalar.ofRat_wide wide near]
    exact ⟨d, rfl, near⟩

theorem quotient_fractions (ha : a.kind = .rational) (hb : b.kind = .rational) :
    quotient text a b = refuse (.bothFractions (String.ofList text)) := by
  cases a with
  | rational =>
    cases b with
    | rational => rfl
    | int | float | complex | char => exact nomatch hb
  | int | float | complex | char => exact nomatch ha

theorem quotient_floats (h : a.kind = .float ∨ b.kind = .float) :
    quotient text a b = refuse (.notRational (String.ofList text)) := by
  rcases h with h | h
  · cases a with
    | float => rfl
    | int | rational | complex | char => exact nomatch h
  · cases b with
    | float => cases a <;> rfl
    | int | rational | complex | char => exact nomatch h

/-- Two real literals with a slash between them are read one after the other. -/
theorem Parts.Written.read_over (h : d.Written num) (k : e.Written den) (base : Int) :
    read (String.ofList (num ++ '/' :: den)) base = (do
      let a ← read (String.ofList num) base
      let b ← read (String.ofList den) base
      quotient (num ++ '/' :: den) a b) := by
  have no_slash : '/' ∉ num := h.notMem (by decide) (by decide)
  have no_j : 'j' ∉ num ++ '/' :: den := by
    have first : 'j' ∉ num := h.notMem (by decide) (by decide)
    have second : 'j' ∉ den := k.notMem (by decide) (by decide)
    simp [first, second]
  rw [h.read_eq, k.read_eq, read_rational fun hj => absurd hj no_j, rational,
    splitAt?_append no_slash]

/-! ## § The literals of a base -/

/-- What two real literals with a slash between them are read as, `x` being what is read of them. -/
structure Quotients (a b : Scalar) (text : List Char) (x : Reading Scalar) : Prop where
  exact : ∀ m n, a.rat? = some m → b.rat? = some n →
    ¬(a.kind = .rational ∧ b.kind = .rational) → n ≠ 0 → ReadsAs x (m / n)
  zero : a.isExact = true → ¬(a.kind = .rational ∧ b.kind = .rational) → b.rat? = some 0 →
    x = refuse (.zeroDenominator (String.ofList text))
  fractions : a.kind = .rational → b.kind = .rational →
    x = refuse (.bothFractions (String.ofList text))
  floats : a.kind = .float ∨ b.kind = .float → x = refuse (.notRational (String.ofList text))

/-- What becomes of the real literals of a base and of their quotients. -/
structure ExactLiterals (base : Int) : Prop where
  /-- A literal that fits is exact. -/
  literal : ∀ d text, Parts.Written d text → d.Short → Fraction.Bounded d.number →
    ∃ s, read (String.ofList text) base = .ok s ∧ s.Keeps d.number
  /-- All others are read too, but for integers without a double. -/
  cases : ∀ d text, Parts.Written d text → d.Short →
    (∃ s, read (String.ofList text) base = .ok s ∧ (s.isExact = true ∨ s.kind = .float)) ∨
      read (String.ofList text) base = .error .overflow ∧ d.Whole text ∧
        Double.nearest? d.number = none
  quotient : ∀ d e num den, Parts.Written d num → Parts.Written e den → ∀ a b,
    read (String.ofList num) base = .ok a → read (String.ofList den) base = .ok b →
    Quotients a b (num ++ '/' :: den) (read (String.ofList (num ++ '/' :: den)) base)
  /-- A quotient fails as its first part does, before the second one is looked at. -/
  first : ∀ d e num den, Parts.Written d num → Parts.Written e den → ∀ failure,
    read (String.ofList num) base = .error failure →
    read (String.ofList (num ++ '/' :: den)) base = .error failure
  second : ∀ d e num den, Parts.Written d num → Parts.Written e den → ∀ a failure,
    read (String.ofList num) base = .ok a → read (String.ofList den) base = .error failure →
    read (String.ofList (num ++ '/' :: den)) base = .error failure

/-- **Literals are exact when they fit, and so are their quotients.** -/
theorem exact_literals (decimal : base = 0 ∨ base = 10) : ExactLiterals base where
  literal d text h short fits := by
    rw [h.read_eq]
    exact h.real_fits short decimal fits
  cases d text h short := by
    rw [h.read_eq]
    exact h.real_cases short decimal
  quotient d e num den h k a b ha hb := by
    have parts : read (String.ofList (num ++ '/' :: den)) base
        = Numeral.quotient (num ++ '/' :: den) a b := by
      rw [h.read_over k, ha, hb]
      rfl
    rw [parts]
    constructor
    case exact =>
      intro m n hm hn integral other
      exact quotient_reads hm hn integral other
    case zero =>
      intro exact integral hn
      have value : ∃ m, a.rat? = some m := by
        cases a with
        | int | rational => exact ⟨_, rfl⟩
        | float | complex | char => exact nomatch exact
      obtain ⟨m, hm⟩ := value
      rw [quotient_exact hm hn integral, if_pos rfl]
    case fractions =>
      intro first second
      exact quotient_fractions first second
    case floats =>
      intro float
      exact quotient_floats float
  first d e num den h k failure ha := by
    rw [h.read_over k, ha]
    rfl
  second d e num den h k a failure ha hb := by
    rw [h.read_over k, ha, hb]
    rfl

/-- A quarter, and the quotient of one and a half and two. -/
theorem exact_literals_quarters :
    ((10 : Int) = 0 ∨ (10 : Int) = 10) ∧ (∃ s, read "25e-2" 10 = .ok s ∧ s.Keeps (1 / 4)) ∧
      ∃ s, read "1.5/2" 10 = .ok s ∧ s.Keeps (3 / 4) := by
  have digits {x : List Char} (h : x.all Text.isAsciiDigit = true) : Digits x :=
    List.all_eq_true.1 h
  have quarter : Parts.Written ⟨false, ['2', '5'], [], some (true, ['2'])⟩
      ['2', '5', 'e', '-', '2'] :=
    .mk .none (digits rfl) .none (.power (.inl rfl) .minus (digits rfl) nofun) (.inl nofun)
  have one_half : Parts.Written ⟨false, ['1'], ['5'], none⟩ ['1', '.', '5'] :=
    .mk .none (digits rfl) (.point (digits rfl)) .none (.inl nofun)
  have two : Parts.Written ⟨false, ['2'], [], none⟩ ['2'] :=
    .mk .none (digits rfl) .none .none (.inl nofun)
  have exact := exact_literals (.inr rfl : (10 : Int) = 0 ∨ (10 : Int) = 10)
  refine ⟨.inr rfl, ?_, ?_⟩
  · obtain ⟨s, hs, keeps⟩ := exact.literal _ _ quarter
      ⟨by decide, by decide, by decide⟩ (by decide +kernel)
    have number : Parts.number ⟨false, ['2', '5'], [], some (true, ['2'])⟩ = 1 / 4 := by
      decide +kernel
    exact ⟨s, hs, number ▸ keeps⟩
  · obtain ⟨s, hs, keeps⟩ := exact.literal _ _ one_half
      ⟨by decide, by decide, by decide⟩ (by decide +kernel)
    obtain ⟨t, ht, keeps'⟩ := exact.literal _ _ two
      ⟨by decide, by decide, by decide⟩ (by decide +kernel)
    have half : Parts.number ⟨false, ['1'], ['5'], none⟩ = 3 / 2 := by decide +kernel
    have whole : Parts.number ⟨false, ['2'], [], none⟩ = 2 := by decide +kernel
    rw [half] at keeps
    rw [whole] at keeps'
    have integral : t.kind = .int := keeps'.integral.2 rfl
    have reads := (exact.quotient _ _ _ _ one_half two s t hs ht).exact _ _ keeps.value
      keeps'.value (fun both => nomatch integral.symm.trans both.2) (by norm_num)
    have same : (3 / 2 / 2 : ℚ) = 3 / 4 := by norm_num
    rw [same] at reads
    exact (if_pos (by decide +kernel)).mp reads

end Numeral

end ArrayCalc
