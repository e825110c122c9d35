import ArrayCalc.Proofs.DigitRuns
import ArrayCalc.Proofs.NearestDoubles

/-!
# Real literals

A real literal is a sign, digits with a point among them or at either end, and an exponent, of which
the sign, the point and the exponent may be missing.  Reading takes it apart into these parts, and the
parts stand for one rational number, however large the exponent is.  Only digits can stop that: a run
of too many of them is refused.

Without a point and an exponent the text is an integer, and is read before any decimal is looked for.
-/

namespace ArrayCalc

/-! ## § Values of digits -/

theorem Radix.valueOf_join (base : Nat) (x y : List Char) :
    valueOf base (x ++ y) = valueOf base x * base ^ y.length + valueOf base y := by
  induction y using List.reverseRecOn with
  | nil => simp [valueOf]
  | append_singleton y c ih =>
    rw [← List.append_assoc, valueOf_append, valueOf_append, ih, List.length_append,
      List.length_singleton, pow_succ]
    ring

namespace Numeral

variable {text digits sign point ending : List Char} {negative : Bool}
  {exponent : Option (Bool × List Char)} {base : Int} {d : Parts}

/-! ## § The grammar -/

/-- Decimal digits, if there are any at all. -/
def Digits (digits : List Char) : Prop := ∀ c ∈ digits, Text.isAsciiDigit c = true

/-- The texts of the digits behind the whole part, with the point. -/
inductive PointText : List Char → List Char → Prop
  | none : PointText [] []
  | point {digits : List Char} (h : Digits digits) : PointText digits ('.' :: digits)

/-- The texts of an exponent. -/
inductive PowerText : Option (Bool × List Char) → List Char → Prop
  | none : PowerText none []
  | power {mark : Char} {negative : Bool} {sign digits : List Char} (hm : mark = 'e' ∨ mark = 'E')
      (hs : Sign negative sign) (hd : Digits digits) (nonempty : digits ≠ []) :
      PowerText (some (negative, digits)) (mark :: (sign ++ digits))

namespace Parts

/-- The texts of a real literal with these parts. -/
inductive Written : Parts → List Char → Prop
  | mk {negative : Bool} {whole decimals sign point power : List Char}
      {exponent : Option (Bool × List Char)} (hs : Sign negative sign) (hw : Digits whole)
      (hp : PointText decimals point) (he : PowerText exponent power)
      (nonempty : whole ≠ [] ∨ decimals ≠ []) :
      Written ⟨negative, whole, decimals, exponent⟩ (sign ++ (whole ++ (point ++ power)))

/-- No run of digits is too long to be read. -/
structure Short (d : Parts) : Prop where
  whole : d.whole.length ≤ digitLimit
  decimals : d.decimals.length ≤ digitLimit
  exponent : ∀ e ∈ d.exponent, e.2.length ≤ digitLimit

/-- The power of ten that a decimal is written with. -/
def power (d : Parts) : Int :=
  match d.exponent with
  | none => 0
  | some (negative, digits) => applySign negative (Radix.valueOf 10 digits)

/-- What a decimal stands for, up to its sign. -/
def size (d : Parts) : ℚ :=
  Radix.valueOf 10 (d.whole ++ d.decimals) * 10 ^ (d.power - d.decimals.length)

/-- The number that a decimal stands for. -/
def number (d : Parts) : ℚ := if d.negative then -d.size else d.size

end Parts

/-! ## § Values -/

/-- The limit on digits is all that can stop a decimal run. -/
theorem natural_ten (digits : List Char) :
    natural 10 digits = if digits.length ≤ digitLimit then .ok (Radix.valueOf 10 digits)
      else refuse (.tooManyDigits digits.length) := by
  unfold natural
  rw [if_neg (by decide)]
  by_cases short : digits.length ≤ digitLimit
  · rw [if_pos short, if_neg fun long => absurd long.1 (Nat.not_lt.2 short)]
    rfl
  · rw [if_neg short, if_pos ⟨Nat.lt_of_not_le short, rfl⟩]

theorem natural_short (h : digits.length ≤ digitLimit) :
    natural 10 digits = .ok (Radix.valueOf 10 digits) := by rw [natural_ten, if_pos h]

theorem natural_long (h : ¬digits.length ≤ digitLimit) :
    natural 10 digits = refuse (.tooManyDigits digits.length) := by rw [natural_ten, if_neg h]

/-- No digits stand for zero. -/
theorem run_eq (digits : List Char) : run digits = natural 10 digits := by
  unfold run
  split
  next none =>
    rw [List.isEmpty_iff.1 none]
    rfl
  next => rfl

namespace Parts

/-- **A decimal has the value that its parts say.** -/
theorem value_short (h : d.Short) : d.value = .ok d.number := by
  have size_eq : (mkRat ((Radix.valueOf 10 d.whole * tens d.decimals.length
      + Radix.valueOf 10 d.decimals : Nat) : Int) (tens d.decimals.length) : ℚ)
      = Radix.valueOf 10 (d.whole ++ d.decimals) * 10 ^ (-(d.decimals.length : Int)) := by
    rw [Rat.mkRat_eq_div, Radix.valueOf_join, zpow_neg, zpow_natCast, ← div_eq_mul_inv,
      tens_natCast]
    push_cast
    rfl
  -- The exact value follows from the scaled size, whichever way the exponent goes.
  have value {scaled : ℚ} (h : scaled = d.size) :
      (Except.ok (if d.negative then -scaled else scaled) : Reading ℚ) = .ok d.number := by
    rw [h, number]
  unfold Parts.value
  rw [run_eq, run_eq, natural_short h.whole, natural_short h.decimals]
  cases he : d.exponent with
  | none =>
    refine value (size_eq.trans ?_)
    rw [size, power, he, zero_sub]
  | some e =>
    obtain ⟨negative, digits⟩ := e
    have power_eq : d.power = applySign negative (Radix.valueOf 10 digits) := by rw [power, he]
    dsimp only [bind, Except.bind]
    rw [natural_short (h.exponent _ he)]
    refine value ?_
    rw [size_eq, size, power_eq, sub_eq_add_neg, add_comm, zpow_add₀ (by norm_num), ← mul_assoc]
    cases negative with
    | false => simp [applySign, tens_natCast]
    | true => simp [applySign, tens_natCast, div_eq_mul_inv]

/-- **A run of too many digits is refused.** -/
theorem value_long (h : ¬d.Short) :
    ∃ count, digitLimit < count ∧ d.value = refuse (.tooManyDigits count) := by
  unfold Parts.value
  rw [run_eq, run_eq]
  by_cases whole : d.whole.length ≤ digitLimit
  · by_cases decimals : d.decimals.length ≤ digitLimit
    · rw [natural_short whole, natural_short decimals]
      cases he : d.exponent with
      | none => exact absurd ⟨whole, decimals, by simp [he]⟩ h
      | some e =>
        obtain ⟨negative, digits⟩ := e
        have long : ¬digits.length ≤ digitLimit := by
          intro short
          exact h ⟨whole, decimals, by simpa [he] using short⟩
        refine ⟨digits.length, Nat.lt_of_not_le long, ?_⟩
        dsimp only [bind, Except.bind]
        rw [natural_long long]
        rfl
    · refine ⟨d.decimals.length, Nat.lt_of_not_le decimals, ?_⟩
      rw [natural_short whole, natural_long decimals]
      rfl
  · refine ⟨d.whole.length, Nat.lt_of_not_le whole, ?_⟩
    rw [natural_long whole]
    rfl

end Parts

/-! ## § Taking a literal apart -/

/-- What does not start with a digit ends a run of them. -/
theorem takeWhile_digits (h : Digits digits) {rest : List Char}
    (stop : ∀ c ∈ rest.head?, Text.isAsciiDigit c = false) :
    (digits ++ rest).takeWhile Text.isAsciiDigit = digits ∧
      (digits ++ rest).dropWhile Text.isAsciiDigit = rest := by
  rw [List.takeWhile_append_of_pos h, List.dropWhile_append_of_pos h]
  cases rest with
  | nil => simp
  | cons c more =>
    have other : ¬Text.isAsciiDigit c = true := by simp [stop c rfl]
    rw [List.takeWhile_cons_of_neg other, List.dropWhile_cons_of_neg other, List.append_nil]
    exact ⟨rfl, rfl⟩

theorem Digits.run (h : Digits digits) (nonempty : digits ≠ []) : Radix.Run 10 digits :=
  ⟨nonempty, fun c hc => Radix.mem_decimalDigits (h c hc)⟩

theorem PowerText.head (h : PowerText exponent ending) : ∀ c ∈ ending.head?, c = 'e' ∨ c = 'E' := by
  cases h with
  | none => exact nofun
  | power hm =>
    rintro c ⟨⟩
    exact hm

theorem PowerText.stops (h : PowerText exponent ending) :
    ∀ c ∈ ending.head?, Text.isAsciiDigit c = false := by
  intro c hc
  rcases h.head c hc with rfl | rfl <;> rfl

theorem splitExponent_power (h : PowerText exponent ending) :
    splitExponent ending = some exponent := by
  cases h with
  | none => rfl
  | @power mark negative sign digits hm hs hd nonempty =>
    obtain ⟨run, tail⟩ := @takeWhile_digits digits hd [] nofun
    rw [List.append_nil] at run tail
    have feed : mark ≠ '\n' := by rcases hm with rfl | rfl <;> decide
    have there : ¬(digits.isEmpty = true ∨ ¬(([] : List Char) = [] ∨ [] = ['\n'])) := by
      simpa using nonempty
    rw [splitExponent.eq_3 mark _ fun eq => absurd eq feed, if_pos hm,
      splitSign_run hs (hd.run nonempty)]
    dsimp only
    rw [run, tail, if_neg there]

/-- The digits behind a point, if one follows, and what stands behind them. -/
def behindPoint (text : List Char) : List Char × List Char :=
  match text with
  | '.' :: rest => (rest.takeWhile Text.isAsciiDigit, rest.dropWhile Text.isAsciiDigit)
  | rest => ([], rest)

theorem behindPoint_text (hp : PointText digits point) (he : PowerText exponent ending) :
    behindPoint (point ++ ending) = (digits, ending) := by
  cases hp with
  | none =>
    rw [List.nil_append]
    unfold behindPoint
    split
    next rest eq => exact absurd (he.head '.' rfl) (by decide)
    next => rfl
  | point h =>
    obtain ⟨run, rest⟩ := takeWhile_digits h he.stops
    exact Prod.ext run rest

/-- What stands behind the whole part does not start with a digit. -/
theorem tail_stops (hp : PointText digits point) (he : PowerText exponent ending) :
    ∀ c ∈ (point ++ ending).head?, Text.isAsciiDigit c = false := by
  cases hp with
  | none => exact he.stops
  | point =>
    rintro c ⟨⟩
    rfl

/-- The characters of a real literal behind its sign. -/
theorem mem_body {whole decimals : List Char} (hw : Digits whole) (hp : PointText decimals point)
    (he : PowerText exponent ending) {c : Char} (hc : c ∈ whole ++ (point ++ ending)) :
    Text.isAsciiDigit c = true ∨ c ∈ ['.', 'e', 'E', '+', '-'] := by
  rw [List.mem_append, List.mem_append] at hc
  rcases hc with hc | hc | hc
  · exact .inl (hw c hc)
  · cases hp with
    | none => exact nomatch hc
    | point h =>
      rcases List.mem_cons.1 hc with rfl | hc
      · exact .inr (by decide)
      · exact .inl (h c hc)
  · cases he with
    | none => exact nomatch hc
    | @power mark negative sign digits hm hs hd =>
      rw [List.mem_cons, List.mem_append] at hc
      rcases hc with rfl | hc | hc
      · exact .inr (by rcases hm with rfl | rfl <;> decide)
      · refine .inr ?_
        cases hs <;> simp_all
      · exact .inl (hd c hc)

/-- Behind its sign a real literal starts with a digit or a point. -/
theorem body_head {whole decimals : List Char} (hw : Digits whole) (hp : PointText decimals point)
    (nonempty : whole ≠ [] ∨ decimals ≠ []) (ending : List Char) :
    ∃ c rest, whole ++ (point ++ ending) = c :: rest ∧ (Text.isAsciiDigit c = true ∨ c = '.') := by
  cases whole with
  | cons c rest => exact ⟨c, _, rfl, .inl (hw c List.mem_cons_self)⟩
  | nil =>
    cases hp with
    | none => exact absurd rfl (nonempty.resolve_left fun h => h rfl)
    | point => exact ⟨'.', _, rfl, .inr rfl⟩

namespace Parts.Written

theorem splitSign_body {whole decimals : List Char} (hs : Sign negative sign) (hw : Digits whole)
    (hp : PointText decimals point) (nonempty : whole ≠ [] ∨ decimals ≠ []) :
    splitSign (sign ++ (whole ++ (point ++ ending))) = (negative, whole ++ (point ++ ending)) := by
  obtain ⟨c, rest, eq, starts⟩ := body_head hw hp nonempty ending
  rw [eq]
  refine splitSign_append hs ?_ ?_
  · rintro _ ⟨⟩
    exact absurd starts (by decide)
  · rintro _ ⟨⟩
    exact absurd starts (by decide)

/-- **A real literal is taken apart into its parts.** -/
theorem decimal? (h : d.Written text) : Numeral.decimal? text = some d := by
  obtain ⟨hs, hw, hp, he, nonempty⟩ := h
  rename_i negative whole decimals sign point ending exponent
  obtain ⟨run, rest⟩ := takeWhile_digits hw (tail_stops hp he)
  have taken : Numeral.decimal? (sign ++ (whole ++ (point ++ ending))) = (do
      if whole.isEmpty && (behindPoint (point ++ ending)).1.isEmpty then none
      else return ⟨negative, whole, (behindPoint (point ++ ending)).1,
        ← splitExponent (behindPoint (point ++ ending)).2⟩) := by
    unfold Numeral.decimal?
    rw [splitSign_body hs hw hp nonempty]
    dsimp only
    rw [run, rest]
    rfl
  have there : (whole.isEmpty && decimals.isEmpty) = false := by
    rcases nonempty with some | some <;> simp [some]
  rw [taken, behindPoint_text hp he, splitExponent_power he]
  dsimp only
  rw [there]
  rfl

theorem notMem (h : d.Written text) {c : Char} (digit : Text.isAsciiDigit c = false)
    (mark : c ∉ ['.', 'e', 'E', '+', '-']) : c ∉ text := by
  obtain ⟨hs, hw, hp, he, -⟩ := h
  rw [List.mem_append]
  rintro (hc | hc)
  · cases hs <;> simp_all
  · rcases mem_body hw hp he hc with h | h
    · exact nomatch digit.symm.trans h
    · exact mark h

theorem ne_nil (h : d.Written text) : text ≠ [] := by
  cases h with
  | @mk _ _ _ _ _ ending _ _ hw hp _ nonempty =>
    obtain ⟨c, rest, eq, -⟩ := body_head hw hp nonempty ending
    rw [eq]
    simp

end Parts.Written

/-! ## § Reading -/

theorem takenIn_ten (decimal : base = 0 ∨ base = 10) : TakenIn base 10 :=
  decimal.elim (fun zero => .inr ⟨zero, rfl⟩) .inl

/-- No real literal starts with the mark of another base. -/
theorem splitBase_body {whole decimals : List Char} (hw : Digits whole)
    (hp : PointText decimals point) (he : PowerText exponent ending)
    (decimal : base = 0 ∨ base = 10) :
    splitBase base (whole ++ (point ++ ending)) = (10, whole ++ (point ++ ending)) := by
  have letter {c first : Char} {rest : List Char} (digit : Text.isAsciiDigit c = false)
      (mark : c ∉ ['.', 'e', 'E', '+', '-']) : whole ++ (point ++ ending) ≠ first :: c :: rest := by
    intro eq
    rcases mem_body hw hp he (c := c) (by simp [eq]) with h | h
    · exact nomatch digit.symm.trans h
    · exact mark h
  unfold splitBase
  rcases decimal with rfl | rfl
  · rw [if_pos rfl]
    split
    next eq => exact absurd eq (letter (by decide) (by decide))
    next eq => exact absurd eq (letter (by decide) (by decide))
    next eq => exact absurd eq (letter (by decide) (by decide))
    next eq => exact absurd eq (letter (by decide) (by decide))
    next => rfl
  · rfl

namespace Parts

/-- A real literal without a point and an exponent. -/
structure Whole (d : Parts) (text : List Char) : Prop where
  text : ∃ sign, Sign d.negative sign ∧ text = sign ++ d.whole
  run : Radix.Run 10 d.whole
  decimals : d.decimals = []
  exponent : d.exponent = none

/-- The integer that the digits before the point are, with the sign. -/
def integer (d : Parts) : Int := applySign d.negative (Radix.valueOf 10 d.whole)

namespace Whole

variable (h : d.Whole text)

include h

theorem number_eq : d.number = d.integer := by
  have size : d.size = Radix.valueOf 10 d.whole := by
    unfold Parts.size Parts.power
    rw [h.exponent, h.decimals]
    simp
  rw [number, integer, size]
  cases d.negative <;> simp [applySign]

theorem stands (decimal : base = 0 ∨ base = 10) (short : d.Short) :
    Stands base text d.integer := by
  obtain ⟨sign, hs, rfl⟩ := h.text
  exact stands_run (takenIn_ten decimal) (by decide) (by decide) hs h.run short.whole

theorem long (long : ¬d.Short) : ¬d.whole.length ≤ digitLimit := by
  intro short
  exact long ⟨short, by simp [h.decimals], by simp [h.exponent]⟩

theorem real_long (decimal : base = 0 ∨ base = 10) (long : ¬d.Short) :
    real text base = refuse (.tooManyDigits d.whole.length) := by
  obtain ⟨sign, hs, rfl⟩ := h.text
  have nonempty : (sign ++ d.whole).isEmpty = false := by simp [h.run.nonempty]
  have refused : integer? (sign ++ d.whole) base = refuse (.tooManyDigits d.whole.length) := by
    unfold integer?
    rw [splitSign_run hs h.run]
    dsimp only
    rw [splitBase_run (takenIn_ten decimal) (by decide) h.run]
    dsimp only
    rw [h.run.isAllDigits, if_pos rfl, Nat.cast_ofNat, natural_long (h.long long)]
    rfl
  unfold real
  rw [nonempty, refused]
  rfl

end Whole

/-- A real literal is an integer, or no integer is seen in it. -/
theorem Written.whole_or (h : d.Written text) (decimal : base = 0 ∨ base = 10) :
    d.Whole text ∨ integer? text base = .ok none := by
  obtain ⟨hs, hw, hp, he, nonempty⟩ := h
  rename_i negative whole decimals sign point ending exponent
  -- A mark behind the whole part is no digit.
  have mixed {c : Char} (hc : c ∈ point ++ ending) (mark : (Radix.alphabet 10).contains c = false) :
      integer? (sign ++ (whole ++ (point ++ ending))) base = .ok none := by
    have some : Radix.isAllDigits (whole ++ (point ++ ending)) 10 = false := by
      refine Bool.eq_false_iff.2 fun all => ?_
      obtain ⟨-, all⟩ := Bool.and_eq_true_iff.1 all
      have digit := List.all_eq_true.1 all c (List.mem_append_right _ hc)
      exact nomatch mark.symm.trans digit
    unfold integer?
    rw [Written.splitSign_body hs hw hp nonempty]
    dsimp only
    rw [splitBase_body hw hp he decimal]
    dsimp only
    rw [some]
    rfl
  cases hp with
  | point h => exact .inr (mixed (c := '.') (by simp) rfl)
  | none =>
    cases he with
    | @power mark _ _ _ hm =>
      refine .inr (mixed (c := mark) (by simp) ?_)
      rcases hm with rfl | rfl <;> rfl
    | none =>
      have digits : whole ≠ [] := nonempty.resolve_right fun h => h rfl
      exact .inl ⟨⟨sign, hs, by simp⟩, hw.run digits, rfl, rfl⟩

/-- **A decimal is read as what is kept of its value.** -/
theorem Written.real_decimal (h : d.Written text) (decimal : base = 0 ∨ base = 10)
    (other : integer? text base = .ok none) : real text base = d.value.map ofExact := by
  unfold real
  rw [List.isEmpty_eq_false_iff.2 h.ne_nil, other]
  show (if base ≠ 0 ∧ base ≠ 10 then _ else _ : Reading Scalar) = _
  rw [if_neg (by omega), h.decimal?]
  rfl

/-- **A literal with a run of too many digits is refused.** -/
theorem Written.real_long (h : d.Written text) (decimal : base = 0 ∨ base = 10)
    (long : ¬d.Short) :
    ∃ count, digitLimit < count ∧ real text base = refuse (.tooManyDigits count) := by
  rcases h.whole_or decimal with whole | other
  · exact ⟨_, Nat.lt_of_not_le (whole.long long), whole.real_long decimal long⟩
  · obtain ⟨count, many, value⟩ := value_long long
    refine ⟨count, many, ?_⟩
    rw [h.real_decimal decimal other, value]
    rfl

/-- A real literal is no quotient and not complex. -/
theorem Written.read_eq (h : d.Written text) (base : Int) :
    read (String.ofList text) base = real text base := by
  have no_slash : '/' ∉ text := h.notMem (by decide) (by decide)
  have no_j : 'j' ∉ text := h.notMem (by decide) (by decide)
  rw [read_rational fun hj => absurd hj no_j, rational, splitAt?_of_notMem no_slash]

end Parts

end Numeral

end ArrayCalc
