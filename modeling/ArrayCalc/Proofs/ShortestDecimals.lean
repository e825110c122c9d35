import ArrayCalc.Number.Decimal
import ArrayCalc.Proofs.LiteralWords
import ArrayCalc.Proofs.NearestDoubles

/-!
# Shortest decimals

The digits that are chosen for a double stand for a number that rounds to it.  A hit on a coarse grid
is one by the test of the search.  On the grid of seventeen digits the nearest number always is one,
since a double has less than a sixteenth digit's worth of neighbours.
-/

namespace ArrayCalc

/-! ## § Lengths -/

namespace Radix

variable {base n : Nat}

theorem places_bounds (hb : 2 ≤ base) (n : Nat) :
    n < base ^ (places base n).length ∧ (0 < n → base ^ ((places base n).length - 1) ≤ n) := by
  fun_induction places base n with
  | case1 n small =>
    refine ⟨?_, fun pos => pos⟩
    simpa using small.resolve_right (Nat.not_lt.2 hb)
  | case2 n large ih =>
    have more : base ≤ n := by omega
    have quotient : 0 < n / base := Nat.div_pos more (by omega)
    have some : 0 < (places base (n / base)).length := by
      rw [places]
      split <;> exact Nat.succ_pos _
    obtain ⟨below, least⟩ := ih
    rw [List.length_cons, Nat.add_sub_cancel]
    refine ⟨?_, fun _ => ?_⟩
    · rw [pow_succ]
      exact (Nat.div_lt_iff_lt_mul (by omega)).1 below
    · obtain ⟨rest, eq⟩ := Nat.exists_eq_add_of_lt some
      rw [Nat.zero_add] at eq
      have least := least quotient
      rw [eq, Nat.add_sub_cancel] at least
      rw [eq, pow_succ]
      exact (Nat.le_div_iff_mul_le (by omega)).1 least

theorem length_digitsOf (base n : Nat) : (digitsOf base n).length = (places base n).length := by
  simp [digitsOf]

/-- The length of a number tells its size. -/
theorem length_digitsOf_bounds (hb : 2 ≤ base) (pos : 0 < n) :
    base ^ ((digitsOf base n).length - 1) ≤ n ∧ n < base ^ (digitsOf base n).length := by
  obtain ⟨below, least⟩ := places_bounds hb n
  rw [length_digitsOf]
  exact ⟨least pos, below⟩

theorem length_digitsOf_eq (hb : 2 ≤ base) {count : Nat} (low : base ^ (count - 1) ≤ n)
    (high : n < base ^ count) (pos : 0 < count) : (digitsOf base n).length = count := by
  have some : 0 < n := (Nat.pow_pos (by omega)).trans_le low
  obtain ⟨least, below⟩ := length_digitsOf_bounds hb some
  have up : count - 1 < (digitsOf base n).length :=
    (Nat.pow_lt_pow_iff_right (by omega)).1 (low.trans_lt below)
  have down : (digitsOf base n).length - 1 < count :=
    (Nat.pow_lt_pow_iff_right (by omega)).1 (least.trans_lt high)
  omega

end Radix

namespace Decimal

open Double (Rounds Proper reach leadingBit roundDiv)

variable {num den : Nat}

/-! ## § The leading digit -/

theorem leadingExponent_spec (hn : 0 < num) (hd : 0 < den) :
    (10 : ℚ) ^ leadingExponent num den ≤ num / den ∧
      (num : ℚ) / den < 10 ^ (leadingExponent num den + 1) := by
  have pos : (0 : ℚ) < den := by exact_mod_cast hd
  obtain ⟨num_low, num_high⟩ := @Radix.length_digitsOf_bounds 10 num (by decide) hn
  obtain ⟨den_low, den_high⟩ := @Radix.length_digitsOf_bounds 10 den (by decide) hd
  have num_some : 0 < (Radix.digitsOf 10 num).length :=
    List.length_pos_of_ne_nil (Radix.digitsOf_ne_nil _ _)
  have den_some : 0 < (Radix.digitsOf 10 den).length :=
    List.length_pos_of_ne_nil (Radix.digitsOf_ne_nil _ _)
  unfold leadingExponent
  dsimp only
  generalize (Radix.digitsOf 10 num).length = a at *
  generalize (Radix.digitsOf 10 den).length = b at *
  have num_low : (10 : ℚ) ^ ((a : Int) - 1) ≤ num := by
    rw [← Nat.cast_pred num_some, zpow_natCast]
    exact_mod_cast num_low
  have den_low : (10 : ℚ) ^ ((b : Int) - 1) ≤ den := by
    rw [← Nat.cast_pred den_some, zpow_natCast]
    exact_mod_cast den_low
  have num_high : (num : ℚ) < 10 ^ (a : Int) := by exact_mod_cast num_high
  have den_high : (den : ℚ) < 10 ^ (b : Int) := by exact_mod_cast den_high
  have low : (10 : ℚ) ^ ((a : Int) - b - 1) ≤ num / den := by
    rw [le_div_iff₀ pos]
    calc (10 : ℚ) ^ ((a : Int) - b - 1) * den ≤ 10 ^ ((a : Int) - b - 1) * 10 ^ (b : Int) := by gcongr
      _ = 10 ^ ((a : Int) - 1) := zpow_mul_zpow (by norm_num) (by omega)
      _ ≤ num := num_low
  have high : (num : ℚ) / den < 10 ^ ((a : Int) - b + 1) := by
    rw [div_lt_iff₀ pos]
    calc (num : ℚ) < 10 ^ (a : Int) := num_high
      _ = 10 ^ ((a : Int) - b + 1) * 10 ^ ((b : Int) - 1) :=
        (zpow_mul_zpow (by norm_num) (by omega)).symm
      _ ≤ 10 ^ ((a : Int) - b + 1) * den := by gcongr
  split
  next reached => exact ⟨(tens_le_iff hd _).1 reached, high⟩
  next below =>
    refine ⟨low, ?_⟩
    rw [Int.sub_add_cancel]
    exact not_le.1 (mt (tens_le_iff hd _).2 below)

/-! ## § Digits on a grid -/

/-- What digits and their exponent stand for. -/
def Scientific.value (s : Scientific) : ℚ :=
  Radix.valueOf 10 s.digits * 10 ^ (s.exponent + 1 - s.digits.length)

/-- So many digits, from the place of `exponent` on or the one before it, that stand for `value`. -/
structure Scientific.Fits (s : Scientific) (value : ℚ) (count : Nat) (exponent : Int) : Prop where
  value : s.value = value
  length : s.digits.length = count
  digits : ∃ n, s.digits = Radix.digitsOf 10 n
  exponent : s.exponent = exponent ∨ s.exponent = exponent + 1

theorem normalize_fits {count digits : Nat} (pos : 0 < count) (low : 10 ^ (count - 1) ≤ digits)
    (high : digits ≤ 10 ^ count) (exponent : Int) :
    (normalize count digits exponent).Fits (digits * 10 ^ (exponent + 1 - count)) count exponent := by
  have before : tens ((count : Int) - 1) = 10 ^ (count - 1) := by rw [← Nat.cast_pred pos]; rfl
  have ten : count - 1 + 1 = count := Nat.sub_add_cancel pos
  unfold normalize
  split
  next full =>
    have length : (Radix.digitsOf 10 (tens ((count : Int) - 1))).length = count := by
      rw [before]
      exact Radix.length_digitsOf_eq (by decide) le_rfl
        (Nat.pow_lt_pow_right (by decide) (by omega)) pos
    refine ⟨?_, length, ⟨_, rfl⟩, .inr rfl⟩
    unfold Scientific.value
    dsimp only
    rw [length, Radix.valueOf_digitsOf (by decide) (by decide), full, before, tens_natCast,
      ← ten, pow_succ, ten]
    have next : exponent + 1 + 1 - count = exponent + 1 - count + 1 := by omega
    rw [next, zpow_add_one₀ (by norm_num)]
    push_cast
    ring
  next fits =>
    rw [tens_natCast] at fits
    have length : (Radix.digitsOf 10 digits).length = count :=
      Radix.length_digitsOf_eq (by decide) low (by omega) pos
    refine ⟨?_, length, ⟨_, rfl⟩, .inl rfl⟩
    unfold Scientific.value
    dsimp only
    rw [length, Radix.valueOf_digitsOf (by decide) (by decide)]

/-! ## § The search -/

section Search

variable {mantissa : Nat} {exponent : Int}

theorem neighbourhood_den_pos (mantissa : Nat) (exponent : Int) :
    0 < (neighbourhood mantissa exponent).den := twos_pos _

/-- A multiple of the scale of a neighbourhood over its denominator. -/
theorem scale_div (mantissa : Nat) (exponent : Int) (n : Nat) :
    ((n * twos (exponent - 2) : Nat) : ℚ) / (neighbourhood mantissa exponent).den
      = n / 4 * 2 ^ exponent := by
  have quarter : (2 : ℚ) ^ (exponent - 2) = 2 ^ exponent / 4 := by
    rw [zpow_sub₀ (by norm_num)]
    norm_num
  have scaled := scaled_twos n 1 (exponent - 2)
  rw [Nat.one_mul, Nat.cast_one, div_one, quarter] at scaled
  rw [neighbourhood, scaled]
  ring

theorem mid_div (mantissa : Nat) (exponent : Int) :
    ((neighbourhood mantissa exponent).mid : ℚ) / (neighbourhood mantissa exponent).den
      = mantissa * 2 ^ exponent := by
  have scaled := scale_div mantissa exponent (4 * mantissa)
  push_cast at scaled
  rw [mul_div_cancel_left₀ _ (by norm_num)] at scaled
  rw [← scaled]
  push_cast [neighbourhood]
  rfl

theorem high_div (mantissa : Nat) (exponent : Int) :
    ((neighbourhood mantissa exponent).high : ℚ) / (neighbourhood mantissa exponent).den
      = (mantissa + 1 / 2) * 2 ^ exponent := by
  refine (scale_div mantissa exponent (4 * mantissa + 2)).trans ?_
  push_cast
  ring

theorem low_div (some : mantissa ≠ 0) (exponent : Int) :
    ((neighbourhood mantissa exponent).low : ℚ) / (neighbourhood mantissa exponent).den
      = (mantissa - reach mantissa exponent) * 2 ^ exponent := by
  refine (scale_div mantissa exponent _).trans ?_
  unfold reach
  split
  · rw [Nat.cast_sub (by omega)]
    push_cast
    ring
  · rw [Nat.cast_sub (by omega)]
    push_cast
    ring

/-- **What a neighbourhood holds is what rounds to its double.** -/
theorem holds_iff {scale : Nat} (some : mantissa ≠ 0) (pos : 0 < scale) :
    (neighbourhood mantissa exponent).holds num scale = true ↔
      Rounds (num / scale) mantissa exponent := by
  have den_pos := neighbourhood_den_pos mantissa exponent
  have low := low_div some exponent
  have high := high_div mantissa exponent
  have closed : (neighbourhood mantissa exponent).closed = decide (mantissa % 2 = 0) := rfl
  unfold Neighbourhood.holds
  dsimp only
  rw [closed]
  by_cases even : mantissa % 2 = 0
  · simp only [even, decide_true, if_true, Bool.and_eq_true, decide_eq_true_eq,
      cross_le_iff den_pos pos, cross_le_iff pos den_pos, low, high]
    exact ⟨fun h => ⟨h.1, h.2, fun _ => even⟩, fun h => ⟨h.low, h.high⟩⟩
  · simp only [even, decide_false, Bool.false_eq_true, if_false, Bool.and_eq_true,
      decide_eq_true_eq, cross_lt_iff den_pos pos, cross_lt_iff pos den_pos, low, high]
    refine ⟨fun h => ⟨h.1.le, h.2.le, fun e => (e.elim h.1.ne' h.2.ne).elim⟩, fun h => ?_⟩
    exact ⟨h.low.lt_of_ne fun e => even (h.ends (.inl e.symm)),
      h.high.lt_of_ne fun e => even (h.ends (.inr e))⟩

/-- Digits that spell a double: few, and for a number that rounds to it. -/
structure Scientific.Spells (s : Scientific) (mantissa : Nat) (exponent : Int) : Prop where
  rounds : Rounds s.value mantissa exponent
  digits : ∃ n, s.digits = Radix.digitsOf 10 n
  few : s.digits.length ≤ 17
  within : s.exponent.natAbs < 1076

/-- The exponent of the leading digit of a double. -/
def leading (mantissa : Nat) (exponent : Int) : Int :=
  leadingExponent (neighbourhood mantissa exponent).mid (neighbourhood mantissa exponent).den

theorem leading_spec (some : mantissa ≠ 0) (exponent : Int) :
    (10 : ℚ) ^ leading mantissa exponent ≤ mantissa * 2 ^ exponent ∧
      (mantissa : ℚ) * 2 ^ exponent < 10 ^ (leading mantissa exponent + 1) := by
  have pos : 0 < (neighbourhood mantissa exponent).mid :=
    Nat.mul_pos (by omega) (twos_pos _)
  have spec := leadingExponent_spec pos (neighbourhood_den_pos mantissa exponent)
  rwa [mid_div] at spec

theorem leading_within (proper : Proper mantissa exponent) (some : mantissa ≠ 0) :
    -1076 < leading mantissa exponent ∧ leading mantissa exponent < 1074 := by
  obtain ⟨low, high⟩ := leading_spec some exponent
  have ten : (1 : ℚ) < 10 := by norm_num
  -- Finite doubles lie well between the powers of ten with the exponents of the extreme ones.
  have up {n : Int} (pos : 0 < n) : (2 : ℚ) ^ n < 10 ^ n :=
    zpow_lt_zpow_left₀ pos (by norm_num) (by norm_num)
  have down {n : Int} (pos : 0 < n) : (10 : ℚ) ^ (-n) < 2 ^ (-n) := by
    rw [zpow_neg, zpow_neg]
    exact (inv_lt_inv₀ (by positivity) (by positivity)).2 (up pos)
  constructor
  · have one : (1 : ℚ) ≤ mantissa := by exact_mod_cast Nat.one_le_iff_ne_zero.2 some
    have below : (10 : ℚ) ^ (-1074 : Int) < 10 ^ (leading mantissa exponent + 1) :=
      calc (10 : ℚ) ^ (-1074 : Int) < 2 ^ (-1074 : Int) := down (by norm_num)
        _ ≤ 2 ^ exponent := zpow_le_zpow_right₀ (by norm_num) proper.least
        _ ≤ mantissa * 2 ^ exponent := le_mul_of_one_le_left (by positivity) one
        _ < 10 ^ (leading mantissa exponent + 1) := high
    have := (zpow_lt_zpow_iff_right₀ ten).1 below
    omega
  · have short : (mantissa : ℚ) ≤ 2 * leadingBit := by exact_mod_cast proper.below.le
    have above : (10 : ℚ) ^ leading mantissa exponent < 10 ^ (1074 : Int) :=
      calc (10 : ℚ) ^ leading mantissa exponent ≤ mantissa * 2 ^ exponent := low
        _ ≤ 2 * leadingBit * 2 ^ exponent := by gcongr
        _ = 2 ^ (exponent + 53) := by
          rw [mul_assoc, Double.leadingBit_mul, ← zpow_one_add₀ (by norm_num)]
          congr 1
          omega
        _ ≤ 2 ^ (1074 : Int) := zpow_le_zpow_right₀ (by norm_num) (by have := proper.most; omega)
        _ < 10 ^ (1074 : Int) := up (by norm_num)
    exact (zpow_lt_zpow_iff_right₀ ten).1 above

theorem Scientific.Fits.spells {s : Scientific} {value : ℚ} {count : Nat}
    (h : s.Fits value count (leading mantissa exponent)) (rounds : Rounds value mantissa exponent)
    (few : count ≤ 17) (proper : Proper mantissa exponent) (some : mantissa ≠ 0) :
    s.Spells mantissa exponent := by
  obtain ⟨low, high⟩ := leading_within proper some
  refine ⟨h.value ▸ rounds, h.digits, h.length ▸ few, ?_⟩
  rcases h.exponent with e | e <;> omega

/-! ## § Hits -/

/-- The number in units of the last of `count` digits. -/
theorem scaled_mid (mantissa : Nat) (exponent shift : Int) :
    (((neighbourhood mantissa exponent).mid * tens shift : Nat) : ℚ)
      / ((neighbourhood mantissa exponent).den * tens (-shift) : Nat)
      = mantissa * 2 ^ exponent * 10 ^ shift := by
  rw [scaled_tens, mid_div]

/-- The multiple of the last place below a double has as many digits as asked for. -/
theorem below_bounds (some : mantissa ≠ 0) (exponent : Int) {count : Nat} (pos : 0 < count) :
    let shift := (count : Int) - 1 - leading mantissa exponent
    let below := (neighbourhood mantissa exponent).mid * tens shift
      / ((neighbourhood mantissa exponent).den * tens (-shift))
    10 ^ (count - 1) ≤ below ∧ below < 10 ^ count := by
  intro shift below
  have den_pos : 0 < (neighbourhood mantissa exponent).den * tens (-shift) :=
    Nat.mul_pos (neighbourhood_den_pos mantissa exponent) (tens_pos _)
  have den_pos' : (0 : ℚ) < ((neighbourhood mantissa exponent).den * tens (-shift) : Nat) := by
    exact_mod_cast den_pos
  have scaled := scaled_mid mantissa exponent shift
  obtain ⟨low, high⟩ := leading_spec some exponent
  have unit : (0 : ℚ) < 10 ^ shift := by positivity
  constructor
  · rw [Nat.le_div_iff_mul_le den_pos, ← @Nat.cast_le ℚ, Nat.cast_mul, ← le_div_iff₀ den_pos',
      scaled]
    calc ((10 ^ (count - 1) : Nat) : ℚ) = 10 ^ leading mantissa exponent * 10 ^ shift := by
          rw [← zpow_add₀ (by norm_num), Nat.cast_pow, ← zpow_natCast, Nat.cast_pred pos]
          congr 1
          omega
      _ ≤ mantissa * 2 ^ exponent * 10 ^ shift := by gcongr
  · rw [Nat.div_lt_iff_lt_mul den_pos, ← @Nat.cast_lt ℚ, Nat.cast_mul (10 ^ count),
      ← div_lt_iff₀ den_pos', scaled]
    calc (mantissa : ℚ) * 2 ^ exponent * 10 ^ shift
        < 10 ^ (leading mantissa exponent + 1) * 10 ^ shift := by gcongr
      _ = ((10 ^ count : Nat) : ℚ) := by
          rw [← zpow_add₀ (by norm_num), Nat.cast_pow, ← zpow_natCast]
          congr 1
          omega

/-- **A hit rounds to the double.** -/
theorem onGrid?_rounds (some : mantissa ≠ 0) {count digits : Nat} (pos : 0 < count)
    (h : (neighbourhood mantissa exponent).onGrid? (leading mantissa exponent) count
      = Option.some digits) :
    10 ^ (count - 1) ≤ digits ∧ digits ≤ 10 ^ count ∧
      Rounds (digits * 10 ^ (leading mantissa exponent + 1 - count)) mantissa exponent := by
  obtain ⟨low, high⟩ := below_bounds some exponent pos
  have hit {digits : Nat} (h : (neighbourhood mantissa exponent).holds
      (digits * tens (-((count : Int) - 1 - leading mantissa exponent)))
      (tens ((count : Int) - 1 - leading mantissa exponent)) = true) :
      Rounds (digits * 10 ^ (leading mantissa exponent + 1 - count)) mantissa exponent := by
    have rounds := (holds_iff some (tens_pos _)).1 h
    have scaled := scaled_tens digits 1 (-((count : Int) - 1 - leading mantissa exponent))
    rw [neg_neg, Nat.one_mul, Nat.cast_one, div_one] at scaled
    have place : -((count : Int) - 1 - leading mantissa exponent)
        = leading mantissa exponent + 1 - count := by omega
    rwa [scaled, place] at rounds
  unfold Neighbourhood.onGrid? at h
  dsimp only at h
  split at h
  next first second =>
    obtain rfl := Option.some.inj h
    rcases Double.roundDiv_floor ((neighbourhood mantissa exponent).mid
        * tens ((count : Int) - 1 - leading mantissa exponent))
        ((neighbourhood mantissa exponent).den
          * tens (-((count : Int) - 1 - leading mantissa exponent))) with e | e
    · exact ⟨e ▸ low, by omega, hit (e ▸ first)⟩
    · exact ⟨by omega, by omega, hit (e ▸ second)⟩
  next first second =>
    obtain rfl := Option.some.inj h
    exact ⟨low, high.le, hit first⟩
  next first second =>
    obtain rfl := Option.some.inj h
    exact ⟨by omega, high, hit second⟩
  next => exact nomatch h

/-- Half of the seventeenth digit is less than what rounds to a double on either side. -/
theorem half_digit_lt_reach (proper : Proper mantissa exponent) :
    1 / 2 * (mantissa / 10 ^ 16 : ℚ) < reach mantissa exponent := by
  have below : (mantissa : ℚ) < 2 * 0x10000000000000 := by exact_mod_cast proper.below
  unfold reach
  split
  next h =>
    rw [h.1]
    norm_num [leadingBit]
  next => linarith

/-- Seventeen digits are close enough to a double. -/
theorem rounds_of_seventeen (proper : Proper mantissa exponent) (some : mantissa ≠ 0) {digits : Nat}
    (near : |(digits : ℚ) - mantissa * 2 ^ exponent * 10 ^ (16 - leading mantissa exponent)| ≤ 1 / 2) :
    Rounds (digits * 10 ^ (leading mantissa exponent - 16)) mantissa exponent := by
  obtain ⟨low, -⟩ := leading_spec some exponent
  have unit : (0 : ℚ) < 10 ^ (leading mantissa exponent - 16) := by positivity
  have back : (10 : ℚ) ^ (16 - leading mantissa exponent) * 10 ^ (leading mantissa exponent - 16)
      = 1 := by
    rw [← zpow_add₀ (by norm_num)]
    simp
  have place : (10 : ℚ) ^ (leading mantissa exponent - 16)
      = 10 ^ leading mantissa exponent / 10 ^ 16 := by
    rw [zpow_sub₀ (by norm_num)]
    norm_cast
  refine .of_near ?_
  calc |(digits : ℚ) * 10 ^ (leading mantissa exponent - 16) - mantissa * 2 ^ exponent|
      = |(digits : ℚ) - mantissa * 2 ^ exponent * 10 ^ (16 - leading mantissa exponent)|
          * 10 ^ (leading mantissa exponent - 16) := by
        rw [← abs_of_pos unit, ← abs_mul, abs_of_pos unit, sub_mul, mul_assoc _ (10 ^ _), back,
          mul_one]
    _ ≤ 1 / 2 * 10 ^ (leading mantissa exponent - 16) := by gcongr
    _ = 1 / 2 * (10 ^ leading mantissa exponent / 10 ^ 16) := by rw [place]
    _ ≤ 1 / 2 * (mantissa * 2 ^ exponent / 10 ^ 16) := by gcongr
    _ = 1 / 2 * (mantissa / 10 ^ 16) * 2 ^ exponent := by ring
    _ < reach mantissa exponent * 2 ^ exponent := by
        have := half_digit_lt_reach proper
        gcongr

theorem significant_spells (proper : Proper mantissa exponent) (some : mantissa ≠ 0) :
    (significant 17 (neighbourhood mantissa exponent).mid
      (neighbourhood mantissa exponent).den).Spells mantissa exponent := by
  obtain ⟨low, high⟩ := @below_bounds mantissa some exponent 17 (by decide)
  have shift : ((17 : Nat) : Int) - 1 - leading mantissa exponent
      = 16 - leading mantissa exponent := by omega
  rw [shift] at low high
  have near := Double.abs_roundDiv_sub ((neighbourhood mantissa exponent).mid
    * tens (16 - leading mantissa exponent))
    (Nat.mul_pos (neighbourhood_den_pos mantissa exponent)
      (tens_pos (-(16 - leading mantissa exponent))))
  rw [scaled_mid] at near
  have rounds := rounds_of_seventeen proper some near
  have floor := Double.roundDiv_floor ((neighbourhood mantissa exponent).mid
    * tens (16 - leading mantissa exponent))
    ((neighbourhood mantissa exponent).den * tens (-(16 - leading mantissa exponent)))
  show (normalize 17 (roundDiv ((neighbourhood mantissa exponent).mid
    * tens (((17 : Nat) : Int) - 1 - leading mantissa exponent))
    ((neighbourhood mantissa exponent).den
      * tens (-(((17 : Nat) : Int) - 1 - leading mantissa exponent))))
    (leading mantissa exponent)).Spells mantissa exponent
  rw [shift]
  have last : leading mantissa exponent - 16 = leading mantissa exponent + 1 - (17 : Nat) := by
    omega
  rw [last] at rounds
  refine (normalize_fits (by decide) ?_ ?_ _).spells rounds le_rfl proper some
  · rcases floor with e | e <;> omega
  · rcases floor with e | e <;> omega

theorem search_spells (proper : Proper mantissa exponent) (some : mantissa ≠ 0) {tries count : Nat}
    (pos : 0 < count) (few : count + tries ≤ 18) :
    ((neighbourhood mantissa exponent).search (leading mantissa exponent) count tries).Spells
      mantissa exponent := by
  induction tries generalizing count with
  -- With no hit all seventeen digits are used, which are always enough.
  | zero => exact significant_spells proper some
  | succ tries ih =>
    unfold Neighbourhood.search
    split
    next digits hit =>
      obtain ⟨low, high, rounds⟩ := onGrid?_rounds some pos hit
      exact (normalize_fits pos low high _).spells rounds (by omega) proper some
    next => exact ih (Nat.succ_pos _) (by omega)

/-- **The shortest digits of a double stand for a number that rounds to it.** -/
theorem shortest_spells (proper : Proper mantissa exponent) (some : mantissa ≠ 0) :
    (shortest mantissa exponent).Spells mantissa exponent :=
  search_spells proper some (by decide) (by decide)

end Search

end Decimal

end ArrayCalc
