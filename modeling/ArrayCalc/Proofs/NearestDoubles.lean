import ArrayCalc.Proofs.DoubleWords
import Mathlib.Algebra.Order.Field.Power
import Mathlib.Data.Rat.Lemmas
import Mathlib.Tactic.FieldSimp
import Mathlib.Tactic.Linarith
import Mathlib.Tactic.NormNum
import Mathlib.Tactic.Positivity
import Mathlib.Tactic.Ring

/-!
# Nearest doubles

The numbers that round to a double make an interval around it, which reaches half way to either
neighbour.  The ends belong to it if the mantissa is even.  Below a power of two the doubles lie twice
as dense.
-/

namespace ArrayCalc

/-! ## § Powers -/

section Powers

variable {num den num' den' : Nat}

/-- Quotients are compared by products. -/
theorem cross_le_iff (hd : 0 < den) (hd' : 0 < den') :
    num * den' ≤ num' * den ↔ (num : ℚ) / den ≤ num' / den' := by
  rw [div_le_div_iff₀ (by exact_mod_cast hd) (by exact_mod_cast hd')]
  exact_mod_cast Iff.rfl

theorem cross_lt_iff (hd : 0 < den) (hd' : 0 < den') :
    num * den' < num' * den ↔ (num : ℚ) / den < num' / den' := by
  rw [← not_le, ← not_le, cross_le_iff hd' hd]

theorem zpow_mul_zpow {b : ℚ} (hb : b ≠ 0) {m n k : Int} (h : m + n = k) :
    b ^ m * b ^ n = b ^ k := by rw [← zpow_add₀ hb, h]

theorem pow_toNat_div (b : ℚ) (e : Int) : b ^ e.toNat / b ^ (-e).toNat = b ^ e := by
  rcases Int.le_total 0 e with h | h
  · obtain ⟨n, rfl⟩ := Int.eq_ofNat_of_zero_le h
    simp
  · obtain ⟨n, hn⟩ := Int.eq_ofNat_of_zero_le (Int.neg_nonneg_of_nonpos h)
    obtain rfl : e = -n := by omega
    simp

/-- A quotient with a power in its numerator or in its denominator. -/
theorem scaled_pow (num den b : Nat) (e : Int) :
    ((num * b ^ e.toNat : Nat) : ℚ) / (den * b ^ (-e).toNat : Nat) = num / den * (b : ℚ) ^ e := by
  rw [← pow_toNat_div]
  push_cast
  exact mul_div_mul_comm _ _ _ _

theorem pow_le_iff {b : Nat} (hb : 0 < b) (hd : 0 < den) (e : Int) :
    den * b ^ e.toNat ≤ num * b ^ (-e).toNat ↔ (b : ℚ) ^ e ≤ num / den := by
  rw [Nat.mul_comm den, cross_le_iff (Nat.pow_pos hb) hd, Nat.cast_pow, Nat.cast_pow, pow_toNat_div]

theorem tens_natCast (n : Nat) : tens n = 10 ^ n := rfl

theorem twos_pos (e : Int) : 0 < twos e := Nat.pow_pos (by decide)

theorem tens_pos (e : Int) : 0 < tens e := Nat.pow_pos (by decide)

theorem scaled_twos (num den : Nat) (e : Int) :
    ((num * twos e : Nat) : ℚ) / (den * twos (-e) : Nat) = num / den * 2 ^ e :=
  scaled_pow num den 2 e

theorem scaled_tens (num den : Nat) (e : Int) :
    ((num * tens e : Nat) : ℚ) / (den * tens (-e) : Nat) = num / den * 10 ^ e :=
  scaled_pow num den 10 e

theorem twos_le_iff (hd : 0 < den) (e : Int) :
    den * twos e ≤ num * twos (-e) ↔ (2 : ℚ) ^ e ≤ num / den := pow_le_iff (by decide) hd e

theorem tens_le_iff (hd : 0 < den) (e : Int) :
    den * tens e ≤ num * tens (-e) ↔ (10 : ℚ) ^ e ≤ num / den := pow_le_iff (by decide) hd e

end Powers

namespace Double

variable {num den : Nat}

/-! ## § Quotients rounded to integers -/

theorem roundDiv_floor (num den : Nat) :
    roundDiv num den = num / den ∨ roundDiv num den = num / den + 1 := by
  unfold roundDiv
  dsimp only
  split
  · exact .inl rfl
  split
  · exact .inr rfl
  · omega

theorem roundDiv_bounds (num : Nat) (hd : 0 < den) :
    2 * num ≤ 2 * (roundDiv num den * den) + den ∧ 2 * (roundDiv num den * den) ≤ 2 * num + den := by
  have split := Nat.div_add_mod' num den
  have rest := Nat.mod_lt num hd
  have next : (num / den + 1) * den = num / den * den + den := by ring
  unfold roundDiv
  dsimp only
  split
  · omega
  split
  · omega
  · have parity : num / den % 2 = 0 ∨ num / den % 2 = 1 := by omega
    rcases parity with h | h
    · rw [h, Nat.add_zero]
      omega
    · rw [h]
      omega

theorem roundDiv_eq {n : Nat} (hd : 0 < den) (high : 2 * num ≤ 2 * (n * den) + den)
    (low : 2 * (n * den) ≤ 2 * num + den)
    (tie : 2 * num = 2 * (n * den) + den ∨ 2 * (n * den) = 2 * num + den → n % 2 = 0) :
    roundDiv num den = n := by
  have split := Nat.div_add_mod' num den
  have rest := Nat.mod_lt num hd
  -- The integer is the quotient or the next one.
  have near : n = num / den ∨ n = num / den + 1 := by
    have above : num / den ≤ n := by
      by_contra h
      have : (n + 1) * den ≤ num / den * den := Nat.mul_le_mul_right den (by omega)
      have next : (n + 1) * den = n * den + den := by ring
      omega
    have below : n ≤ num / den + 1 := by
      by_contra h
      have : (num / den + 2) * den ≤ n * den := Nat.mul_le_mul_right den (by omega)
      have next : (num / den + 2) * den = num / den * den + 2 * den := by ring
      omega
    omega
  have next : (num / den + 1) * den = num / den * den + den := by ring
  unfold roundDiv
  dsimp only
  rcases near with rfl | rfl
  · split
    · rfl
    split
    · omega
    · have even := tie (by omega)
      omega
  · split
    · omega
    split
    · rfl
    · have even := tie (by omega)
      omega

theorem abs_roundDiv_sub (num : Nat) (hd : 0 < den) :
    |(roundDiv num den : ℚ) - num / den| ≤ 1 / 2 := by
  have pos : (0 : ℚ) < den := by exact_mod_cast hd
  obtain ⟨high, low⟩ := roundDiv_bounds num hd
  have high : (2 * num : ℚ) ≤ 2 * (roundDiv num den * den) + den := by exact_mod_cast high
  have low : (2 * (roundDiv num den * den) : ℚ) ≤ 2 * num + den := by exact_mod_cast low
  have cancel : (num : ℚ) / den * den = num := div_mul_cancel₀ _ pos.ne'
  rw [abs_sub_le_iff]
  constructor <;> nlinarith

theorem roundDiv_of_near {n : Nat} (hd : 0 < den) (high : (num : ℚ) / den ≤ n + 1 / 2)
    (low : n - 1 / 2 ≤ (num : ℚ) / den)
    (tie : (num : ℚ) / den = n + 1 / 2 ∨ (num : ℚ) / den = n - 1 / 2 → n % 2 = 0) :
    roundDiv num den = n := by
  have pos : (0 : ℚ) < den := by exact_mod_cast hd
  rw [div_le_iff₀ pos] at high
  rw [le_div_iff₀ pos] at low
  rw [div_eq_iff pos.ne', div_eq_iff pos.ne'] at tie
  refine roundDiv_eq hd ?_ ?_ fun h => tie ?_
  · rw [← @Nat.cast_le ℚ]
    push_cast
    linarith
  · rw [← @Nat.cast_le ℚ]
    push_cast
    linarith
  · rw [← @Nat.cast_inj ℚ, ← @Nat.cast_inj ℚ] at h
    push_cast at h
    exact h.imp (fun h => by linarith) fun h => by linarith

/-! ## § The last place -/

/-- The place of the last of 53 bits, were exponents not limited. -/
theorem lastPlace_eq (hn : 0 < num) (hd : 0 < den) :
    ∃ place : Int, (2 : ℚ) ^ (place + 52) ≤ num / den ∧ (num : ℚ) / den < 2 ^ (place + 53) ∧
      lastPlace num den = max place (-1074) := by
  have pos : (0 : ℚ) < den := by exact_mod_cast hd
  have num_low : (2 : ℚ) ^ (num.log2 : Int) ≤ num := by exact_mod_cast Nat.log2_self_le hn.ne'
  have num_high : (num : ℚ) < 2 ^ ((num.log2 : Int) + 1) := by
    exact_mod_cast @Nat.lt_log2_self num
  have den_low : (2 : ℚ) ^ (den.log2 : Int) ≤ den := by exact_mod_cast Nat.log2_self_le hd.ne'
  have den_high : (den : ℚ) < 2 ^ ((den.log2 : Int) + 1) := by
    exact_mod_cast @Nat.lt_log2_self den
  obtain ⟨guess, hg⟩ : ∃ guess, (num.log2 : Int) - den.log2 - 53 = guess := ⟨_, rfl⟩
  have low : (2 : ℚ) ^ (guess + 52) < num / den := by
    rw [lt_div_iff₀ pos]
    calc (2 : ℚ) ^ (guess + 52) * den < 2 ^ (guess + 52) * 2 ^ ((den.log2 : Int) + 1) := by gcongr
      _ = 2 ^ (num.log2 : Int) := zpow_mul_zpow (by norm_num) (by omega)
      _ ≤ num := num_low
  have high : (num : ℚ) / den < 2 ^ (guess + 54) := by
    rw [div_lt_iff₀ pos]
    calc (num : ℚ) < 2 ^ ((num.log2 : Int) + 1) := num_high
      _ = 2 ^ (guess + 54) * 2 ^ (den.log2 : Int) := (zpow_mul_zpow (by norm_num) (by omega)).symm
      _ ≤ 2 ^ (guess + 54) * den := by gcongr
  have reached := @twos_le_iff num den hd (53 + guess)
  unfold lastPlace
  dsimp only
  rw [hg]
  split
  next h =>
    have least : guess + 1 + 52 = 53 + guess := by omega
    have most : guess + 1 + 53 = guess + 54 := by omega
    exact ⟨guess + 1, least ▸ reached.1 h, most ▸ high, rfl⟩
  next h => exact ⟨guess, low.le, by rw [add_comm]; exact not_le.1 (mt reached.2 h), rfl⟩

theorem lastPlace_spec (hn : 0 < num) (hd : 0 < den) :
    -1074 ≤ lastPlace num den ∧ (num : ℚ) / den < 2 ^ (lastPlace num den + 53) ∧
      (lastPlace num den = -1074 ∨ (2 : ℚ) ^ (lastPlace num den + 52) ≤ num / den) := by
  obtain ⟨place, low, high, eq⟩ := lastPlace_eq hn hd
  rw [eq]
  refine ⟨le_max_right _ _, high.trans_le ?_, ?_⟩
  · exact zpow_le_zpow_right₀ (by norm_num) (by omega)
  · rcases max_choice place (-1074) with h | h
    · exact .inr (by rwa [h])
    · exact .inl h

/-! ## § What rounds to a double -/

/-- How far the numbers that round to a double reach below it, in units of its last place. -/
def reach (mantissa : Nat) (exponent : Int) : ℚ :=
  if mantissa = leadingBit ∧ exponent > -1074 then 1 / 4 else 1 / 2

/-- A number that rounds to `mantissa * 2 ^ exponent`. -/
structure Rounds (q : ℚ) (mantissa : Nat) (exponent : Int) : Prop where
  low : (mantissa - reach mantissa exponent) * 2 ^ exponent ≤ q
  high : q ≤ (mantissa + 1 / 2) * 2 ^ exponent
  ends : q = (mantissa - reach mantissa exponent) * 2 ^ exponent ∨
    q = (mantissa + 1 / 2) * 2 ^ exponent → mantissa % 2 = 0

variable {q : ℚ} {mantissa : Nat} {exponent : Int}

theorem reach_le (mantissa : Nat) (exponent : Int) :
    1 / 4 ≤ reach mantissa exponent ∧ reach mantissa exponent ≤ 1 / 2 := by
  unfold reach
  split <;> norm_num

/-- Numbers that are closer to a double than the ends round to it. -/
theorem Rounds.of_near (h : |q - mantissa * 2 ^ exponent| < reach mantissa exponent * 2 ^ exponent) :
    Rounds q mantissa exponent := by
  have unit : (0 : ℚ) < 2 ^ exponent := by positivity
  have most := (reach_le mantissa exponent).2
  obtain ⟨below, above⟩ := abs_lt.1 h
  have low : (mantissa - reach mantissa exponent) * 2 ^ exponent < q := by linarith
  have high : q < (mantissa + 1 / 2) * 2 ^ exponent := by nlinarith
  exact ⟨low.le, high.le, fun h => (h.elim low.ne' high.ne).elim⟩

theorem Rounds.pos (h : Rounds q mantissa exponent) (some : mantissa ≠ 0) : 0 < q := by
  have unit : (0 : ℚ) < 2 ^ exponent := by positivity
  have one : (1 : ℚ) ≤ mantissa := by exact_mod_cast Nat.one_le_iff_ne_zero.2 some
  have most := (reach_le mantissa exponent).2
  have : 0 < (mantissa - reach mantissa exponent) * 2 ^ exponent :=
    mul_pos (by linarith) unit
  exact this.trans_le h.low

theorem leadingBit_mul (exponent : Int) : (leadingBit : ℚ) * 2 ^ exponent = 2 ^ (exponent + 52) := by
  rw [zpow_add₀ (by norm_num), mul_comm]
  norm_num [leadingBit]

/-- The last place of a number is that of the double it rounds to, or the one before if it lies below
a power of two that it rounds up to. -/
theorem Rounds.lastPlace (h : Rounds (num / den) mantissa exponent)
    (proper : Proper mantissa exponent) (hn : 0 < num) (hd : 0 < den) :
    lastPlace num den = exponent ∨
      lastPlace num den = exponent - 1 ∧ mantissa = leadingBit ∧ exponent > -1074 ∧
        (num : ℚ) / den < leadingBit * 2 ^ exponent := by
  obtain ⟨least, below, reached⟩ := lastPlace_spec hn hd
  generalize Double.lastPlace num den = place at *
  have unit : (0 : ℚ) < 2 ^ exponent := by positivity
  have most := (reach_le mantissa exponent).2
  have big : (1 : ℚ) < leadingBit := by norm_num [leadingBit]
  have up_to {a b : Int} (h : a ≤ b) : (2 : ℚ) ^ a ≤ 2 ^ b := zpow_le_zpow_right₀ (by norm_num) h
  have twice : (2 : ℚ) ^ (exponent + 53) = 2 * leadingBit * 2 ^ exponent := by
    rw [mul_assoc, leadingBit_mul, ← zpow_one_add₀ (by norm_num)]
    congr 1
    omega
  have half : (2 : ℚ) ^ (exponent + 51) = leadingBit / 2 * 2 ^ exponent := by
    rw [div_mul_eq_mul_div, leadingBit_mul, eq_div_iff (by norm_num), ← zpow_add_one₀ (by norm_num)]
    congr 1
    omega
  have not_above : place ≤ exponent := by
    by_contra above
    have least := proper.least
    have reached := (up_to (by omega : exponent + 53 ≤ place + 52)).trans
      (reached.resolve_left (by omega))
    have bound : (mantissa : ℚ) + 1 ≤ 2 * leadingBit := by exact_mod_cast proper.below
    have := h.high
    nlinarith
  rcases not_above.eq_or_lt with same | lower
  · exact .inl same
  · have inner : exponent > -1074 := by omega
    have full := proper.leading.resolve_right (by omega)
    have full' : (leadingBit : ℚ) ≤ mantissa := by exact_mod_cast full
    have under : (num : ℚ) / den < leadingBit * 2 ^ exponent := by
      rw [leadingBit_mul]
      exact below.trans_le (up_to (by omega))
    have low := h.low
    have exact : mantissa = leadingBit := by
      by_contra other
      have more : (leadingBit : ℚ) + 1 ≤ mantissa := by
        exact_mod_cast (by omega : leadingBit + 1 ≤ mantissa)
      nlinarith
    have not_below : exponent - 1 ≤ place := by
      by_contra further
      have := below.trans_le (up_to (by omega : place + 53 ≤ exponent + 51))
      nlinarith
    exact .inr ⟨by omega, exact, inner, under⟩

/-- The mantissa of the last place is the number in units of it, rounded to an integer. -/
theorem roundDiv_scaled {n : Nat} {place : Int} (hd : 0 < den)
    (high : (num : ℚ) / den ≤ (n + 1 / 2) * 2 ^ place)
    (low : (n - 1 / 2) * 2 ^ place ≤ (num : ℚ) / den)
    (tie : (num : ℚ) / den = (n + 1 / 2) * 2 ^ place ∨
      (num : ℚ) / den = (n - 1 / 2) * 2 ^ place → n % 2 = 0) :
    roundDiv (num * twos (-place)) (den * twos place) = n := by
  have unit : (0 : ℚ) < 2 ^ place := by positivity
  have scaled : ((num * twos (-place) : Nat) : ℚ) / (den * twos place : Nat)
      = num / den / 2 ^ place := by
    have := scaled_twos num den (-place)
    rw [neg_neg] at this
    rw [this, zpow_neg, div_eq_mul_inv _ (2 ^ place)]
  refine roundDiv_of_near (Nat.mul_pos hd (twos_pos place)) ?_ ?_ fun h => tie ?_
  · rwa [scaled, div_le_iff₀ unit]
  · rwa [scaled, le_div_iff₀ unit]
  · rwa [scaled, div_eq_iff unit.ne', div_eq_iff unit.ne'] at h

/-- **A quotient that rounds to a double has it as its nearest double.** -/
theorem ofQuotient?_of_rounds (h : Rounds (num / den) mantissa exponent)
    (proper : Proper mantissa exponent) (some : mantissa ≠ 0) (hd : 0 < den) :
    ofQuotient? num den = Option.some (ofSize (rank mantissa exponent)) := by
  have pos : (0 : ℚ) < num / den := h.pos some
  have hn : 0 < num := by
    refine Nat.pos_of_ne_zero fun zero => ?_
    rw [zero, Nat.cast_zero, zero_div] at pos
    exact lt_irrefl _ pos
  have word : (lastPlace num den + 1074).toNat * leadingBit
      + roundDiv (num * twos (-lastPlace num den)) (den * twos (lastPlace num den))
      = rank mantissa exponent := by
    have unit : (0 : ℚ) < 2 ^ exponent := by positivity
    have most := (reach_le mantissa exponent).2
    rcases h.lastPlace proper hn hd with eq | ⟨eq, rfl, inner, under⟩
    · have low := h.low
      rw [eq, rank, roundDiv_scaled hd h.high (by nlinarith)]
      rintro (high | low')
      · exact h.ends (.inr high)
      · have wide : reach mantissa exponent = 1 / 2 := by
          rw [low'] at low
          exact le_antisymm most (by nlinarith)
        exact h.ends (.inl (wide ▸ low'))
    · have dense : reach leadingBit exponent = 1 / 4 := if_pos ⟨rfl, inner⟩
      have low := h.low
      have double : (2 : ℚ) ^ exponent = 2 * 2 ^ (exponent - 1) := by
        rw [← zpow_one_add₀ (by norm_num)]
        congr 1
        omega
      rw [dense, double] at low
      rw [double] at under
      have rounded : roundDiv (num * twos (-(exponent - 1))) (den * twos (exponent - 1))
          = 2 * leadingBit := by
        refine roundDiv_scaled hd ?_ ?_ fun _ => Nat.mul_mod_right 2 _
        · push_cast
          nlinarith
        · push_cast
          nlinarith
      rw [eq, rounded, rank]
      unfold leadingBit
      omega
  unfold ofQuotient?
  rw [if_neg hn.ne']
  dsimp only
  rw [word, if_pos proper.rank_lt]
  rfl

/-! ## § Signs -/

/-- The exact value of a finite double. -/
theorem toRat?_of_magnitude {x : Float} (h : magnitude x = .finite mantissa exponent) :
    toRat? x = some (if isNegative x then -((mantissa : ℚ) * 2 ^ exponent)
      else mantissa * 2 ^ exponent) := by
  have size : (if 0 ≤ exponent then ((mantissa * twos exponent : Nat) : ℚ)
      else mkRat mantissa (twos (-exponent))) = mantissa * 2 ^ exponent := by
    have scaled := scaled_twos mantissa 1 exponent
    rw [Nat.one_mul, Nat.cast_one, div_one] at scaled
    rw [← scaled]
    split
    next up =>
      have one : twos (-exponent) = 1 := by simp [twos, Int.toNat_of_nonpos (neg_nonpos.2 up)]
      rw [one, Nat.cast_one, div_one]
    next down =>
      have one : twos exponent = 1 := by simp [twos, Int.toNat_of_nonpos (le_of_not_ge down)]
      rw [one, Nat.mul_one, Rat.mkRat_eq_div, Int.cast_natCast]
  unfold toRat?
  rw [h]
  dsimp only
  rw [size]

/-- A double other than zero that has an exact value. -/
theorem finite_of_toRat? {x : Float} (h : toRat? x = some q) (some : q ≠ 0) :
    ∃ mantissa exponent, magnitude x = .finite mantissa exponent ∧ mantissa ≠ 0 ∧
      |q| = mantissa * 2 ^ exponent ∧ (q < 0 ↔ isNegative x = true) := by
  cases hm : magnitude x with
  | infinite | nan => simp [toRat?, hm] at h
  | finite mantissa exponent =>
    rw [toRat?_of_magnitude hm] at h
    obtain rfl := Option.some.inj h
    have unit : (0 : ℚ) < 2 ^ exponent := by positivity
    have there : mantissa ≠ 0 := by
      rintro rfl
      simp at some
    have pos : (0 : ℚ) < mantissa * 2 ^ exponent :=
      mul_pos (by exact_mod_cast Nat.pos_of_ne_zero there) unit
    refine ⟨mantissa, exponent, rfl, there, ?_, ?_⟩
    · split
      · rw [abs_neg, abs_of_pos pos]
      · exact abs_of_pos pos
    · split
      next negative => simp [negative, pos]
      next positive => simp [positive, pos.le]

/-- **A number that rounds to a double has it as its nearest double.** -/
theorem nearest?_of_rounds {x : Float} (hx : magnitude x = .finite mantissa exponent)
    (some : mantissa ≠ 0) (h : Rounds |q| mantissa exponent) (sign : q < 0 ↔ isNegative x = true) :
    nearest? q = Option.some x := by
  obtain ⟨proper, -⟩ := proper_of_magnitude hx
  have quotient : |q| = (q.num.natAbs : ℚ) / q.den := by
    rw [Rat.abs_def, Rat.divInt_eq_div, Int.cast_natCast, Int.cast_natCast]
  unfold nearest?
  rw [ofQuotient?_of_rounds (quotient ▸ h) proper some q.den_pos, Option.map_some]
  conv_rhs => rw [eq_of_rank hx]
  simp only [Rat.num_neg, sign]

/-- A rounded quotient has no sign of its own. -/
theorem ofQuotient?_size {x : Float} (h : ofQuotient? num den = some x) :
    ∃ n, n ≤ 2047 * leadingBit ∧ x = ofSize n := by
  unfold ofQuotient? at h
  split at h
  next =>
    obtain rfl := Option.some.inj h
    exact ⟨0, Nat.zero_le _, by decide +kernel⟩
  next =>
    dsimp only at h
    split at h
    next small =>
      obtain rfl := Option.some.inj h
      exact ⟨_, small.le, rfl⟩
    next => exact nomatch h

/-- **The nearest double is zero or has the sign of the number.** -/
theorem nearest?_sign {x : Float} {r : ℚ} (near : nearest? q = some x) (value : toRat? x = some r)
    (some : r ≠ 0) : 0 < r * q := by
  have there : q ≠ 0 := by
    rintro rfl
    have zero : toRat? 0 = Option.some 0 := by decide +kernel
    obtain rfl := Option.some.inj near
    exact some (Option.some.inj (value.symm.trans zero))
  obtain ⟨-, -, -, -, -, sign⟩ := finite_of_toRat? value some
  obtain ⟨size, hs, rfl⟩ := Option.map_eq_some_iff.1 near
  obtain ⟨n, bound, rfl⟩ := ofQuotient?_size hs
  have bits := toBits_ofSize bound
  have small : n < signBit := bound.trans_lt (by decide)
  unfold isNegative at sign
  rcases there.lt_or_gt with below | above
  · rw [if_pos (Rat.num_neg.2 below), toBits_neg (by rwa [bits]), bits] at sign
    have : r < 0 := sign.2 (decide_eq_true (Nat.le_add_right _ _))
    exact mul_pos_of_neg_of_neg this below
  · rw [if_neg (not_lt.2 (Rat.num_nonneg.2 above.le)), bits] at sign
    have : ¬r < 0 := fun h => absurd (of_decide_eq_true (sign.1 h)) (by omega)
    exact mul_pos (lt_of_le_of_ne (not_lt.1 this) some.symm) above
/-! ## § Numbers that are not too large -/

/-- The mantissa of a quotient in units of its last place, rounding up included. -/
theorem roundDiv_lastPlace_le (hn : 0 < num) (hd : 0 < den) :
    roundDiv (num * twos (-lastPlace num den)) (den * twos (lastPlace num den))
      ≤ 2 * leadingBit := by
  obtain ⟨-, below, -⟩ := lastPlace_spec hn hd
  generalize lastPlace num den = place at *
  have unit : (0 : ℚ) < 2 ^ place := by positivity
  have scaled : ((num * twos (-place) : Nat) : ℚ) / (den * twos place : Nat)
      = num / den / 2 ^ place := by
    have := scaled_twos num den (-place)
    rw [neg_neg] at this
    rw [this, zpow_neg, div_eq_mul_inv _ (2 ^ place)]
  have small : num * twos (-place) / (den * twos place) < 2 * leadingBit := by
    have units : (num : ℚ) / den / 2 ^ place < 2 ^ 53 := by
      rw [div_lt_iff₀ unit, ← zpow_natCast, ← zpow_add₀ (by norm_num), add_comm]
      exact below
    rw [Nat.div_lt_iff_lt_mul (Nat.mul_pos hd (twos_pos place))]
    have positive : (0 : ℚ) < (den * twos place : Nat) := by
      exact_mod_cast Nat.mul_pos hd (twos_pos place)
    rw [← scaled, div_lt_iff₀ positive] at units
    exact_mod_cast units
  have rounded := roundDiv_floor (num * twos (-place)) (den * twos place)
  omega

/-- **A number far below the largest double has a nearest double.** -/
theorem nearest?_of_small (h : |q| < 2 ^ (1000 : Int)) : ∃ x, nearest? q = some x := by
  have quotient : |q| = (q.num.natAbs : ℚ) / q.den := by
    rw [Rat.abs_def, Rat.divInt_eq_div, Int.cast_natCast, Int.cast_natCast]
  have size : ∃ x, ofQuotient? q.num.natAbs q.den = some x := by
    unfold ofQuotient?
    split
    next => exact ⟨0, rfl⟩
    next some =>
      have hn : 0 < q.num.natAbs := Nat.pos_of_ne_zero some
      have mantissa := roundDiv_lastPlace_le hn q.den_pos
      obtain ⟨least, -, place⟩ := lastPlace_spec hn q.den_pos
      have place : lastPlace q.num.natAbs q.den < 948 := by
        rcases place with low | reached
        · omega
        · rw [quotient] at h
          have power := (zpow_lt_zpow_iff_right₀ (by norm_num)).1 (reached.trans_lt h)
          omega
      dsimp only
      refine ⟨_, if_pos ?_⟩
      unfold leadingBit at *
      omega
  obtain ⟨x, hx⟩ := size
  unfold nearest?
  rw [hx]
  exact ⟨_, rfl⟩

theorem nearest?_toRat? {x : Float} (h : toRat? x = some q) (some : q ≠ 0) :
    nearest? q = Option.some x := by
  obtain ⟨mantissa, exponent, hx, there, size, sign⟩ := finite_of_toRat? h some
  refine nearest?_of_rounds hx there (.of_near ?_) sign
  rw [size, sub_self, abs_zero]
  have := (reach_le mantissa exponent).1
  exact mul_pos (by linarith) (by positivity)

end Double

end ArrayCalc
