import ArrayCalc.Numeral
import ArrayCalc.Proofs.NearestDoubles
import Mathlib.Tactic.LinearCombination

/-!
# Closest fractions

The convergents of a continued fraction come nearer to its value with every step.  The last one with
a denominator up to a bound is off by less than one part in the bound, unless the value itself is
smaller than that.  So the closest fraction to a double rounds to it again, down to two to the -63.
-/

namespace ArrayCalc

namespace Approximation

variable {bound : Int} {q : ℚ} {c : Convergents} {num : Int} {den : Nat}

/-! ## § Convergents -/

/-- The value of a continued fraction from two neighbouring convergents and from what is left of it,
which is `num / den`; nothing is left if the denominator is zero. -/
structure Expands (q : ℚ) (c : Convergents) (num : Int) (den : Nat) : Prop where
  value : q * (c.den₀ * den + c.den₁ * num) = c.num₀ * den + c.num₁ * num
  neighbours : |c.num₁ * c.den₀ - c.num₀ * c.den₁| = 1

/-- After the first term all that is left is above one. -/
structure Later (c : Convergents) (num : Int) (den : Nat) : Prop where
  older : 0 ≤ c.den₀
  newer : 1 ≤ c.den₁
  rest : (den : Int) ≤ num
  some : 0 < num

/-- The convergents after another term. -/
def Convergents.next (c : Convergents) (term : Int) : Convergents :=
  ⟨c.num₁, c.den₁, c.num₀ + term * c.num₁, c.den₀ + term * c.den₁⟩

/-- Convergents go on as long as the next denominator is within the bound. -/
theorem convergents_next (some : den ≠ 0) (small : c.den₀ + num / (den : Int) * c.den₁ ≤ bound) :
    convergents bound c num den
      = convergents bound (c.next (num / den)) den (num % den).toNat := by
  rw [convergents, if_neg some]
  dsimp only
  rw [if_neg (not_lt.2 small)]
  rfl

theorem convergents_last (some : den ≠ 0) (large : bound < c.den₀ + num / (den : Int) * c.den₁) :
    convergents bound c num den = c := by
  rw [convergents, if_neg some]
  dsimp only
  rw [if_pos large]

theorem cast_emod_toNat (num : Int) {den : Nat} (pos : 0 < den) :
    ((num % den).toNat : Int) = num - num / den * den := by
  rw [Int.toNat_of_nonneg (Int.emod_nonneg num (by omega)), Int.emod_def]
  ring

theorem Expands.next (h : Expands q c num den) (pos : 0 < den) :
    Expands q (c.next (num / den)) den (num % den).toNat := by
  obtain ⟨value, neighbours⟩ := h
  have rest : (((num % den).toNat : Nat) : ℚ) = num - (num / den : Int) * den := by
    exact_mod_cast cast_emod_toNat num pos
  refine ⟨?_, ?_⟩
  · unfold Convergents.next
    push_cast
    rw [rest]
    linarith
  · rw [← neighbours, ← abs_neg]
    unfold Convergents.next
    congr 1
    ring

theorem rest_le (num : Int) (pos : 0 < den) : (((num % den).toNat : Nat) : Int) ≤ den := by
  have := Int.emod_lt_of_pos num (Int.natCast_pos.2 pos)
  omega

theorem Later.next (h : Later c num den) (pos : 0 < den) :
    Later (c.next (num / den)) den (num % den).toNat := by
  obtain ⟨older, newer, rest, -⟩ := h
  have term : 1 ≤ num / (den : Int) := (Int.le_ediv_iff_mul_le (by omega)).2 (by omega)
  have grows : 1 ≤ c.den₀ + num / (den : Int) * c.den₁ := by nlinarith
  exact ⟨zero_le_one.trans newer, grows, rest_le num pos, by omega⟩

/-- The next denominator tells how close a convergent is. -/
theorem Expands.close (h : Expands q c num den) (pos : 0 < den) (some : 0 < c.den₁)
    (large : bound + 1 ≤ c.den₀ + num / (den : Int) * c.den₁) (least : 0 ≤ bound) :
    |q * c.den₁ - c.num₁| * (bound + 1) ≤ 1 := by
  have den_pos : (0 : ℚ) < den := by exact_mod_cast pos
  have term : ((num / (den : Int) : Int) : ℚ) * den ≤ num := by
    exact_mod_cast Int.ediv_mul_le num (by omega : (den : Int) ≠ 0)
  have some : (0 : ℚ) < c.den₁ := by exact_mod_cast some
  have large : (bound : ℚ) + 1 ≤ c.den₀ + (num / (den : Int) : Int) * c.den₁ := by
    exact_mod_cast large
  have least : (0 : ℚ) ≤ bound := by exact_mod_cast least
  -- The denominator of the value, over that of what is left.
  have whole : (bound + 1) * (den : ℚ) ≤ c.den₀ * den + c.den₁ * num := by nlinarith
  have whole_pos : (0 : ℚ) < c.den₀ * den + c.den₁ * num := by nlinarith
  have neighbours : |(c.num₁ * c.den₀ - c.num₀ * c.den₁ : ℚ)| = 1 := by
    exact_mod_cast h.neighbours
  have error : |q * c.den₁ - c.num₁| * (c.den₀ * den + c.den₁ * num) = den := by
    rw [← abs_of_pos whole_pos, ← abs_mul]
    have expand : (q * c.den₁ - c.num₁) * (c.den₀ * den + c.den₁ * num)
        = -(c.num₁ * c.den₀ - c.num₀ * c.den₁) * den := by
      have value := h.value
      linear_combination c.den₁ * value
    rw [expand, abs_mul, abs_neg, neighbours, one_mul, abs_of_pos den_pos]
  have : |q * c.den₁ - c.num₁| * ((bound + 1) * den) ≤ 1 * den := by
    calc |q * c.den₁ - c.num₁| * ((bound + 1) * den)
        ≤ |q * c.den₁ - c.num₁| * (c.den₀ * den + c.den₁ * num) := by gcongr
      _ = 1 * den := by rw [error, one_mul]
  rw [← mul_assoc] at this
  exact le_of_mul_le_mul_right this den_pos

/-- **The last convergent within the bound is close.** -/
theorem convergents_close (h : Expands q c num den) (later : Later c num den) (least : 0 ≤ bound) :
    1 ≤ (convergents bound c num den).den₁ ∧
      |q * (convergents bound c num den).den₁ - (convergents bound c num den).num₁| * (bound + 1)
        ≤ 1 := by
  fun_induction convergents bound c num den with
  | case1 c num =>
    refine ⟨later.newer, ?_⟩
    have value := h.value
    have some : (num : ℚ) ≠ 0 := by exact_mod_cast later.some.ne'
    have exact : q * c.den₁ - c.num₁ = 0 := by
      push_cast at value
      refine (mul_eq_zero.1 ?_).resolve_right some
      linear_combination value
    rw [exact, abs_zero, zero_mul]
    exact zero_le_one
  | case2 c num den some term next large =>
    exact ⟨later.newer, h.close (Nat.pos_of_ne_zero some) later.newer large least⟩
  | case3 c num den some term next small ih =>
    have pos := Nat.pos_of_ne_zero some
    exact ih (h.next pos) (later.next pos)

/-! ## § The closest fraction -/

theorem expands_start (q : ℚ) : Expands q ⟨0, 1, 1, 0⟩ q.num q.den := by
  refine ⟨?_, by norm_num⟩
  push_cast
  rw [one_mul, zero_mul, zero_mul, zero_add, add_zero, one_mul]
  exact Rat.mul_den_eq_num q

theorem rat_abs (q : ℚ) : q.abs = |q| := by
  unfold Rat.abs
  split
  next h => exact (abs_of_nonneg h).symm
  next h => exact (abs_of_neg (not_le.1 h)).symm

/-- What the closest fraction is at least as close as. -/
theorem closest_close (least : 1 ≤ bound) (wide : bound < q.den) :
    ∃ p d : Int, 1 ≤ d ∧ |q * d - p| * (bound + 1) ≤ 1 ∧
      |closest bound q - q| ≤ |(p : ℚ) / d - q| := by
  have pos := q.den_pos
  have first := @convergents_next bound ⟨0, 1, 1, 0⟩ q.num q.den pos.ne' (by simpa using least)
  have later : Later (Convergents.next ⟨0, 1, 1, 0⟩ (q.num / q.den)) q.den
      (q.num % q.den).toNat :=
    ⟨le_rfl, by simp [Convergents.next], rest_le q.num pos, by omega⟩
  obtain ⟨some, close⟩ :=
    convergents_close ((expands_start q).next pos) later (zero_le_one.trans least)
  refine ⟨_, _, some, close, ?_⟩
  unfold closest
  rw [if_neg (not_le.2 wide), first]
  dsimp only
  rw [← rat_abs, ← rat_abs]
  split
  next => exact le_rfl
  next further => exact (not_le.1 further).le

/-- **The closest fraction is off by less than one part in the bound.** -/
theorem closest_near (least : 1 ≤ bound) (large : 1 < |q| * (bound + 1)) :
    |closest bound q - q| * bound ≤ |q| := by
  rcases le_or_gt (q.den : Int) bound with small | wide
  · rw [closest, if_pos small, sub_self, abs_zero, zero_mul]
    exact abs_nonneg q
  · obtain ⟨p, d, some, close, nearer⟩ := closest_close least wide
    have least : (1 : ℚ) ≤ bound := by exact_mod_cast least
    have d_pos : (1 : ℚ) ≤ d := by exact_mod_cast some
    have d_abs : |(d : ℚ)| = d := abs_of_pos (by linarith)
    -- The numerator is not zero, or the value would be too small.
    have p_some : (1 : ℚ) ≤ |(p : ℚ)| := by
      by_contra zero
      have none : p = 0 := by
        by_contra other
        exact zero (by exact_mod_cast Int.one_le_abs other)
      rw [none, Int.cast_zero, sub_zero, abs_mul, d_abs] at close
      nlinarith [abs_nonneg q]
    have size : |(p : ℚ)| ≤ |q| * d + |q * d - p| := by
      have triangle := abs_sub_abs_le_abs_sub (p : ℚ) (q * d)
      rw [abs_mul, d_abs, abs_sub_comm] at triangle
      linarith
    have error : |(p : ℚ) / d - q| = |q * d - p| / d := by
      have whole : (p : ℚ) / d - q = -(q * d - p) / d := by
        field_simp
        ring
      rw [whole, abs_div, abs_neg, d_abs]
    rw [error, le_div_iff₀ (by linarith)] at nearer
    -- So the value times the denominator is almost one at least.
    have almost : (bound : ℚ) ≤ |q| * d * (bound + 1) := by nlinarith
    have : |closest bound q - q| * bound * (d * (bound + 1)) ≤ |q| * (d * (bound + 1)) := by
      calc |closest bound q - q| * bound * (d * (bound + 1))
          = |closest bound q - q| * d * (bound + 1) * bound := by ring
        _ ≤ |q * d - p| * (bound + 1) * bound := by gcongr
        _ ≤ 1 * bound := by gcongr
        _ ≤ |q| * (d * (bound + 1)) := by linarith
    exact le_of_mul_le_mul_right this (by positivity)

/-! ## § Small values -/

/-- The convergents of a small positive number end with zero. -/
theorem convergents_small {n : Nat} (least : 1 ≤ bound) (some : 0 < n)
    (small : n * (bound + 1) ≤ den) :
    convergents bound ⟨0, 1, 1, 0⟩ n den = ⟨1, 0, 0, 1⟩ := by
  have below : n < den := by
    have : (n : Int) < den := by nlinarith
    omega
  have zero : (n : Int) / den = 0 := Int.ediv_eq_zero_of_lt (by omega) (by omega)
  have rest : ((n : Int) % den).toNat = n := by
    rw [Int.emod_eq_of_lt (by omega) (by omega), Int.toNat_natCast]
  have term : bound + 1 ≤ (den : Int) / n := (Int.le_ediv_iff_mul_le (by omega)).2 (by nlinarith)
  rw [convergents_next (by omega) (by simpa [zero] using least), zero, rest]
  exact convergents_last (by omega) (by simpa [Convergents.next] using Int.lt_of_add_one_le term)

/-- Those of a small negative number end with minus one and zero. -/
theorem convergents_small_neg {n : Nat} (least : 2 ≤ bound) (some : 0 < n)
    (small : n * (bound + 1) ≤ den) :
    convergents bound ⟨0, 1, 1, 0⟩ (-n) den = ⟨-1, 1, 0, 1⟩ := by
  have below : 3 * n ≤ den := by
    have : 3 * (n : Int) ≤ den := by nlinarith
    omega
  have minus_one : -(n : Int) / den = -1 :=
    Int.ediv_eq_neg_one_of_neg_of_le (by omega) (by omega)
  have rest : (-(n : Int) % den).toNat = den - n := by
    rw [Int.emod_def, minus_one]
    omega
  have one : (den : Int) / (den - n : Nat) = 1 := by
    rw [Int.ediv_eq_iff_of_pos (by omega)]
    omega
  have rest' : ((den : Int) % (den - n : Nat)).toNat = n := by
    rw [Int.emod_def, one]
    omega
  have term : bound ≤ ((den - n : Nat) : Int) / n :=
    (Int.le_ediv_iff_mul_le (by omega)).2 (by push_cast [show n ≤ den by omega]; nlinarith)
  rw [convergents_next (by omega) (by simp; omega), minus_one, rest,
    convergents_next (by omega) (by simp [Convergents.next, one]; omega), one, rest']
  exact convergents_last (by omega) (by simp [Convergents.next]; omega)

/-- Zero is at least as close as one part in the bound up to half of that. -/
theorem zero_nearer {size : ℚ} (least : 1 ≤ bound) (pos : 0 < size)
    (small : size * (bound + 1) ≤ 1) : size ≤ |1 / bound - size| ↔ 2 * size * bound ≤ 1 := by
  have bound_pos : (0 : ℚ) < bound := by exact_mod_cast (by omega : 0 < bound)
  have below : size ≤ 1 / bound := by
    rw [le_div_iff₀ bound_pos]
    linarith
  rw [abs_of_nonneg (by linarith), le_sub_iff_add_le, ← two_mul, le_div_iff₀ bound_pos]

/-- With zero as its last convergent a number is closest to zero or to one part in the bound. -/
theorem closest_of_zero {one older : Int} (wide : bound < q.den)
    (h : convergents bound ⟨0, 1, 1, 0⟩ q.num q.den = ⟨one, older, 0, 1⟩) :
    closest bound q = if |q| ≤ |one / bound - q| then 0 else (one / bound : ℚ) := by
  unfold closest
  rw [if_neg (not_le.2 wide), h]
  simp [rat_abs]

theorem closest_small (least : 2 ≤ bound) (some : q ≠ 0) (small : |q| * (bound + 1) ≤ 1) :
    closest bound q = if 2 * |q| * bound ≤ 1 then 0 else q / (|q| * bound) := by
  have pos : (0 : ℚ) < q.den := by exact_mod_cast q.den_pos
  obtain ⟨n, hn⟩ : ∃ n, q.num.natAbs = n := ⟨_, rfl⟩
  have numerator : 0 < n := hn ▸ Int.natAbs_pos.2 (Rat.num_ne_zero.2 some)
  have parts : n * (bound + 1) ≤ q.den := by
    have size : |q| = (n : ℚ) / q.den := by
      rw [Rat.abs_def, Rat.divInt_eq_div, hn, Int.cast_natCast, Int.cast_natCast]
    rw [size, div_mul_eq_mul_div, div_le_one pos] at small
    exact_mod_cast small
  have wide : bound < q.den := by nlinarith
  have nearer := zero_nearer (by omega) (abs_pos.2 some) small
  rcases some.lt_or_gt with negative | positive
  · have num : q.num = -n := by
      have := Rat.num_neg.2 negative
      omega
    have size : |q| = -q := abs_of_neg negative
    have part : q / (|q| * bound) = -1 / bound := by
      rw [size, ← div_div, div_neg, div_self some]
    have opposite : ((-1 : Int) : ℚ) / bound - q = -(1 / bound - |q|) := by
      rw [size]
      push_cast
      ring
    rw [closest_of_zero wide (num ▸ convergents_small_neg least numerator parts), opposite, abs_neg,
      part]
    simp only [nearer, Int.cast_neg, Int.cast_one]
  · have num : q.num = n := by
      have := Rat.num_pos.2 positive
      omega
    have size : |q| = q := abs_of_pos positive
    have part : q / (|q| * bound) = 1 / bound := by
      rw [size, ← div_div, div_self some]
    rw [closest_of_zero wide (num ▸ convergents_small (by omega) numerator parts), part]
    rw [size] at nearer ⊢
    simp only [nearer, Int.cast_one]

/-- **The closest fraction is zero or has the sign of the number.** -/
theorem closest_sign (least : 2 ≤ bound) (some : q ≠ 0) :
    if 2 * |q| * bound ≤ 1 then closest bound q = 0 else 0 < closest bound q * q := by
  have bound_two : (2 : ℚ) ≤ bound := by exact_mod_cast least
  have pos : 0 < |q| := abs_pos.2 some
  have square : |q| * |q| = q * q := abs_mul_abs_self q
  rcases le_or_gt (|q| * (bound + 1)) 1 with small | large
  · rw [closest_small least some small]
    split
    next => rfl
    next =>
      rw [div_mul_eq_mul_div, ← square, mul_div_mul_left _ _ pos.ne']
      positivity
  · have near := closest_near (by omega) large
    rw [if_neg (by nlinarith)]
    -- The error is at most half of the number.
    have half : |(closest bound q - q) * q| ≤ |q| * |q| / 2 := by
      rw [abs_mul]
      nlinarith [abs_nonneg (closest bound q - q)]
    have := (abs_le.1 half).1
    nlinarith

end Approximation

/-! ## § Exact values as doubles -/

namespace Double

/-- The smallest size of a double that has a close fraction within 64 bits. -/
def leastFraction : ℚ := 1 / 2 ^ 63

/-- **The closest fraction to a double rounds to it.** -/
theorem nearest?_closest {x : Float} {q : ℚ} (h : toRat? x = some q) (large : leastFraction ≤ |q|) :
    nearest? (Approximation.closest 0x7fffffffffffffff q) = some x := by
  have pos : (0 : ℚ) < |q| := lt_of_lt_of_le (by norm_num [leastFraction]) large
  have there : q ≠ 0 := abs_pos.1 pos
  rcases large.lt_or_eq with larger | least
  · obtain ⟨mantissa, exponent, hx, some, size, sign⟩ := finite_of_toRat? h there
    have near := @Approximation.closest_near 0x7fffffffffffffff q (by decide) (by
      unfold leastFraction at larger
      push_cast
      linarith)
    push_cast at near
    generalize Approximation.closest 0x7fffffffffffffff q = c at near ⊢
    have negative : c < 0 ↔ q < 0 := by
      have smaller : |c - q| < |q| := by linarith [abs_nonneg (c - q)]
      rw [abs_lt] at smaller
      rcases there.lt_or_gt with below | above
      · rw [abs_of_neg below] at smaller
        exact ⟨fun _ => below, fun _ => by linarith⟩
      · rw [abs_of_pos above] at smaller
        exact ⟨fun h => absurd h (by linarith), fun h => absurd h (by linarith)⟩
    refine nearest?_of_rounds hx some (.of_near ?_) (negative.trans sign)
    obtain ⟨proper, -⟩ := proper_of_magnitude hx
    have short : (mantissa : ℚ) < 2 * 0x10000000000000 := by exact_mod_cast proper.below
    have least := (reach_le mantissa exponent).1
    have unit : (0 : ℚ) < 2 ^ exponent := by positivity
    have difference := abs_abs_sub_abs_le_abs_sub c q
    rw [size] at near difference
    nlinarith
  · have same : nearest? (Approximation.closest 0x7fffffffffffffff q) = nearest? q := by
      rcases eq_or_eq_neg_of_abs_eq least.symm with rfl | rfl <;> decide +kernel
    rw [same]
    exact nearest?_toRat? h there

end Double

namespace Numeral

/-- What an exact value is kept as has the same nearest double. -/
theorem toFloat_ofRat {q : ℚ} {s : Scalar} {x : Float} (h : Scalar.ofRat q = .ok s)
    (near : Double.nearest? q = some x) : Value.toFloat (.scalar s) = .ok x := by
  unfold Scalar.ofRat at h
  split at h
  next integral =>
    obtain ⟨one, fits⟩ := integral
    obtain rfl := Except.ok.inj h
    have whole : (((Int64.ofInt q.num).toInt : Int) : ℚ) = q := by
      rw [toInt_ofInt_of_fits fits]
      exact Rat.coe_int_num_of_den_eq_one one
    show Except.ok ((Double.nearest? ((Int64.ofInt q.num).toInt : Rat)).getD Double.infinity) = _
    rw [whole, near]
    rfl
  next =>
    split at h
    next fraction bounded =>
      obtain rfl := Except.ok.inj h
      have value : fraction.val = q := by
        unfold Fraction.ofRat? at bounded
        split at bounded
        · exact congrArg Fraction.val (Option.some.inj bounded).symm
        · exact nomatch bounded
      show Except.ok ((Double.nearest? fraction.val).getD Double.infinity) = _
      rw [value, near]
      rfl
    next =>
      rw [near] at h
      obtain rfl := Except.ok.inj h
      rfl

theorem ofRat_ok {q : ℚ} {x : Float} (near : Double.nearest? q = some x) :
    ∃ s, Scalar.ofRat q = .ok s := by
  unfold Scalar.ofRat
  rw [near]
  split
  · exact ⟨_, rfl⟩
  · split <;> exact ⟨_, rfl⟩

/-- **An exact value is read as a scalar with the same nearest double.** -/
theorem toFloat_ofExact {d q : ℚ} {x : Float} (near : Double.nearest? d = some x)
    (h : Double.toRat? x = some q) (large : Double.leastFraction ≤ |q|) :
    Value.toFloat (.scalar (ofExact d)) = .ok x := by
  unfold ofExact
  split
  next y inexact =>
    obtain rfl := Except.ok.inj (toFloat_ofRat inexact near)
    dsimp only
    rw [h]
    dsimp only [Option.getD]
    split
    · rfl
    · rfl
    next exact => exact toFloat_ofRat exact (Double.nearest?_closest h large)
  next s exact => exact toFloat_ofRat exact near
  next failure =>
    obtain ⟨s, exact⟩ := ofRat_ok near
    exact nomatch failure.symm.trans exact

end Numeral

end ArrayCalc
