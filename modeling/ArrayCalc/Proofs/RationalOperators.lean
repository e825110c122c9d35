import ArrayCalc.Proofs.Canonical
import ArrayCalc.Proofs.NearestDoubles
import Mathlib.Data.Rat.Floor

/-!
# Operators on exact numbers

An integer is promoted to a fraction over one where it meets a fraction, and the result of an
operator is brought down again.  Whatever happens in between, the result is the exact one if that has
parts within 64 bits: an integer if it is integral, and otherwise a fraction in lowest terms.  A
result with wider parts is replaced by its nearest double, which there always is, since sums, products
and quotients of numbers within 64 bits are far below the largest double.

Order and equality are those of the rational numbers.
-/

namespace ArrayCalc

/-- The rational number that an integer or a fraction is. -/
def Scalar.rat? : Scalar → Option Rat
  | .int n => some n.toInt
  | .rational q => some q.val
  | _ => none

/-- A computation gives an exact number: as an integer if it is integral and as a fraction if not,
provided that its parts fit; if they do not, it gives the nearest double. -/
def Delivers (x : Result Value) (q : Rat) : Prop :=
  if Fraction.Bounded q then
    ∃ s : Scalar, x = .ok (.scalar s) ∧ s.rat? = some q ∧ (s.kind = .int ↔ q.den = 1)
  else ∃ d, x = .ok (.scalar (.float d)) ∧ Double.nearest? q = some d

/-! ## § Exact results -/

variable {a b : Scalar} {x y q : Rat}

theorem rat?_cases (h : a.rat? = some x) :
    (∃ n : Int64, a = .int n ∧ x = n.toInt) ∨ ∃ q : Fraction, a = .rational q ∧ x = q.val := by
  cases a with
  | int n => exact .inl ⟨n, rfl, (Option.some.inj h).symm⟩
  | rational q => exact .inr ⟨q, rfl, (Option.some.inj h).symm⟩
  | float | complex | char => exact nomatch h

/-- Integers and fractions have parts within 64 bits. -/
theorem bounded_of_rat? (h : a.rat? = some x) : Fraction.Bounded x := by
  rcases rat?_cases h with ⟨n, rfl, rfl⟩ | ⟨q, rfl, rfl⟩
  · exact ⟨(Fraction.ofWord n).num_fits, (Fraction.ofWord n).den_fits⟩
  · exact ⟨q.num_fits, q.den_fits⟩

/-- The scalar for an exact number: an integer if it is integral, and otherwise a fraction. -/
structure Scalar.Keeps (s : Scalar) (q : Rat) : Prop where
  value : s.rat? = some q
  integral : s.kind = .int ↔ q.den = 1

namespace Scalar

theorem ofRat_fits (bounded : Fraction.Bounded q) : ∃ s, ofRat q = .ok s ∧ s.Keeps q := by
  unfold ofRat
  split
  next integral =>
    refine ⟨_, rfl, ?_, iff_of_true rfl integral.1⟩
    show some (((Int64.ofInt q.num).toInt : Int) : Rat) = some q
    rw [toInt_ofInt_of_fits integral.2, Rat.coe_int_num_of_den_eq_one integral.1]
  next other =>
    have fraction : Fraction.ofRat? q = some ⟨q, bounded.1, bounded.2⟩ := dif_pos bounded
    rw [fraction]
    exact ⟨_, rfl, rfl, iff_of_false nofun fun integral => other ⟨integral, bounded.1⟩⟩

/-- A number with wider parts becomes its nearest double, if it has one. -/
theorem ofRat_eq_of_wide (wide : ¬Fraction.Bounded q) :
    ofRat q = match Double.nearest? q with
      | some x => .ok (.float x)
      | none => .fault .overflow := by
  have other : ¬(q.den = 1 ∧ Fits64 q.num) := by
    rintro ⟨integral, fits⟩
    exact wide ⟨fits, by rw [integral]; decide⟩
  have unbounded : Fraction.ofRat? q = none := dif_neg wide
  unfold ofRat
  cases Double.nearest? q <;> rw [if_neg other, unbounded]

theorem ofRat_wide (wide : ¬Fraction.Bounded q) {d : Float} (near : Double.nearest? q = some d) :
    ofRat q = .ok (.float d) := by rw [ofRat_eq_of_wide wide, near]

/-- What is made of a number is the number itself or a double. -/
theorem ofRat_cases {s : Scalar} (h : ofRat q = .ok s) : s.Keeps q ∨ s.kind = .float := by
  by_cases fits : Fraction.Bounded q
  · obtain ⟨t, exact, keeps⟩ := ofRat_fits fits
    obtain rfl := Except.ok.inj (h.symm.trans exact)
    exact .inl keeps
  · rw [ofRat_eq_of_wide fits] at h
    split at h
    · obtain rfl := Except.ok.inj h
      exact .inr rfl
    · exact nomatch h

end Scalar

/-- An exact number in canonical form is its own result. -/
theorem delivers_self (h : a.rat? = some x) (canonical : a.Canonical) :
    Delivers (.ok (.scalar a)) x := by
  unfold Delivers
  rw [if_pos (bounded_of_rat? h)]
  refine ⟨a, rfl, h, ?_⟩
  rcases rat?_cases h with ⟨n, rfl, rfl⟩ | ⟨q, rfl, rfl⟩
  · exact iff_of_true rfl (Rat.den_intCast _)
  · exact iff_of_false nofun (Scalar.canonical_rational.1 canonical)

theorem delivers_ofRat (h : Fraction.Bounded q ∨ |q| < 2 ^ (1000 : Int)) :
    Delivers ((Scalar.ofRat q).map .scalar) q := by
  unfold Delivers
  split
  next bounded =>
    obtain ⟨s, exact, value, integral⟩ := Scalar.ofRat_fits bounded
    rw [exact]
    exact ⟨s, rfl, value, integral⟩
  next wide =>
    obtain ⟨d, near⟩ := Double.nearest?_of_small (h.resolve_left wide)
    rw [Scalar.ofRat_wide wide near]
    exact ⟨d, rfl, near⟩

theorem delivers_of_eq {r : Result Scalar} (same : r = Scalar.ofRat q)
    (h : Fraction.Bounded q ∨ |q| < 2 ^ (1000 : Int)) : Delivers (r.map .scalar) q := by
  rw [same]
  exact delivers_ofRat h

/-! ## § Sizes -/

/-- Numbers within 64 bits are neither large nor close to zero. -/
theorem abs_of_bounded (h : Fraction.Bounded x) :
    |x| ≤ 2 ^ 63 ∧ (x ≠ 0 → 1 / 2 ^ 63 ≤ |x|) := by
  obtain ⟨⟨low, high⟩, -, den⟩ := h
  have size : |x| = (x.num.natAbs : ℚ) / x.den := by
    rw [Rat.abs_def, Rat.divInt_eq_div, Int.cast_natCast, Int.cast_natCast]
  have pos : (0 : ℚ) < x.den := by exact_mod_cast x.den_pos
  have one : (1 : ℚ) ≤ x.den := by exact_mod_cast x.den_pos
  have num : (x.num.natAbs : ℚ) ≤ 2 ^ 63 := by exact_mod_cast (by omega : x.num.natAbs ≤ 2 ^ 63)
  have den : (x.den : ℚ) ≤ 2 ^ 63 := by exact_mod_cast (by omega : x.den ≤ 2 ^ 63)
  rw [size]
  constructor
  · rw [div_le_iff₀ pos]
    nlinarith
  · intro other
    have some : (1 : ℚ) ≤ x.num.natAbs := by
      exact_mod_cast Int.natAbs_pos.2 (Rat.num_ne_zero.2 other)
    exact div_le_div₀ (by linarith) some pos den

/-- What the operators make of numbers within 64 bits is far below the largest double. -/
theorem small_of_le (h : |q| ≤ 2 ^ 63 * 2 ^ 63) : |q| < 2 ^ (1000 : Int) := by
  have most : (2 : ℚ) ^ 63 * 2 ^ 63 = 2 ^ (126 : Int) := by norm_num
  rw [most] at h
  exact h.trans_lt (zpow_lt_zpow_right₀ (by norm_num) (by decide))

section Small

variable (hx : Fraction.Bounded x) (hy : Fraction.Bounded y)

include hx hy

theorem small_add : |x + y| < 2 ^ (1000 : Int) := by
  have first := (abs_of_bounded hx).1
  have second := (abs_of_bounded hy).1
  refine small_of_le ((abs_add_le x y).trans ?_)
  linarith

theorem small_sub : |x - y| < 2 ^ (1000 : Int) := by
  have first := (abs_of_bounded hx).1
  have second := (abs_of_bounded hy).1
  refine small_of_le ((abs_sub x y).trans ?_)
  linarith

theorem small_mul : |x * y| < 2 ^ (1000 : Int) := by
  refine small_of_le ?_
  rw [abs_mul]
  exact mul_le_mul (abs_of_bounded hx).1 (abs_of_bounded hy).1 (abs_nonneg y) (by norm_num)

theorem small_div (some : y ≠ 0) : |x / y| < 2 ^ (1000 : Int) := by
  have far := (abs_of_bounded hy).2 some
  refine small_of_le ?_
  rw [abs_div, div_le_iff₀ (abs_pos.2 some), mul_assoc]
  refine (abs_of_bounded hx).1.trans (le_mul_of_one_le_right (by norm_num) ?_)
  rwa [div_le_iff₀' (by norm_num)] at far

omit hx in
/-- A remainder is no further from zero than its divisor. -/
theorem small_modulo (x : Rat) (some : y ≠ 0) : |x - y * ⌊x / y⌋| < 2 ^ (1000 : Int) := by
  have rest : x - y * ⌊x / y⌋ = y * Int.fract (x / y) := by
    rw [Int.fract, mul_sub, mul_div_cancel₀ x some]
  have below : |y * Int.fract (x / y)| ≤ |y| := by
    rw [abs_mul, abs_of_nonneg (Int.fract_nonneg (x / y))]
    exact mul_le_of_le_one_right (abs_nonneg y) (Int.fract_lt_one _).le
  rw [rest]
  refine small_of_le (below.trans ((abs_of_bounded hy).1.trans ?_))
  norm_num

end Small

/-! ## § The meeting of two exact operands -/

/-- One of two operands is a fraction, so the other one is promoted. -/
def HasFraction (a b : Scalar) : Prop := a.kind = .rational ∨ b.kind = .rational

namespace Primitive

variable {p q : Fraction} (ha : a.rat? = some x) (hb : b.rat? = some y)

include ha hb

theorem meet_exact (h : HasFraction a b) (operator : String) :
    ∃ p q : Fraction, p.val = x ∧ q.val = y ∧
      Operands.meet operator (.scalar a) (.scalar b) = .ok (.rationals p q) := by
  rcases rat?_cases ha with ⟨m, rfl, rfl⟩ | ⟨p, rfl, rfl⟩
  · rcases rat?_cases hb with ⟨n, rfl, rfl⟩ | ⟨q, rfl, rfl⟩
    · exact h.elim nofun nofun
    · exact ⟨.ofWord m, q, rfl, rfl, rfl⟩
  · rcases rat?_cases hb with ⟨n, rfl, rfl⟩ | ⟨q, rfl, rfl⟩
    · exact ⟨p, .ofWord n, rfl, rfl, rfl⟩
    · exact ⟨p, q, rfl, rfl, rfl⟩

theorem add_exact (h : HasFraction a b) :
    add (.scalar a) (.scalar b) = Scalar.ofRat (x + y) := by
  obtain ⟨p, q, rfl, rfl, met⟩ := meet_exact ha hb h "+"
  unfold add
  rw [met]
  rfl

theorem subtract_exact (h : HasFraction a b) :
    subtract (.scalar a) (.scalar b) = Scalar.ofRat (x - y) := by
  obtain ⟨p, q, rfl, rfl, met⟩ := meet_exact ha hb h "-"
  unfold subtract
  rw [met]
  rfl

theorem multiply_exact (h : HasFraction a b) :
    multiply (.scalar a) (.scalar b) = Scalar.ofRat (x * y) := by
  obtain ⟨p, q, rfl, rfl, met⟩ := meet_exact ha hb h "*"
  unfold multiply
  rw [met]
  rfl

theorem modulo_exact (h : HasFraction a b) (other : y ≠ 0) :
    modulo (.scalar a) (.scalar b) = Scalar.ofRat (x - y * ⌊x / y⌋) := by
  obtain ⟨p, q, rfl, rfl, met⟩ := meet_exact ha hb h "%"
  unfold modulo
  rw [met]
  exact if_neg other

/-- Integers are divided as fractions are. -/
theorem divide_exact (other : y ≠ 0) :
    divide (.scalar a) (.scalar b) = Scalar.ofRat (x / y) := by
  have quotient : divide (.scalar a) (.scalar b) = divideRat x y := by
    rcases rat?_cases ha with ⟨m, rfl, rfl⟩ | ⟨p, rfl, rfl⟩ <;>
      rcases rat?_cases hb with ⟨n, rfl, rfl⟩ | ⟨q, rfl, rfl⟩ <;> rfl
  rw [quotient, divideRat, if_neg other]

omit hb in
theorem power_exact {n : Int64} (h : a.kind = .rational ∨ n.toInt < 0) (other : x ≠ 0)
    (least : n.toInt.natAbs ≤ exactPowerLimit) :
    power (.scalar a) (.scalar (.int n)) = Scalar.ofRat (x ^ n.toInt) := by
  have exponent : power (.scalar a) (.scalar (.int n)) = powerRat x n.toInt := by
    rcases rat?_cases ha with ⟨m, rfl, rfl⟩ | ⟨p, rfl, rfl⟩
    · exact if_neg (not_le.2 (h.resolve_left nofun))
    · rfl
  rw [exponent, powerRat, if_neg fun zero => other zero.1, Rat.den_intCast, Rat.num_intCast,
    if_pos ⟨rfl, least⟩]

omit ha hb in
theorem ok_decide {holds : Bool} (h : holds = true ↔ x = y) :
    (Except.ok holds : Result Bool) = .ok (decide (x = y)) := by
  congr 1
  by_cases same : x = y
  · rw [h.2 same, decide_eq_true same]
  · rw [Bool.eq_false_of_not_eq_true (mt h.1 same), decide_eq_false same]

theorem equals_exact : equals (.scalar a) (.scalar b) = .ok (decide (x = y)) := by
  rcases rat?_cases ha with ⟨m, rfl, rfl⟩ | ⟨p, rfl, rfl⟩
  · rcases rat?_cases hb with ⟨n, rfl, rfl⟩ | ⟨q, rfl, rfl⟩
    · refine ok_decide (?_ : (m == n) = true ↔ _)
      rw [beq_iff_eq, Int.cast_inj, Int64.toInt_inj]
    · exact ok_decide beq_iff_eq
  · rcases rat?_cases hb with ⟨n, rfl, rfl⟩ | ⟨q, rfl, rfl⟩
    · exact ok_decide beq_iff_eq
    · exact ok_decide beq_iff_eq

omit ha hb in
theorem onInts_eq_onRats (order : Order) (m n : Int) : order.onInts m n = order.onRats m n := by
  cases order <;> simp [Order.onInts, Order.onRats]

theorem compare_exact (order : Order) :
    compare order (.scalar a) (.scalar b) = .ok (.ofBool (order.onRats x y)) := by
  rcases rat?_cases ha with ⟨m, rfl, rfl⟩ | ⟨p, rfl, rfl⟩
  · rcases rat?_cases hb with ⟨n, rfl, rfl⟩ | ⟨q, rfl, rfl⟩
    · rw [← onInts_eq_onRats]
      rfl
    · rfl
  · rcases rat?_cases hb with ⟨n, rfl, rfl⟩ | ⟨q, rfl, rfl⟩ <;> rfl

omit ha hb in
theorem pick_words (operator : String) (order : Order) (m n : Int64) :
    pick operator order (.scalar (.int m)) (.scalar (.int n))
      = .ok (if order.onRats m.toInt n.toInt then .int m else .int n) := by
  have met : Operands.meet operator (.scalar (.int m)) (.scalar (.int n)) = .ok (.ints m n) := rfl
  rw [← onInts_eq_onRats]
  unfold pick
  rw [met]
  dsimp only [bind, Except.bind, ordered?]
  split_ifs <;> rfl

theorem pick_fraction (operator : String) (order : Order) (h : HasFraction a b) :
    pick operator order (.scalar a) (.scalar b)
      = Scalar.ofRat (if order.onRats x y then x else y) := by
  obtain ⟨p, q, rfl, rfl, met⟩ := meet_exact ha hb h operator
  unfold pick
  rw [met]
  dsimp only [bind, Except.bind, ordered?]
  split_ifs <;> rfl

/-- The preferred one of two exact numbers, brought down again after the promotion. -/
theorem pick_exact (operator : String) (order : Order) (canonical_a : a.Canonical)
    (canonical_b : b.Canonical) :
    Delivers ((pick operator order (.scalar a) (.scalar b)).map .scalar)
      (if order.onRats x y then x else y) := by
  by_cases h : HasFraction a b
  · rw [pick_fraction ha hb operator order h]
    refine delivers_ofRat (.inl ?_)
    split_ifs
    · exact bounded_of_rat? ha
    · exact bounded_of_rat? hb
  · rcases rat?_cases ha with ⟨m, rfl, rfl⟩ | ⟨p, rfl, rfl⟩
    · rcases rat?_cases hb with ⟨n, rfl, rfl⟩ | ⟨q, rfl, rfl⟩
      · rw [pick_words]
        split_ifs
        · exact delivers_self ha canonical_a
        · exact delivers_self hb canonical_b
      · exact absurd (.inr rfl) h
    · exact absurd (.inl rfl) h

end Primitive

/-! ## § The operators -/

/-- What the operators give for the exact numbers `a` and `b`, whose values are `x` and `y`. -/
structure RationalOperators (a b : Scalar) (x y : Rat) : Prop where
  add : HasFraction a b → Delivers (BinaryPrimitive.add.apply (.scalar a) (.scalar b)) (x + y)
  subtract : HasFraction a b →
    Delivers (BinaryPrimitive.subtract.apply (.scalar a) (.scalar b)) (x - y)
  multiply : HasFraction a b →
    Delivers (BinaryPrimitive.multiply.apply (.scalar a) (.scalar b)) (x * y)
  divide : y ≠ 0 → Delivers (BinaryPrimitive.divide.apply (.scalar a) (.scalar b)) (x / y)
  modulo : HasFraction a b → y ≠ 0 →
    Delivers (BinaryPrimitive.modulo.apply (.scalar a) (.scalar b)) (x - y * ⌊x / y⌋)
  power : ∀ n : Int64, b = .int n → |n.toInt| ≤ 4096 → a.kind = .rational ∨ n.toInt < 0 → x ≠ 0 →
    Fraction.Bounded (x ^ n.toInt) →
    Delivers (BinaryPrimitive.power.apply (.scalar a) (.scalar b)) (x ^ n.toInt)
  equal : BinaryPrimitive.equal.apply (.scalar a) (.scalar b)
    = .ok (.scalar (.ofBool (x = y)))
  unequal : BinaryPrimitive.unequal.apply (.scalar a) (.scalar b)
    = .ok (.scalar (.ofBool (x ≠ y)))
  less : BinaryPrimitive.less.apply (.scalar a) (.scalar b)
    = .ok (.scalar (.ofBool (x < y)))
  lessEqual : BinaryPrimitive.lessEqual.apply (.scalar a) (.scalar b)
    = .ok (.scalar (.ofBool (x ≤ y)))
  greater : BinaryPrimitive.greater.apply (.scalar a) (.scalar b)
    = .ok (.scalar (.ofBool (x > y)))
  greaterEqual : BinaryPrimitive.greaterEqual.apply (.scalar a) (.scalar b)
    = .ok (.scalar (.ofBool (x ≥ y)))
  minimum : Delivers (BinaryPrimitive.minimum.apply (.scalar a) (.scalar b)) (min x y)
  maximum : Delivers (BinaryPrimitive.maximum.apply (.scalar a) (.scalar b)) (max x y)

/-- **The operators on exact numbers are exact wherever the result fits.** -/
theorem rational_operators (ha : a.rat? = some x) (hb : b.rat? = some y)
    (canonical_a : a.Canonical) (canonical_b : b.Canonical) : RationalOperators a b x y := by
  have hx := bounded_of_rat? ha
  have hy := bounded_of_rat? hb
  constructor
  case add =>
    intro h
    exact delivers_of_eq (Primitive.add_exact ha hb h) (.inr (small_add hx hy))
  case subtract =>
    intro h
    exact delivers_of_eq (Primitive.subtract_exact ha hb h) (.inr (small_sub hx hy))
  case multiply =>
    intro h
    exact delivers_of_eq (Primitive.multiply_exact ha hb h) (.inr (small_mul hx hy))
  case divide =>
    intro other
    exact delivers_of_eq (Primitive.divide_exact ha hb other) (.inr (small_div hx hy other))
  case modulo =>
    intro h other
    exact delivers_of_eq (Primitive.modulo_exact ha hb h other) (.inr (small_modulo hy x other))
  case power =>
    rintro n rfl least h other fits
    have least : n.toInt.natAbs ≤ 4096 := by
      rw [Int.abs_eq_natAbs] at least
      exact_mod_cast least
    exact delivers_of_eq (Primitive.power_exact ha h other least) (.inl fits)
  case equal =>
    show ((Primitive.equals _ _).map Scalar.ofBool).map Value.scalar = _
    rw [Primitive.equals_exact ha hb]
    rfl
  case unequal =>
    show ((Primitive.equals _ _).map fun same => Scalar.ofBool !same).map Value.scalar = _
    rw [Primitive.equals_exact ha hb, decide_not]
    rfl
  case less | lessEqual | greater | greaterEqual =>
    exact congrArg (Except.map Value.scalar) (Primitive.compare_exact ha hb _)
  case minimum =>
    have picked := Primitive.pick_exact ha hb "min" .lessEqual canonical_a canonical_b
    simp only [Primitive.Order.onRats, decide_eq_true_eq] at picked
    rw [min_def]
    exact picked
  case maximum =>
    have picked := Primitive.pick_exact ha hb "max" .greaterEqual canonical_a canonical_b
    simp only [Primitive.Order.onRats, decide_eq_true_eq] at picked
    rw [max_comm, max_def]
    exact picked

theorem rational_operators_half_third :
    RationalOperators (.rational ⟨1 / 2, by decide +kernel, by decide +kernel⟩)
      (.rational ⟨1 / 3, by decide +kernel, by decide +kernel⟩) (1 / 2) (1 / 3) :=
  rational_operators rfl rfl (by decide +kernel) (by decide +kernel)

end ArrayCalc
