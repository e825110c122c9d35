import ArrayCalc.Primitive.Table
import Mathlib.Data.Int.ModEq
import Mathlib.Data.Rat.Floor
import Mathlib.Tactic.NormNum

/-!
# Operators on integers

Every operator on two integers stands for an operation on the integers without bounds, and what it
gives is the word that is congruent to the exact result modulo 2^64.  Products, powers and shifts to
the left may be of any size.  Quotients are rounded down, so a remainder has the sign of its divisor
and, like a shift to the right, always fits.

The only operands that are refused are shift counts below zero and divisors that are zero.
-/

namespace ArrayCalc

/-! ## § Words modulo 2^64 -/

namespace Word

theorem modEq_of_eq_bmod {m n : Int} (h : m = n.bmod (2 ^ 64)) : m ≡ n [ZMOD 2 ^ 64] := by
  rw [h]
  exact Int.bmod_emod

theorem ofInt_modEq (n : Int) : (Int64.ofInt n).toInt ≡ n [ZMOD 2 ^ 64] :=
  modEq_of_eq_bmod Int64.toInt_ofInt

theorem neg_modEq (a : Int64) : (-a).toInt ≡ -a.toInt [ZMOD 2 ^ 64] :=
  modEq_of_eq_bmod (Int64.toInt_neg a)

theorem add_modEq (a b : Int64) : (a + b).toInt ≡ a.toInt + b.toInt [ZMOD 2 ^ 64] :=
  modEq_of_eq_bmod (Int64.toInt_add a b)

theorem sub_modEq (a b : Int64) : (a - b).toInt ≡ a.toInt - b.toInt [ZMOD 2 ^ 64] :=
  modEq_of_eq_bmod (Int64.toInt_sub a b)

theorem mul_modEq (a b : Int64) : (a * b).toInt ≡ a.toInt * b.toInt [ZMOD 2 ^ 64] :=
  modEq_of_eq_bmod (Int64.toInt_mul a b)

theorem abs_modEq (a : Int64) : (if a < 0 then -a else a).toInt ≡ |a.toInt| [ZMOD 2 ^ 64] := by
  have sign : a < 0 ↔ a.toInt < 0 := Int64.lt_iff_toInt_lt
  split
  next negative =>
    rw [abs_of_neg (sign.1 negative)]
    exact neg_modEq a
  next positive => rw [abs_of_nonneg (not_lt.1 (mt sign.2 positive))]

/-- **Squaring and halving gives the power, wrapping at every step.** -/
theorem pow_modEq (a : Int64) (n : Nat) : (pow a n).toInt ≡ a.toInt ^ n [ZMOD 2 ^ 64] := by
  fun_induction pow a n with
  | case1 a =>
    rw [pow_zero]
    exact Int.ModEq.refl 1
  | case2 a n some half odd ih =>
    have split : a.toInt ^ n = a.toInt * (a.toInt * a.toInt) ^ (n / 2) := by
      rw [← pow_two, ← pow_mul, ← pow_succ', show 2 * (n / 2) + 1 = n by omega]
    calc (a * half).toInt
      _ ≡ a.toInt * half.toInt [ZMOD 2 ^ 64] := mul_modEq a half
      _ ≡ a.toInt * (a * a).toInt ^ (n / 2) [ZMOD 2 ^ 64] := ih.mul_left _
      _ ≡ a.toInt * (a.toInt * a.toInt) ^ (n / 2) [ZMOD 2 ^ 64] :=
        ((mul_modEq a a).pow _).mul_left _
      _ = a.toInt ^ n := split.symm
  | case3 a n some half even ih =>
    have split : a.toInt ^ n = (a.toInt * a.toInt) ^ (n / 2) := by
      rw [← pow_two, ← pow_mul, show 2 * (n / 2) = n by omega]
    calc half.toInt
      _ ≡ (a * a).toInt ^ (n / 2) [ZMOD 2 ^ 64] := ih
      _ ≡ (a.toInt * a.toInt) ^ (n / 2) [ZMOD 2 ^ 64] := (mul_modEq a a).pow _
      _ = a.toInt ^ n := split.symm

/-- The count of a shift, in the words that shifts are made of. -/
theorem toNat_count {count : Nat} (h : count < 64) :
    ((Int64.ofNat count).toBitVec.smod 64).toNat = count := by
  have all : ∀ count < 64, ((Int64.ofNat count).toBitVec.smod 64).toNat = count := by decide +kernel
  exact all count h

theorem shiftLeft_modEq (a : Int64) (count : Nat) :
    (shiftLeft a count).toInt ≡ a.toInt * 2 ^ count [ZMOD 2 ^ 64] := by
  unfold shiftLeft
  split
  next large =>
    -- Nothing is left of a multiple of 2^64.
    have multiple : (2 : Int) ^ 64 ∣ a.toInt * 2 ^ count := (pow_dvd_pow 2 large).mul_left _
    exact (Int.modEq_zero_iff_dvd.2 multiple).symm
  next small =>
    have bits : (a.toBitVec.toNat : Int) ≡ a.toInt [ZMOD 2 ^ 64] := by
      rw [← Int64.toInt_toBitVec, BitVec.toInt_eq_toNat_bmod]
      exact Int.bmod_emod.symm
    have shifted : (a <<< Int64.ofNat count).toInt
        = ((a.toBitVec.toNat <<< count : Nat) : Int).bmod (2 ^ 64) := by
      rw [← Int64.toInt_toBitVec, Int64.toBitVec_shiftLeft, BitVec.shiftLeft_eq',
        toNat_count (not_le.1 small), BitVec.toInt_shiftLeft]
    calc (a <<< Int64.ofNat count).toInt
      _ ≡ ((a.toBitVec.toNat <<< count : Nat) : Int) [ZMOD 2 ^ 64] := modEq_of_eq_bmod shifted
      _ = a.toBitVec.toNat * 2 ^ count := by rw [Nat.shiftLeft_eq]; push_cast; rfl
      _ ≡ a.toInt * 2 ^ count [ZMOD 2 ^ 64] := bits.mul_right _

/-- From 63 on a shift to the right leaves the sign, and so does the exact quotient. -/
theorem toInt_shiftRight (a : Int64) (count : Nat) :
    (shiftRight a count).toInt = ⌊(a.toInt : ℚ) / 2 ^ count⌋ := by
  have shifted : (shiftRight a count).toInt = a.toInt / 2 ^ min count 63 := by
    unfold shiftRight
    rw [← Int64.toInt_toBitVec, Int64.toBitVec_shiftRight, BitVec.toInt_sshiftRight',
      toNat_count (by omega), Int64.toInt_toBitVec, Int.shiftRight_eq_div_pow]
    push_cast
    rfl
  have floor : ⌊(a.toInt : ℚ) / 2 ^ count⌋ = a.toInt / 2 ^ count := by
    have := Rat.floor_intCast_div_natCast a.toInt (2 ^ count)
    push_cast at this
    exact this
  rw [shifted, floor]
  rcases Nat.le_total count 63 with small | large
  · rw [Nat.min_eq_left small]
  · rw [Nat.min_eq_right large]
    have most : (2 : Int) ^ 63 ≤ 2 ^ count := pow_le_pow_right₀ (by decide) large
    have low := Int64.le_toInt a
    have high := Int64.toInt_lt a
    rcases lt_or_ge a.toInt 0 with negative | positive
    · have last {m : Int} (h : 2 ^ 63 ≤ m) : a.toInt / m = -1 := by
        rw [Int.ediv_eq_iff_of_pos (by omega)]
        omega
      rw [last le_rfl, last most]
    · rw [Int.ediv_eq_zero_of_lt positive (by omega), Int.ediv_eq_zero_of_lt positive (by omega)]

end Word

/-! ## § Division -/

/-- The remainder of a division rounded down. -/
structure IsRemainder (a b r : Int) : Prop where
  split : a = b * ⌊(a : ℚ) / b⌋ + r
  sign : r = 0 ∨ r.sign = b.sign
  small : |r| < |b|

theorem floor_div_eq_fdiv (a b : Int) : ⌊(a : ℚ) / b⌋ = a.fdiv b := by
  have natural (a : Int) (n : Nat) : ⌊(a : ℚ) / n⌋ = a.fdiv n := by
    rw [Rat.floor_intCast_div_natCast, Int.fdiv_eq_ediv_of_nonneg a (Int.natCast_nonneg n)]
  obtain ⟨n, rfl | rfl⟩ := b.eq_nat_or_neg
  · exact natural a n
  · have turned := natural (-a) n
    rw [← Int.neg_fdiv_neg, neg_neg, ← turned]
    push_cast
    rw [div_neg, neg_div]

theorem isRemainder_fmod (a : Int) {b : Int} (hb : b ≠ 0) : IsRemainder a b (a.fmod b) := by
  have positive {b : Int} (a : Int) (hb : 0 < b) :
      (a.fmod b = 0 ∨ (a.fmod b).sign = 1) ∧ |a.fmod b| < |b| := by
    have low := Int.fmod_nonneg_of_pos a hb
    have high := Int.fmod_lt_of_pos a hb
    refine ⟨low.eq_or_lt.imp Eq.symm Int.sign_eq_one_of_pos, ?_⟩
    rwa [abs_of_nonneg low, abs_of_pos hb]
  have split : a = b * ⌊(a : ℚ) / b⌋ + a.fmod b := by
    rw [floor_div_eq_fdiv, Int.mul_fdiv_add_fmod]
  rcases lt_or_gt_of_ne hb with below | above
  · -- Both signs turned, the divisor is positive.
    obtain ⟨sign, small⟩ := positive (-a) (neg_pos.2 below)
    have turned : (-a).fmod (-b) = -a.fmod b := Int.neg_fmod_neg a b
    rw [turned] at sign small
    rw [abs_neg, abs_neg] at small
    refine ⟨split, ?_, small⟩
    rw [Int.sign_eq_neg_one_of_neg below]
    rw [neg_eq_zero, Int.sign_neg] at sign
    exact sign.imp_right fun h => by omega
  · obtain ⟨sign, small⟩ := positive a above
    rw [← Int.sign_eq_one_of_pos above] at sign
    exact ⟨split, sign, small⟩

/-- A remainder is no further from zero than its divisor, so it fits where that does. -/
theorem IsRemainder.fits {a r : Int} {b : Int64} (h : IsRemainder a b.toInt r) : Fits64 r := by
  have low := Int64.le_toInt b
  have high := Int64.toInt_lt b
  have small := h.small
  have sign := h.sign
  unfold Fits64
  rcases lt_or_ge b.toInt 0 with below | above
  · rw [abs_of_neg below] at small
    have := abs_lt.1 small
    omega
  · rw [abs_of_nonneg above] at small
    have := abs_lt.1 small
    omega

/-! ## § Results on integers -/

/-- A computation gives the integer of 64 bits that is congruent to `n` modulo 2^64. -/
def GivesWord (x : Result Value) (n : Int) : Prop :=
  ∃ c : Int64, x = .ok (.scalar (.int c)) ∧ c.toInt ≡ n [ZMOD 2 ^ 64]

/-- A computation gives exactly the integer `n`. -/
def GivesInt (x : Result Value) (n : Int) : Prop :=
  ∃ c : Int64, x = .ok (.scalar (.int c)) ∧ c.toInt = n

/-- A computation refuses its operands. -/
def Refuses (x : Result Value) : Prop := ∃ e, x = .domain e

theorem givesWord_ofInt (n : Int) : GivesWord (.ok (.scalar (.ofInt n))) n :=
  ⟨_, rfl, Word.ofInt_modEq n⟩

theorem givesInt_ofInt {n : Int} (h : Fits64 n) : GivesInt (.ok (.scalar (.ofInt n))) n :=
  ⟨_, rfl, toInt_ofInt_of_fits h⟩

theorem not_refuses_ok (v : Value) : ¬Refuses (.ok v) := nofun

theorem refuses_ite {c : Prop} [Decidable c] (e : DomainError) (v : Value) :
    Refuses (if c then .domain e else .ok v) ↔ c := by
  constructor
  · intro h
    by_contra other
    rw [if_neg other] at h
    exact not_refuses_ok v h
  · intro h
    exact ⟨e, if_pos h⟩

/-! ## § Operators -/

namespace BinaryPrimitive

/-- What a primitive gives for two integers. -/
def onWords (op : BinaryPrimitive) (a b : Int64) : Result Value :=
  op.apply (.scalar (.int a)) (.scalar (.int b))

variable {op : BinaryPrimitive} {a b : Int64} {name : String}

theorem onWords_power (h : 0 ≤ b.toInt) :
    power.onWords a b = .ok (.scalar (.int (Word.pow a b.toInt.toNat))) := by
  show (if 0 ≤ b.toInt then Except.ok (Scalar.int (Word.pow a b.toInt.toNat))
    else Primitive.powerRat a.toInt b.toInt).map Value.scalar = _
  rw [if_pos h]
  rfl

theorem onWords_shift {meaning : Int64 → Nat → Int64}
    (h : op.onWords a b
      = (Primitive.shift name meaning (.scalar (.int a)) (.scalar (.int b))).map .scalar) :
    op.onWords a b = if b.toInt < 0 then .domain (.negativeShift name)
      else .ok (.scalar (.int (meaning a b.toInt.toNat))) := by
  rw [h]
  show Except.map _ (Except.map _ (if b.toInt < 0 then _ else _)) = _
  split <;> rfl

theorem onWords_shiftLeft (a b : Int64) :
    shiftLeft.onWords a b = if b.toInt < 0 then .domain (.negativeShift "<<")
      else .ok (.scalar (.int (Word.shiftLeft a b.toInt.toNat))) := onWords_shift rfl

theorem onWords_shiftRight (a b : Int64) :
    shiftRight.onWords a b = if b.toInt < 0 then .domain (.negativeShift ">>")
      else .ok (.scalar (.int (Word.shiftRight a b.toInt.toNat))) := onWords_shift rfl

theorem onWords_division {divide : Int → Int → Int}
    (h : op.onWords a b = (if b = 0 then .domain (.divisionByZero name)
      else .ok (.ofInt (divide a.toInt b.toInt)) : Result Scalar).map .scalar) :
    op.onWords a b = if b = 0 then .domain (.divisionByZero name)
      else .ok (.scalar (.ofInt (divide a.toInt b.toInt))) := by
  rw [h]
  split <;> rfl

theorem onWords_integerQuotient (a b : Int64) :
    integerQuotient.onWords a b = if b = 0 then .domain (.divisionByZero "idiv")
      else .ok (.scalar (.ofInt (a.toInt.fdiv b.toInt))) := onWords_division rfl

/-- The two operators for remainders do the same on integers, apart from whom they blame. -/
theorem onWords_remainder (h : op ∈ [integerRemainder, modulo]) (a b : Int64) :
    op.onWords a b = if b = 0 then .domain (.divisionByZero op.name)
      else .ok (.scalar (.ofInt (a.toInt.fmod b.toInt))) := by
  simp only [List.mem_cons, List.not_mem_nil, or_false] at h
  rcases h with rfl | rfl
  · exact onWords_division rfl
  · exact onWords_division rfl

end BinaryPrimitive

open BinaryPrimitive

/-- What the operators on integers give for `a` and `b`. -/
structure IntegerOperators [Machine] (origin : Int) (dice : Dice) (a b : Int64) : Prop where
  negate : GivesWord (UnaryPrimitive.negate.apply origin dice (.scalar (.int a))).1 (-a.toInt)
  absolute : GivesWord (UnaryPrimitive.absolute.apply origin dice (.scalar (.int a))).1 |a.toInt|
  add : GivesWord (add.onWords a b) (a.toInt + b.toInt)
  subtract : GivesWord (subtract.onWords a b) (a.toInt - b.toInt)
  multiply : GivesWord (multiply.onWords a b) (a.toInt * b.toInt)
  power : 0 ≤ b.toInt → GivesWord (power.onWords a b) (a.toInt ^ b.toInt.toNat)
  shiftLeft : 0 ≤ b.toInt → GivesWord (shiftLeft.onWords a b) (a.toInt * 2 ^ b.toInt.toNat)
  shiftRight : 0 ≤ b.toInt →
    GivesInt (shiftRight.onWords a b) ⌊(a.toInt : ℚ) / 2 ^ b.toInt.toNat⌋
  quotient : b ≠ 0 → GivesWord (integerQuotient.onWords a b) ⌊(a.toInt : ℚ) / b.toInt⌋
  remainder : b ≠ 0 → ∀ op ∈ [integerRemainder, modulo],
    ∃ r, GivesInt (op.onWords a b) r ∧ IsRemainder a.toInt b.toInt r
  refusal : ∀ op ∈ [BinaryPrimitive.add, .subtract, .multiply, .power, .shiftLeft, .shiftRight,
      integerQuotient, integerRemainder, modulo], (op = .power → 0 ≤ b.toInt) →
    (Refuses (op.onWords a b) ↔
      (op ∈ [BinaryPrimitive.shiftLeft, .shiftRight] ∧ b.toInt < 0) ∨
        (op ∈ [integerQuotient, integerRemainder, modulo] ∧ b = 0))

/-- **The operators on integers compute exactly, modulo 2^64.** -/
theorem integer_operators [Machine] (origin : Int) (dice : Dice) (a b : Int64) :
    IntegerOperators origin dice a b where
  negate := ⟨-a, rfl, Word.neg_modEq a⟩
  absolute := ⟨_, rfl, Word.abs_modEq a⟩
  add := ⟨a + b, rfl, Word.add_modEq a b⟩
  subtract := ⟨a - b, rfl, Word.sub_modEq a b⟩
  multiply := ⟨a * b, rfl, Word.mul_modEq a b⟩
  power h := ⟨_, onWords_power h, Word.pow_modEq a _⟩
  shiftLeft h := by
    rw [onWords_shiftLeft, if_neg (not_lt.2 h)]
    exact ⟨_, rfl, Word.shiftLeft_modEq a _⟩
  shiftRight h := by
    rw [onWords_shiftRight, if_neg (not_lt.2 h)]
    exact ⟨_, rfl, Word.toInt_shiftRight a _⟩
  quotient h := by
    rw [onWords_integerQuotient, if_neg h, floor_div_eq_fdiv]
    exact givesWord_ofInt _
  remainder h op hop := by
    have some : b.toInt ≠ 0 := fun zero => h (Int64.toInt_inj.1 zero)
    have spec := isRemainder_fmod a.toInt some
    refine ⟨_, ?_, spec⟩
    rw [onWords_remainder hop, if_neg h]
    exact givesInt_ofInt spec.fits
  refusal op hop exponent := by
    simp only [List.mem_cons, List.not_mem_nil, or_false] at hop
    rcases hop with rfl | rfl | rfl | rfl | rfl | rfl | rfl | rfl | rfl
    · exact iff_of_false (not_refuses_ok _) (by simp)
    · exact iff_of_false (not_refuses_ok _) (by simp)
    · exact iff_of_false (not_refuses_ok _) (by simp)
    · rw [onWords_power (exponent rfl)]
      exact iff_of_false (not_refuses_ok _) (by simp)
    · rw [onWords_shiftLeft, refuses_ite]
      simp
    · rw [onWords_shiftRight, refuses_ite]
      simp
    · rw [onWords_integerQuotient, refuses_ite]
      simp
    · rw [onWords_remainder (by simp), refuses_ite]
      simp
    · rw [onWords_remainder (by simp), refuses_ite]
      simp

/-- The quotient of the least integer by minus one wraps around to the least integer. -/
example : integerQuotient.onWords (.ofInt (-0x8000000000000000)) (-1)
    = .ok (.scalar (.int (.ofInt (-0x8000000000000000)))) := by decide +kernel

end ArrayCalc
