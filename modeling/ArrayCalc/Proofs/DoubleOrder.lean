import ArrayCalc.Proofs.DoubleWords

/-!
# The order of doubles

The rest of a word behind its sign, read with that sign, is a whole number that stands to others as
the double does: both zeros are zero, and beyond infinity there is only what is undefined, which
stands in no order.  A bulk route goes by the same numbers, but puts minus zero before zero and takes
what is too small for a zero.
-/

namespace ArrayCalc.Double

open Float.Model (Format UnpackedFloat)
open Float.Model.UnpackedFloat

variable {x y : Float} {m₁ m₂ n₁ n₂ : Nat} {e₁ e₂ a b : Int} {u v : UnpackedFloat} {s t : Sign}

/-! ## § Numbers taken apart -/

/-- The size of a double as a whole number, with its sign. -/
def standing (x : Float) : Int := if isNegative x then -(sizeBits x : Int) else sizeBits x

/-- Where a number stands that has been taken apart. -/
inductive Stands : UnpackedFloat → Int → Prop
  | infinity (s : Sign) : Stands (.infinity s) (s.apply (2047 * leadingBit))
  | zero (s : Sign) : Stands (.zero s) 0
  | finite (s : Sign) {m : Nat} {e : Int} (pos : 0 < m) (_ : Proper m e) :
    Stands (.finite s m e pos) (s.apply (rank m e))

theorem rank_pos (pos : 0 < m₁) (e : Int) : 0 < rank m₁ e :=
  Nat.lt_of_lt_of_le pos (Nat.le_add_left _ _)

/-- Mantissas count only where the exponents are the same. -/
theorem compare_rank (h₁ : Proper m₁ e₁) (h₂ : Proper m₂ e₂) :
    (compare e₁ e₂).then (compare m₁ m₂) = compare (rank m₁ e₁) (rank m₂ e₂) := by
  obtain ⟨below₁, least₁, -, leading₁⟩ := h₁
  obtain ⟨below₂, least₂, -, leading₂⟩ := h₂
  rcases Int.lt_trichotomy e₁ e₂ with less | rfl | greater
  · have ranks : rank m₁ e₁ < rank m₂ e₂ := by
      unfold rank leadingBit at *
      omega
    rw [Int.compare_eq_lt.2 less, Nat.compare_eq_lt.2 ranks]
    rfl
  · unfold rank
    rw [Int.compare_eq_eq.2 rfl, Ordering.eq_then, Nat.compare_eq_ite_lt, Nat.compare_eq_ite_lt]
    simp only [Nat.add_lt_add_iff_left]
  · have ranks : rank m₂ e₂ < rank m₁ e₁ := by
      unfold rank leadingBit at *
      omega
    rw [Int.compare_eq_gt.2 greater, Nat.compare_eq_gt.2 ranks]
    rfl

theorem apply_cases (s : Sign) (n : Int) :
    s = .positive ∧ s.apply n = n ∨ s = .negative ∧ s.apply n = -n := by
  cases s with
  | positive => exact .inl ⟨rfl, rfl⟩
  | negative => exact .inr ⟨rfl, rfl⟩

/-- **The order of doubles is that of their standings.** -/
theorem Stands.le_iff (hu : Stands u a) (hv : Stands v b) : u.le v = true ↔ a ≤ b := by
  cases hu with
  | infinity s =>
    cases hv with
    | infinity t => cases s <;> cases t <;> decide
    | zero t => cases s <;> cases t <;> decide
    | @finite t m e pos h =>
      have most := h.rank_lt
      obtain ⟨rfl, right⟩ | ⟨rfl, right⟩ := apply_cases t (rank m e) <;>
        obtain ⟨rfl, left⟩ | ⟨rfl, left⟩ := apply_cases s (2047 * leadingBit) <;> rw [left, right]
      · exact iff_of_false Bool.false_ne_true (by omega)
      · exact iff_of_true rfl (by omega)
      · exact iff_of_false Bool.false_ne_true (by omega)
      · exact iff_of_true rfl (by omega)
  | zero s =>
    cases hv with
    | infinity t => cases s <;> cases t <;> decide
    | zero t => cases s <;> cases t <;> decide
    | @finite t m e pos h =>
      have least := rank_pos pos e
      obtain ⟨rfl, right⟩ | ⟨rfl, right⟩ := apply_cases t (rank m e) <;> rw [right]
      · exact iff_of_true rfl (by omega)
      · exact iff_of_false Bool.false_ne_true (by omega)
  | @finite s m e pos h =>
    have least := rank_pos pos e
    have most := h.rank_lt
    cases hv with
    | infinity t =>
      obtain ⟨rfl, right⟩ | ⟨rfl, right⟩ := apply_cases t (2047 * leadingBit) <;>
        obtain ⟨rfl, left⟩ | ⟨rfl, left⟩ := apply_cases s (rank m e) <;> rw [left, right]
      · exact iff_of_true rfl (by omega)
      · exact iff_of_true rfl (by omega)
      · exact iff_of_false Bool.false_ne_true (by omega)
      · exact iff_of_false Bool.false_ne_true (by omega)
    | zero t =>
      obtain ⟨rfl, left⟩ | ⟨rfl, left⟩ := apply_cases s (rank m e) <;> rw [left]
      · exact iff_of_false Bool.false_ne_true (by omega)
      · exact iff_of_true rfl (by omega)
    | @finite t m' e' pos' k =>
      have least' := rank_pos pos' e'
      obtain ⟨rfl, right⟩ | ⟨rfl, right⟩ := apply_cases t (rank m' e') <;>
        obtain ⟨rfl, left⟩ | ⟨rfl, left⟩ := apply_cases s (rank m e) <;> rw [left, right]
      · show ((compare e e').then (compare m m')).isLE = true ↔ _
        rw [compare_rank h k]
        simp [Nat.isLE_compare]
      · exact iff_of_true rfl (by omega)
      · exact iff_of_false Bool.false_ne_true (by omega)
      · show ((compare e e').then (compare m m')).swap.isLE = true ↔ _
        rw [compare_rank h k]
        simp [Nat.isGE_compare]

/-! ## § Words -/

def word (x : Float) : BitVec Format.binary64.numBits := x.toBits.toBitVec

theorem apply_unpackSign (x : Float) (n : Nat) :
    (Sign.ofBitVec (unpackSign (word x))).apply n = if isNegative x then -(n : Int) else n := by
  have bound := x.toBits.toNat_lt
  have sign : (unpackSign (word x)).toNat = x.toBits.toNat / signBit := toNat_unpackSign (word x)
  unfold isNegative
  by_cases negative : x.toBits.toNat ≥ signBit
  · have one : unpackSign (word x) = 1#1 := by
      apply BitVec.eq_of_toNat_eq
      rw [sign]
      unfold signBit at *
      show _ = 1
      omega
    rw [one, if_pos (decide_eq_true negative)]
    rfl
  · have zero : unpackSign (word x) = 0#1 := by
      apply BitVec.eq_of_toNat_eq
      rw [sign, Nat.div_eq_of_lt (Nat.not_le.1 negative)]
      rfl
    rw [zero, if_neg (by simpa using negative)]
    rfl

theorem unpackMantissa_lt (x : Float) : (unpackMantissa (word x)).toNat < leadingBit := by
  rw [toNat_unpackMantissa]
  exact Nat.mod_lt _ (by decide)

theorem sizeBits_eq (x : Float) : sizeBits x
    = (unpackExponent (word x)).toNat * leadingBit + (unpackMantissa (word x)).toNat := by
  rw [toNat_unpackExponent, toNat_unpackMantissa]
  show x.toBits.toNat % signBit
    = x.toBits.toNat / leadingBit % 2048 * leadingBit + x.toBits.toNat % leadingBit
  unfold signBit leadingBit
  omega

/-- With the least exponent the mantissa is that of the word. -/
theorem proper_subnormal (least : (unpackExponent (word x)).toNat = 0) :
    Proper (unpackMantissa (word x)).toNat ((unpackExponent (word x)).toNat - 1075 + 1 : Int) ∧
      sizeBits x = rank (unpackMantissa (word x)).toNat
        ((unpackExponent (word x)).toNat - 1075 + 1 : Int) := by
  have below := unpackMantissa_lt x
  rw [sizeBits_eq, least]
  exact ⟨⟨by omega, by decide, by decide, .inr rfl⟩, rfl⟩

/-- With any other exponent of a finite double the mantissa has a leading bit. -/
theorem proper_normal (some : (unpackExponent (word x)).toNat ≠ 0)
    (most : (unpackExponent (word x)).toNat < 2047) :
    Proper (1#1 ++ unpackMantissa (word x)).toNat ((unpackExponent (word x)).toNat - 1075 : Int) ∧
      sizeBits x = rank (1#1 ++ unpackMantissa (word x)).toNat
        ((unpackExponent (word x)).toNat - 1075 : Int) := by
  have below := unpackMantissa_lt x
  have size := sizeBits_eq x
  rw [toNat_implicit (unpackMantissa (word x))]
  refine ⟨⟨by omega, by omega, by omega, .inl (Nat.le_add_right _ _)⟩, ?_⟩
  rw [size]
  unfold rank leadingBit
  omega

/-- What the word of a double means: it is undefined if there is more to it than to infinity, and
otherwise it stands where its size and its sign say. -/
theorem unpack_stands (x : Float) :
    x.isNaN = true ∧ 2047 * leadingBit < sizeBits x ∨
      x.isNaN = false ∧ sizeBits x ≤ 2047 * leadingBit ∧ Stands x.toModel.unpack (standing x) := by
  have size := sizeBits_eq x
  have below := unpackMantissa_lt x
  have stands : standing x = (Sign.ofBitVec (unpackSign (word x))).apply (sizeBits x) :=
    (apply_unpackSign x _).symm
  rw [stands]
  show (UnpackedFloat.unpack .binary64 (word x)).isNaN = true ∧ _ ∨
    (UnpackedFloat.unpack .binary64 (word x)).isNaN = false ∧ _ ∧
      Stands (UnpackedFloat.unpack .binary64 (word x)) _
  rcases unpack_cases (word x) with ⟨high, zero, unpacked⟩ | ⟨high, other, unpacked⟩ |
    ⟨low, zero, unpacked⟩ | ⟨low, pos, unpacked⟩ | ⟨high, low, pos, unpacked⟩
  · have all : (unpackExponent (word x)).toNat = 2047 := congrArg BitVec.toNat high
    have none : (unpackMantissa (word x)).toNat = 0 := congrArg BitVec.toNat zero
    rw [unpacked, size, all, none]
    exact .inr ⟨rfl, Nat.le_refl _, .infinity _⟩
  · have all : (unpackExponent (word x)).toNat = 2047 := congrArg BitVec.toNat high
    have some := toNat_ne_zero other
    rw [all] at size
    rw [unpacked]
    exact .inl ⟨rfl, by omega⟩
  · have least : (unpackExponent (word x)).toNat = 0 := congrArg BitVec.toNat low
    have none : (unpackMantissa (word x)).toNat = 0 := congrArg BitVec.toNat zero
    rw [unpacked, size, least, none]
    refine .inr ⟨rfl, Nat.zero_le _, ?_⟩
    cases Sign.ofBitVec (unpackSign (word x)) <;> exact .zero _
  · obtain ⟨proper, ranked⟩ := proper_subnormal (congrArg BitVec.toNat low)
    rw [unpacked, ranked]
    exact .inr ⟨rfl, Nat.le_of_lt proper.rank_lt, .finite _ _ proper⟩
  · have most : (unpackExponent (word x)).toNat < 2047 := by
      have other : (unpackExponent (word x)).toNat ≠ 2047 := fun h => high (BitVec.eq_of_toNat_eq h)
      have short : (unpackExponent (word x)).toNat < 2048 := (unpackExponent (word x)).isLt
      omega
    obtain ⟨proper, ranked⟩ := proper_normal (toNat_ne_zero low) most
    rw [unpacked, ranked]
    exact .inr ⟨rfl, Nat.le_of_lt proper.rank_lt, .finite _ _ proper⟩

theorem isNaN_iff (x : Float) : x.isNaN = true ↔ 2047 * leadingBit < sizeBits x := by
  rcases unpack_stands x with ⟨undefined, size⟩ | ⟨defined, size, -⟩
  · exact iff_of_true undefined size
  · exact iff_of_false (by rw [defined]; exact Bool.false_ne_true) (Nat.not_lt.2 size)

/-- **Doubles are ordered by their standings**, and undefined ones not at all. -/
theorem le_iff (x y : Float) :
    x ≤ y ↔ x.isNaN = false ∧ y.isNaN = false ∧ standing x ≤ standing y := by
  have unpacked : x ≤ y ↔ x.toModel.unpack.le y.toModel.unpack = true := by
    show decide (x.toModel ≤ y.toModel) = true ↔ _
    rw [decide_eq_true_iff]
    rfl
  have undefined {z : Float} (h : z.isNaN = true) : z.toModel.unpack = .notANumber := by
    change z.toModel.unpack.isNaN = true at h
    unfold UnpackedFloat.isNaN at h
    split at h
    next e => exact e
    next => exact nomatch h
  rw [unpacked]
  rcases unpack_stands x with ⟨hx, -⟩ | ⟨hx, -, stands⟩
  · rw [undefined hx, hx]
    exact iff_of_false Bool.false_ne_true fun h => nomatch h.1
  rcases unpack_stands y with ⟨hy, -⟩ | ⟨hy, -, stands'⟩
  · rw [undefined hy, hy]
    refine iff_of_false ?_ fun h => nomatch h.2.1
    cases x.toModel.unpack <;> exact Bool.false_ne_true
  · rw [stands.le_iff stands', hx, hy]
    exact ⟨fun h => ⟨rfl, rfl, h⟩, fun h => h.2.2⟩

/-- There is only one undefined double. -/
theorem eq_of_isNaN (hx : x.isNaN = true) (hy : y.isNaN = true) : x = y := by
  have bits {z : Float} (h : z.isNaN = true) :
      z.toBits.toBitVec = packedNaN Format.binary64 := by
    have size := sizeBits_eq z
    have below := unpackMantissa_lt z
    have beyond := (isNaN_iff z).1 h
    have short : (unpackExponent (word z)).toNat < 2048 := (unpackExponent (word z)).isLt
    refine z.toModel.valid.eq_packedNaN (BitVec.eq_of_toNat_eq ?_) fun none => ?_
    · show (unpackExponent (word z)).toNat = 2047
      unfold leadingBit at *
      omega
    · have none : (unpackMantissa (word z)).toNat = 0 := congrArg BitVec.toNat none
      unfold leadingBit at *
      omega
  exact eq_of_toBits (congrArg BitVec.toNat ((bits hx).trans (bits hy).symm))

/-! ## § The order of bulk routes -/

theorem place_eq (x : Float) :
    place x = if isNegative x then standing x - 1 else standing x := by
  unfold place standing sizeBits
  dsimp only
  split <;> rfl

/-- Every double has a place of its own. -/
theorem eq_of_place (h : place x = place y) : x = y := by
  have hx := x.toBits.toNat_lt
  have hy := y.toBits.toNat_lt
  apply eq_of_toBits
  unfold place isNegative signBit at h
  simp only [decide_eq_true_eq] at h
  split at h <;> split at h <;> omega

/-- Too small for a full mantissa: a zero, or what counts as a zero on a bulk route. -/
def IsTiny (x : Float) : Prop := sizeBits x < leadingBit

theorem flushed_eq (x : Float) :
    flushed x = if sizeBits x < leadingBit then copySign 0 x else x := by
  have bound := x.toBits.toNat_lt
  unfold flushed magnitude sizeBits
  dsimp only
  by_cases special : x.toBits.toNat / leadingBit % 2048 = 2047
  · have large : ¬x.toBits.toNat % signBit < leadingBit := by
      unfold signBit leadingBit at *
      omega
    rw [if_pos special, if_neg large]
    by_cases infinite : x.toBits.toNat % leadingBit = 0
    · rw [if_pos infinite]
    · rw [if_neg infinite]
  · rw [if_neg special]
    by_cases least : x.toBits.toNat / leadingBit % 2048 = 0
    · have small : x.toBits.toNat % signBit < leadingBit := by
        unfold signBit leadingBit at *
        omega
      rw [if_pos least, if_pos small]
      exact if_pos (Nat.mod_lt _ (by decide))
    · have large : ¬x.toBits.toNat % signBit < leadingBit := by
        unfold signBit leadingBit at *
        omega
      rw [if_neg least, if_neg large]
      exact if_neg (Nat.not_lt.2 (Nat.le_add_right _ _))

end ArrayCalc.Double
