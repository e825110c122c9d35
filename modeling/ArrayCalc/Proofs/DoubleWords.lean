import ArrayCalc.Number.Double

/-!
# Words of doubles

The word of a double consists of its sign, an exponent and a fraction.  Unless it is that of an
undefined number it is kept when the double is taken apart and put together again, and so a double is
known by its sign and the rest of its word.  That rest is the rank of the size among all sizes: a
mantissa that overflows goes on with the next exponent.
-/

namespace ArrayCalc.Double

open Float.Model (Format UnpackedFloat)
open Float.Model.UnpackedFloat

variable {x : Float} {mantissa n : Nat} {exponent : Int}

/-! ## § Fields -/

section Fields

variable (b : BitVec Format.binary64.numBits)

theorem toNat_unpackMantissa : (unpackMantissa b).toNat = b.toNat % leadingBit := by
  simp [unpackMantissa, leadingBit]

theorem toNat_unpackExponent : (unpackExponent b).toNat = b.toNat / leadingBit % 2048 := by
  simp [unpackExponent, leadingBit, Nat.shiftRight_eq_div_pow]

theorem toNat_unpackSign : (unpackSign b).toNat = b.toNat / signBit := by
  have bound : b.toNat < 2 ^ 64 := b.isLt
  show (b.extractLsb 63 63).toNat = _
  simp [signBit, Nat.shiftRight_eq_div_pow]
  omega

theorem toNat_packComponents (s : Sign) (e : BitVec 11) (m : BitVec 52) :
    (packComponents .binary64 s e m).toNat
      = s.toBitVec.toNat * signBit + e.toNat * leadingBit + m.toNat := by
  have he := e.isLt
  have hm := m.isLt
  unfold packComponents
  rw [BitVec.toNat_append, BitVec.toNat_append, ← Nat.shiftLeft_add_eq_or_of_lt he,
    ← Nat.shiftLeft_add_eq_or_of_lt hm]
  simp [Nat.shiftLeft_eq, signBit, leadingBit]
  omega

theorem packComponents_unpack :
    packComponents .binary64 (.ofBitVec (unpackSign b)) (unpackExponent b) (unpackMantissa b)
      = b := by
  have sign (s : BitVec 1) : (Sign.ofBitVec s).toBitVec = s := by
    revert s
    decide
  have := b.isLt
  apply BitVec.eq_of_toNat_eq
  rw [toNat_packComponents, sign, toNat_unpackMantissa, toNat_unpackExponent, toNat_unpackSign]
  simp [signBit, leadingBit]
  omega

theorem toNat_ne_zero {size : Nat} {b : BitVec size} (h : b ≠ BitVec.ofNat size 0) : b.toNat ≠ 0 :=
  fun e => h (BitVec.eq_of_toNat_eq e)

/-- A mantissa with its leading bit. -/
theorem toNat_implicit (m : BitVec 52) : (1#1 ++ m).toNat = leadingBit + m.toNat := by
  rw [BitVec.toNat_append, ← Nat.shiftLeft_add_eq_or_of_lt m.isLt]
  rfl

theorem pack_normal (s : Sign) (e : BitVec 11) (m : BitVec 52) (high : e ≠ -1#11)
    (pos : 0 < (1#1 ++ m).toNat) :
    pack .binary64 (.finite s (1#1 ++ m).toNat ((e.toNat : Int) - 1075) pos)
      = packComponents .binary64 s e m := by
  have below := m.isLt
  -- With its leading bit the mantissa is as long as it can be, so it is packed as a normal one.
  have log : (1#1 ++ m).toNat.log2 = 52 := by
    rw [Nat.log2_eq_iff (Nat.ne_of_gt pos), toNat_implicit, leadingBit]
    omega
  have he : e.toNat + 1 < 2048 := by
    have other : e.toNat ≠ 2047 := fun h => high (BitVec.eq_of_toNat_eq h)
    have := e.isLt
    omega
  have biased : ((e.toNat : Int) - 1075 + 1023 + 52).toNat = e.toNat := by omega
  unfold pack
  dsimp only
  show (if 2048 ≤ ((e.toNat : Int) - 1075 + 1023 + 52).toNat + 1 then _ else _) = _
  rw [biased, if_neg (Nat.not_le.2 he), if_pos (by rw [log]; rfl)]
  congr 1
  · show BitVec.ofNat 11 ((e.toNat : Int) - 1075 + 1023 + 52).toNat = e
    rw [biased, BitVec.ofNat_toNat, BitVec.setWidth_eq]
  · apply BitVec.eq_of_toNat_eq
    rw [BitVec.toNat_ofNat, toNat_implicit, leadingBit]
    omega

theorem pack_subnormal (s : Sign) (m : BitVec 52) (pos : 0 < m.toNat) :
    pack .binary64 (.finite s m.toNat (-1074) pos) = packComponents .binary64 s 0#11 m := by
  have below : m.toNat.log2 < 52 := (Nat.log2_lt (Nat.ne_of_gt pos)).2 m.isLt
  unfold pack
  dsimp only
  rw [if_neg (by decide), if_neg]
  · rw [BitVec.ofNat_toNat, BitVec.setWidth_eq]
  · show m.toNat.log2 + 1 ≠ 53
    omega

/-- The kinds of words. -/
theorem unpack_cases :
    (unpackExponent b = -1#11 ∧ unpackMantissa b = 0#52 ∧
      unpack .binary64 b = .infinity (.ofBitVec (unpackSign b))) ∨
    (unpackExponent b = -1#11 ∧ unpackMantissa b ≠ 0#52 ∧ unpack .binary64 b = .notANumber) ∨
    (unpackExponent b = 0#11 ∧ unpackMantissa b = 0#52 ∧
      unpack .binary64 b = .zero (.ofBitVec (unpackSign b))) ∨
    (unpackExponent b = 0#11 ∧ ∃ pos, unpack .binary64 b = .finite (.ofBitVec (unpackSign b))
      (unpackMantissa b).toNat ((unpackExponent b).toNat - 1075 + 1) pos) ∨
    (unpackExponent b ≠ -1#11 ∧ unpackExponent b ≠ 0#11 ∧
      ∃ pos, unpack .binary64 b = .finite (.ofBitVec (unpackSign b))
        (1#1 ++ unpackMantissa b).toNat ((unpackExponent b).toNat - 1075) pos) := by
  by_cases high : unpackExponent b = -1#11
  · by_cases zero : unpackMantissa b = 0#52
    · exact .inl ⟨high, zero, (if_pos high).trans (if_pos zero)⟩
    · exact .inr (.inl ⟨high, zero, (if_pos high).trans (if_neg zero)⟩)
  by_cases low : unpackExponent b = 0#11
  · by_cases zero : unpackMantissa b = 0#52
    · exact .inr (.inr (.inl ⟨low, zero, (if_neg high).trans ((if_pos low).trans (dif_pos zero))⟩))
    · exact .inr (.inr (.inr (.inl
        ⟨low, _, (if_neg high).trans ((if_pos low).trans (dif_neg zero))⟩)))
  · exact .inr (.inr (.inr (.inr ⟨high, low, _, (if_neg high).trans (if_neg low)⟩)))

/-- A word that is not undefined means a number of its sign, and that number with either sign is
packed as the same word with that sign. -/
theorem unpack_fields (h : b.toNat % signBit ≤ 2047 * leadingBit) :
    ∃ number : Sign → UnpackedFloat,
      unpack .binary64 b = number (.ofBitVec (unpackSign b)) ∧
      ∀ s, pack .binary64 (number s)
          = packComponents .binary64 s (unpackExponent b) (unpackMantissa b) ∧
        (number s).neg = number (-s) := by
  rcases unpack_cases b with ⟨high, zero, unpacked⟩ | ⟨high, other, -⟩ | ⟨low, zero, unpacked⟩ |
    ⟨low, pos, unpacked⟩ | ⟨high, -, pos, unpacked⟩
  · rw [high, zero]
    exact ⟨.infinity, unpacked, fun s => ⟨rfl, rfl⟩⟩
  · -- Words above that of infinity are undefined, which `h` rules out.
    have he := toNat_unpackExponent b
    have hm := toNat_unpackMantissa b
    have some := toNat_ne_zero other
    have all := congrArg BitVec.toNat high
    change _ = 2047 at all
    unfold signBit leadingBit at *
    omega
  · rw [low, zero]
    exact ⟨.zero, unpacked, fun s => ⟨rfl, rfl⟩⟩
  · rw [low] at unpacked ⊢
    exact ⟨(.finite · _ _ pos), unpacked, fun s => ⟨pack_subnormal s _ _, rfl⟩⟩
  · exact ⟨(.finite · _ _ pos), unpacked, fun s => ⟨pack_normal s _ _ high _, rfl⟩⟩

end Fields

/-! ## § Words and their doubles -/

theorem eq_of_toBits {y : Float} (h : x.toBits.toNat = y.toBits.toNat) : x = y := by
  obtain ⟨⟨_, _⟩⟩ := x
  obtain ⟨⟨_, _⟩⟩ := y
  obtain rfl := UInt64.toNat_inj.1 h
  rfl

/-- The word of a double without its sign. -/
def sizeBits (x : Float) : Nat := x.toBits.toNat % signBit

/-- The positive double of a word, or zero. -/
def ofSize (n : Nat) : Float := Float.ofBits (UInt64.ofNat n)

theorem toBits_ofSize (h : n ≤ 2047 * leadingBit) : (ofSize n).toBits.toNat = n := by
  unfold leadingBit at h
  have small : n % 18446744073709551616 = n := by omega
  have hb : (UInt64.ofNat n).toBitVec.toNat = n := small
  have positive : n % signBit ≤ 2047 * leadingBit := by
    unfold signBit leadingBit
    omega
  obtain ⟨number, unpacked, same⟩ := unpack_fields (UInt64.ofNat n).toBitVec (by rwa [hb])
  show (pack .binary64 (unpack .binary64 (UInt64.ofNat n).toBitVec)).toNat = n
  rw [unpacked, (same _).1, packComponents_unpack, hb]

theorem toBits_neg (h : x.toBits.toNat ≤ 2047 * leadingBit) :
    (-x).toBits.toNat = signBit + x.toBits.toNat := by
  obtain ⟨b, word⟩ : ∃ b : BitVec Format.binary64.numBits, b = x.toBits.toBitVec := ⟨_, rfl⟩
  have bits : x.toBits.toNat = b.toNat := by rw [word]; rfl
  have small : b.toNat < signBit := by
    unfold signBit leadingBit at *
    omega
  have positive : unpackSign b = 0#1 := by
    apply BitVec.eq_of_toNat_eq
    rw [toNat_unpackSign, Nat.div_eq_of_lt small]
    rfl
  obtain ⟨number, unpacked, same⟩ := unpack_fields b (by rwa [Nat.mod_eq_of_lt small, ← bits])
  show (pack .binary64 (unpack .binary64 x.toBits.toBitVec).neg).toNat = _
  rw [← word, unpacked, (same _).2, (same _).1, positive, toNat_packComponents,
    toNat_unpackExponent, toNat_unpackMantissa, bits]
  show 1 * signBit + _ + _ = _
  unfold signBit leadingBit at *
  omega

/-- **A double is known by its sign and the rest of its word.** -/
theorem eq_ofSize (h : sizeBits x ≤ 2047 * leadingBit) :
    x = if isNegative x then -ofSize (sizeBits x) else ofSize (sizeBits x) := by
  have bits := toBits_ofSize h
  have bound := x.toBits.toNat_lt
  unfold sizeBits at *
  apply eq_of_toBits
  split
  next negative =>
    have := of_decide_eq_true negative
    rw [toBits_neg (by rwa [bits]), bits]
    unfold signBit at *
    omega
  next positive =>
    have : ¬x.toBits.toNat ≥ signBit := fun h => positive (decide_eq_true h)
    rw [bits]
    unfold signBit at *
    omega

theorem eq_infinity (h : magnitude x = .infinite) :
    x = if isNegative x then -infinity else infinity := by
  have size : sizeBits x = 2047 * leadingBit := by
    unfold magnitude at h
    dsimp only at h
    unfold sizeBits signBit leadingBit at *
    grind
  have same := eq_ofSize (x := x) (Nat.le_of_eq size)
  rw [size] at same
  exact same

/-! ## § Ranks -/

/-- A mantissa and an exponent that a finite double can have.  The mantissa has 53 bits, unless the
exponent is the least. -/
structure Proper (mantissa : Nat) (exponent : Int) : Prop where
  below : mantissa < 2 * leadingBit
  least : -1074 ≤ exponent
  most : exponent ≤ 971
  leading : leadingBit ≤ mantissa ∨ exponent = -1074

/-- How many sizes there are below. -/
def rank (mantissa : Nat) (exponent : Int) : Nat := (exponent + 1074).toNat * leadingBit + mantissa

theorem Proper.rank_lt (h : Proper mantissa exponent) :
    rank mantissa exponent < 2047 * leadingBit := by
  obtain ⟨below, least, most, -⟩ := h
  unfold rank leadingBit at *
  omega

theorem proper_of_magnitude (h : magnitude x = .finite mantissa exponent) :
    Proper mantissa exponent ∧ sizeBits x = rank mantissa exponent := by
  have bound := x.toBits.toNat_lt
  have pos : 0 < leadingBit := by decide
  have fraction := Nat.mod_lt x.toBits.toNat pos
  unfold magnitude at h
  dsimp only at h
  split at h
  next => split at h <;> exact nomatch h
  next high =>
    split at h
    next zero =>
      obtain ⟨rfl, rfl⟩ := Magnitude.finite.inj h
      refine ⟨⟨by omega, by decide, by decide, .inr rfl⟩, ?_⟩
      unfold sizeBits signBit rank
      unfold leadingBit at *
      omega
    next some =>
      obtain ⟨rfl, rfl⟩ := Magnitude.finite.inj h
      refine ⟨⟨by omega, by omega, by omega, .inl (Nat.le_add_right _ _)⟩, ?_⟩
      unfold sizeBits signBit rank
      unfold leadingBit at *
      omega

/-- **A finite double is the one with its rank, up to the sign.** -/
theorem eq_of_rank (h : magnitude x = .finite mantissa exponent) :
    x = if isNegative x then -ofSize (rank mantissa exponent)
      else ofSize (rank mantissa exponent) := by
  obtain ⟨proper, size⟩ := proper_of_magnitude h
  rw [← size]
  exact eq_ofSize (size ▸ Nat.le_of_lt proper.rank_lt)

end ArrayCalc.Double
