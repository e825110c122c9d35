import ArrayCalc.Primitive.Table

/-!
# Canonical values

Operands are promoted on the way, so that `n / 1` is a fraction for a while; but what a primitive
makes is brought down again by `Scalar.ofRat`.  A fraction that is a result therefore has a
denominator other than one, and two results that are exact are equal as values only if they are
equal as numbers.
-/

namespace ArrayCalc

/-- An integer lies in the 64-bit range, a fraction is in lowest terms, no integer and of parts in
that range, and a character is one code point. -/
def Scalar.Canonical : Scalar → Prop
  | .int n => Fits64 n.toInt
  | .rational q => 2 ≤ q.den ∧ q.num.natAbs.Coprime q.den.natAbs ∧ Fits64 q.num ∧ Fits64 q.den
  | .char c => c.code < 0x110000
  | .float _ | .complex _ => True

/-- A vector holds canonical scalars and, by its type, nothing else. -/
def Value.Canonical : Value → Prop
  | .scalar s => s.Canonical
  | .vector items => ∀ s ∈ items, s.Canonical
  | .absent => True

@[simp]
theorem Value.canonical_scalar {s : Scalar} : (Value.scalar s).Canonical ↔ s.Canonical := .rfl

@[simp]
theorem Value.canonical_vector {items : List Scalar} :
    (Value.vector items).Canonical ↔ ∀ s ∈ items, s.Canonical := .rfl

instance (s : Scalar) : Decidable s.Canonical := by
  cases s with
  | int n => exact inferInstanceAs (Decidable (Fits64 _))
  | rational q => exact inferInstanceAs (Decidable (_ ∧ _ ∧ _ ∧ _))
  | char c => exact inferInstanceAs (Decidable (c.code < _))
  | float => exact isTrue trivial
  | complex => exact isTrue trivial

instance (v : Value) : Decidable v.Canonical := by
  cases v with
  | scalar s => exact inferInstanceAs (Decidable s.Canonical)
  | vector items => exact inferInstanceAs (Decidable (∀ s ∈ items, s.Canonical))
  | absent => exact isTrue trivial

namespace Scalar

theorem canonical_int (n : Int64) : (int n).Canonical := fits64_toInt n

theorem canonical_char (c : CodePoint) : (char c).Canonical := c.code_lt

/-- What the type of fractions leaves open is whether one is an integer. -/
theorem canonical_rational {q : Fraction} : (rational q).Canonical ↔ q.val.den ≠ 1 := by
  have positive := q.val.den_pos
  constructor
  · rintro ⟨two, -⟩ one
    unfold Fraction.den at two
    omega
  · intro other
    refine ⟨?_, ?_, q.num_fits, q.den_fits⟩
    · unfold Fraction.den
      omega
    · simpa [Fraction.num, Fraction.den] using q.val.reduced

theorem canonical_of_ne {s : Scalar} (h : ∀ q, s ≠ rational q) : s.Canonical := by
  cases s with
  | int n => exact canonical_int n
  | rational q => exact absurd rfl (h q)
  | char c => exact canonical_char c
  | float => exact trivial
  | complex => exact trivial

end Scalar

theorem Value.canonical_ofText (text : List CodePoint) : (ofText text).Canonical := by
  intro s hs
  obtain ⟨c, -, rfl⟩ := List.mem_map.1 hs
  exact Scalar.canonical_char c

namespace Scalar

/-- Integers and fractions. -/
def isExact : Scalar → Bool
  | .int _ | .rational _ => true
  | _ => false

theorem int_ne_rational {n : Int64} {q : Fraction} (h : (rational q).Canonical) :
    (n.toInt : Rat) ≠ q.val := by
  intro same
  refine canonical_rational.1 h ?_
  rw [← same, Rat.den_intCast]

end Scalar

open Primitive (equals) in
/-- **Exact values are equal as numbers only if they are the same value.**  Without canonical forms
`1` and `1/1` would be two. -/
theorem equal_apply_exact {a b : Scalar} (exact_a : a.isExact = true) (exact_b : b.isExact = true)
    (ha : a.Canonical) (hb : b.Canonical) :
    BinaryPrimitive.equal.apply (.scalar a) (.scalar b)
      = .ok (.scalar (.int (if a = b then 1 else 0))) := by
  have by_value (holds : Bool) (h : equals (.scalar a) (.scalar b) = .ok holds)
      (same : holds = true ↔ a = b) : BinaryPrimitive.equal.apply (.scalar a) (.scalar b)
        = .ok (.scalar (.int (if a = b then 1 else 0))) := by
    show (do return .scalar (← (do return .ofBool (← equals (.scalar a) (.scalar b)))) :
      Result Value) = _
    rw [h]
    show Except.ok (Value.scalar (.int (if holds = true then 1 else 0))) = _
    simp only [same]
  cases a with
  | int m =>
    cases b with
    | int n => exact by_value (m == n) rfl (by simp)
    | rational q =>
      refine by_value ((m.toInt : Rat) == q.val) rfl ?_
      simpa using Scalar.int_ne_rational hb
    | float | complex | char => exact nomatch exact_b
  | rational p =>
    cases b with
    | int n =>
      refine by_value (p.val == (n.toInt : Rat)) rfl ?_
      simpa using (Scalar.int_ne_rational ha).symm
    | rational q =>
      refine by_value (p.val == q.val) rfl ?_
      obtain ⟨p, _, _⟩ := p
      obtain ⟨q, _, _⟩ := q
      simp
    | float | complex | char => exact nomatch exact_b
  | float | complex | char => exact nomatch exact_a

end ArrayCalc
