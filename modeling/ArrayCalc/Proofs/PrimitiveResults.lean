import ArrayCalc.Proofs.Canonical
import ArrayCalc.Value.Checked
import Mathlib.Data.Nat.Sqrt

/-!
# Results of primitives

A primitive gives a value for values, or it fails for one of three reasons: an operand is of the
wrong sort, operands do not fit together, or a number is too large for a double or is none.  The
failures that stand for a mistake of the evaluator itself, an absent value above all, are not among
them.

The scalars it makes are canonical, whatever it was given; only the identity and the real part hand
on an operand, and need a canonical one for that.
-/

namespace ArrayCalc

/-- What an operation on values may fail with. -/
inductive Failure.OfValues : Failure → Prop
  | domain (e : DomainError) : OfValues (.error (.domain e))
  | shape (e : ShapeError) : OfValues (.error (.shape e))
  | overflow : OfValues (.fault .overflow)
  | undefinedInteger : OfValues (.fault .undefinedInteger)

namespace Result

/-- A result with a property, or a failure of an operation on values. -/
def Gives {α : Type} (x : Result α) (P : α → Prop) : Prop :=
  match x with
  | .ok a => P a
  | .error failure => failure.OfValues

/-- A result that is no failure but one of an operation on values. -/
abbrev Tame {α : Type} (x : Result α) : Prop := x.Gives fun _ => True

namespace Gives

variable {α β : Type} {x : Result α} {P : α → Prop} {Q : β → Prop}

theorem ok {a : α} (h : P a) : Result.Gives (.ok a) P := h

theorem domain (e : DomainError) : (Result.domain e).Gives P := Failure.OfValues.domain e

theorem shape (e : ShapeError) : (Result.shape e).Gives P := Failure.OfValues.shape e

theorem overflow : (Result.fault .overflow).Gives P := Failure.OfValues.overflow

theorem undefinedInteger : (Result.fault .undefinedInteger).Gives P :=
  Failure.OfValues.undefinedInteger

theorem bind {f : α → Result β} (hx : x.Gives P) (hf : ∀ a, P a → (f a).Gives Q) :
    (x >>= f).Gives Q := by
  cases x with
  | ok a => exact hf a hx
  | error => exact hx

theorem ite {c : Prop} [Decidable c] {y : Result α} (hx : x.Gives P) (hy : y.Gives P) :
    (if c then x else y).Gives P := by
  split
  · exact hx
  · exact hy

theorem mono {P' : α → Prop} (h : x.Gives P') (hP : ∀ a, P' a → P a) : x.Gives P := by
  cases x with
  | ok a => exact hP a h
  | error => exact h

theorem map {f : α → β} (hx : x.Gives P) (hf : ∀ a, P a → Q (f a)) :
    Result.Gives (Except.map f x) Q := by
  cases x with
  | ok a => exact hf a hx
  | error => exact hx

/-- What is done with a result that can be anything. -/
theorem andThen {f : α → Result β} (hx : x.Tame) (hf : ∀ a, (f a).Gives Q) :
    (x >>= f).Gives Q :=
  .bind hx fun a _ => hf a

theorem mapM {f : α → Result β} {as : List α} (h : ∀ a ∈ as, (f a).Gives Q) :
    (as.mapM f).Gives fun bs => ∀ b ∈ bs, Q b := by
  induction as with
  | nil => exact .ok nofun
  | cons a as ih =>
    rw [List.mapM_cons]
    refine .bind (h a List.mem_cons_self) fun b hb => ?_
    refine .bind (ih fun a' ha => h a' (List.mem_cons_of_mem a ha)) fun bs hbs => .ok ?_
    exact List.forall_mem_cons.2 ⟨hb, hbs⟩

end Gives

end Result

/-! ## § Conversions -/

open Result (Gives)

/-- **Exact results are brought down** to integers where they are integral. -/
theorem Scalar.ofRat_gives (q : Rat) : (Scalar.ofRat q).Gives Canonical := by
  unfold Scalar.ofRat
  split
  · exact .ok (canonical_int _)
  next wide =>
    -- A bounded fraction with denominator one would have fitted an integer.
    split
    next fraction hf =>
      refine .ok (canonical_rational.2 fun integral => wide ?_)
      unfold Fraction.ofRat? at hf
      split at hf
      next bounded =>
        obtain rfl := Option.some.inj hf
        exact ⟨integral, bounded.1⟩
      next => cases hf
    next =>
      split
      · exact .ok trivial
      · exact .overflow

namespace Value

theorem toFraction_tame (v : Value) : v.toFraction.Tame := by
  unfold toFraction
  split
  · exact .ok trivial
  · exact .ok trivial
  · exact .domain _

theorem toFloat_tame (v : Value) : v.toFloat.Tame := by
  unfold toFloat
  split
  · exact .ok trivial
  · exact .ok trivial
  · exact .ok trivial
  · exact .domain _

theorem toComplex_tame (v : Value) : v.toComplex.Tame := by
  unfold toComplex
  split
  · exact .ok trivial
  · exact (toFloat_tame v).andThen fun _ => .ok trivial

theorem toInteger_tame (v : Value) (place : String) : (v.toInteger place).Tame := by
  unfold toInteger
  dsimp only
  split
  · exact .ok trivial
  · exact .ite (.ok trivial) (.domain _)
  · split
    · exact .ite (.ok trivial) (.domain _)
    · exact .domain _
  · exact .domain _

theorem truth_tame (v : Value) : v.truth.Tame := by
  unfold truth
  split
  · exact .ok trivial
  · exact .ok trivial
  · exact .ok trivial
  · exact .ok trivial
  · exact .domain _
  · exact .domain _

/-- A value that is there has elements. -/
theorem elements_tame {v : Value} (h : v ≠ .absent) : v.elements.Tame := by
  cases v with
  | scalar => exact .ok trivial
  | vector => exact .ok trivial
  | absent => exact absurd rfl h

end Value

theorem Operands.meet_tame (operator : String) (l r : Value) :
    (Operands.meet operator l r).Tame := by
  unfold Operands.meet
  split
  · split
    · exact .ok trivial
    · refine .ite ?_ (.ite ?_ ?_)
      · exact l.toFraction_tame.andThen fun _ => r.toFraction_tame.andThen fun _ => .ok trivial
      · exact l.toFloat_tame.andThen fun _ => r.toFloat_tame.andThen fun _ => .ok trivial
      · exact l.toComplex_tame.andThen fun _ => r.toComplex_tame.andThen fun _ => .ok trivial
  · exact .domain _

/-! ## § Two operands -/

open Scalar (canonical_int canonical_char)

namespace Primitive

variable (l r : Value)

theorem refuse_gives {α : Type} {P : α → Prop} (operator : String) :
    (refuse operator l r : Result α).Gives P := .domain _

/-- A primitive that brings its operands to one kind first. -/
theorem meeting_gives {α : Type} {P : α → Prop} {operator : String} {f : Operands → Result α}
    (hf : ∀ operands, (f operands).Gives P) : (Operands.meet operator l r >>= f).Gives P :=
  (Operands.meet_tame operator l r).andThen hf

theorem add_gives : (add l r).Gives Scalar.Canonical := by
  refine meeting_gives l r fun operands => ?_
  cases operands with
  | ints => exact .ok (canonical_int _)
  | rationals => exact Scalar.ofRat_gives _
  | floats | complexes => exact .ok trivial

theorem subtract_gives : (subtract l r).Gives Scalar.Canonical := by
  refine meeting_gives l r fun operands => ?_
  cases operands with
  | ints => exact .ok (canonical_int _)
  | rationals => exact Scalar.ofRat_gives _
  | floats | complexes => exact .ok trivial

theorem multiply_gives : (multiply l r).Gives Scalar.Canonical := by
  refine meeting_gives l r fun operands => ?_
  cases operands with
  | ints => exact .ok (canonical_int _)
  | rationals => exact Scalar.ofRat_gives _
  | floats | complexes => exact .ok trivial

theorem divideRat_gives (a b : Rat) : (divideRat a b).Gives Scalar.Canonical :=
  .ite (.domain _) (Scalar.ofRat_gives _)

theorem divide_gives : (divide l r).Gives Scalar.Canonical := by
  refine meeting_gives l r fun operands => ?_
  cases operands with
  | ints | rationals => exact divideRat_gives _ _
  | floats | complexes => exact .ite (.domain _) (.ok trivial)

theorem modulo_gives : (modulo l r).Gives Scalar.Canonical := by
  refine meeting_gives l r fun operands => ?_
  cases operands with
  | ints => exact .ite (.domain _) (.ok (canonical_int _))
  | rationals => exact .ite (.domain _) (Scalar.ofRat_gives _)
  | floats => exact .ite (.domain _) (.ok trivial)
  | complexes => exact refuse_gives l r _

theorem integerQuotient_gives : (integerQuotient l r).Gives Scalar.Canonical := by
  refine meeting_gives l r fun operands => ?_
  cases operands with
  | ints => exact .ite (.domain _) (.ok (canonical_int _))
  | rationals | floats | complexes => exact refuse_gives l r _

theorem integerRemainder_gives : (integerRemainder l r).Gives Scalar.Canonical := by
  refine meeting_gives l r fun operands => ?_
  cases operands with
  | ints => exact .ite (.domain _) (.ok (canonical_int _))
  | rationals | floats | complexes => exact refuse_gives l r _

theorem powerFloat_gives (a b : Float) : (powerFloat a b).Gives Scalar.Canonical := by
  refine .ite (.domain _) (.ite ?_ (.ok trivial))
  split
  · exact .ok trivial
  · exact .ok trivial

theorem powerRat_gives (a b : Rat) : (powerRat a b).Gives Scalar.Canonical := by
  refine .ite (.domain _) (.ite (Scalar.ofRat_gives _) ?_)
  split
  · exact powerFloat_gives _ _
  · exact .overflow

theorem power_gives : (power l r).Gives Scalar.Canonical := by
  refine meeting_gives l r fun operands => ?_
  cases operands with
  | ints => exact .ite (.ok (canonical_int _)) (powerRat_gives _ _)
  | rationals => exact powerRat_gives _ _
  | floats => exact powerFloat_gives _ _
  | complexes a b =>
    dsimp only
    split
    · exact .ok trivial
    · exact .domain _
    · exact .overflow

theorem join_gives : (join l r).Gives Scalar.Canonical := by
  unfold join
  split
  · exact refuse_gives _ _ _
  · exact refuse_gives _ _ _
  · refine .ite ?_ (refuse_gives l r _)
    exact l.toFloat_tame.andThen fun _ => r.toFloat_tame.andThen fun _ => .ok trivial

theorem equals_tame : (equals l r).Tame := by
  unfold equals
  split
  · exact .ok trivial
  · exact .ok trivial
  · exact .ok trivial
  · refine meeting_gives _ _ fun operands => ?_
    cases operands with
    | ints | rationals | floats | complexes => exact .ok trivial

theorem compare_gives (order : Order) : (compare order l r).Gives Scalar.Canonical := by
  unfold compare
  split
  · exact .ok (canonical_int _)
  · refine meeting_gives l r fun operands => ?_
    split
    · exact .ok (canonical_int _)
    · exact refuse_gives l r _

/-- The operand that is picked may have been promoted, and then it is brought down. -/
theorem pick_gives (operator : String) (order : Order) :
    (pick operator order l r).Gives Scalar.Canonical := by
  refine meeting_gives l r fun operands => ?_
  split
  · exact refuse_gives l r _
  · split
    · exact Scalar.ofRat_gives _
    next other => exact .ok (Scalar.canonical_of_ne other)

theorem logical_gives (meaning : Bool → Bool → Bool) :
    (logical meaning l r).Gives Scalar.Canonical :=
  l.truth_tame.andThen fun _ => r.truth_tame.andThen fun _ => .ok (canonical_int _)

theorem bitwise_gives (operator : String) {meaning : Int64 → Int64 → Result Int64}
    (h : ∀ a b, (meaning a b).Tame) : (bitwise operator meaning l r).Gives Scalar.Canonical := by
  unfold bitwise
  split
  · exact (h _ _).andThen fun _ => .ok (canonical_int _)
  · exact refuse_gives l r _

theorem shift_gives (operator : String) (meaning : Int64 → Nat → Int64) :
    (shift operator meaning l r).Gives Scalar.Canonical :=
  bitwise_gives l r operator fun _ _ => .ite (.domain _) (.ok trivial)

end Primitive

/-- A binary primitive makes a canonical scalar of whatever two values. -/
theorem BinaryPrimitive.onSingles_gives (op : BinaryPrimitive) (l r : Value) :
    (op.onSingles l r).Gives Scalar.Canonical := by
  cases op with
  | add => exact Primitive.add_gives l r
  | subtract => exact Primitive.subtract_gives l r
  | multiply => exact Primitive.multiply_gives l r
  | divide => exact Primitive.divide_gives l r
  | modulo => exact Primitive.modulo_gives l r
  | integerQuotient => exact Primitive.integerQuotient_gives l r
  | integerRemainder => exact Primitive.integerRemainder_gives l r
  | power => exact Primitive.power_gives l r
  | join => exact Primitive.join_gives l r
  | equal | unequal => exact (Primitive.equals_tame l r).andThen fun _ => .ok (canonical_int _)
  | less | lessEqual | greater | greaterEqual => exact Primitive.compare_gives l r _
  | minimum | maximum => exact Primitive.pick_gives l r _ _
  | logicalAnd | logicalOr => exact Primitive.logical_gives l r _
  | bitAnd | bitOr | bitXor => exact Primitive.bitwise_gives l r _ fun _ _ => .ok trivial
  | shiftLeft | shiftRight => exact Primitive.shift_gives l r _ _
  | catenate | reshape => exact Primitive.refuse_gives l r _

/-! ## § One operand -/

namespace Primitive

variable (v : Value)

theorem refuseOne_gives {α : Type} {P : α → Prop} (operator : String) :
    (refuseOne operator v : Result α).Gives P := .domain _

theorem negate_gives : (negate v).Gives Scalar.Canonical := by
  unfold negate
  split
  · exact .ok (canonical_int _)
  · exact Scalar.ofRat_gives _
  · exact .ok trivial
  · exact .ok trivial
  · exact refuseOne_gives v _

theorem absolute_gives : (absolute v).Gives Scalar.Canonical := by
  unfold absolute
  split
  · exact .ok (canonical_int _)
  · exact Scalar.ofRat_gives _
  · exact .ok trivial
  · split
    · exact .ok trivial
    · exact .overflow
  · exact refuseOne_gives v _

theorem ofRounded_canonical (n : Int) : (ofRounded n).Canonical := by
  unfold ofRounded
  split
  · exact canonical_int _
  · exact trivial

theorem roundPart_tame (round : Rat → Int) (x : Float) : (roundPart round x).Tame := by
  unfold roundPart
  split
  · exact .ok trivial
  · exact .ite .undefinedInteger .overflow

theorem integral_gives (operator : String) (round : Rat → Int) :
    (integral operator round v).Gives Scalar.Canonical := by
  unfold integral
  split
  · exact .ok (canonical_int _)
  · exact .ok (ofRounded_canonical _)
  · split
    · exact .ok (ofRounded_canonical _)
    · exact .ok trivial
  · exact (roundPart_tame round _).andThen fun _ =>
      (roundPart_tame round _).andThen fun _ => .ok trivial
  · exact refuseOne_gives v _

theorem squareRoot_gives : (squareRoot v).Gives Scalar.Canonical := by
  unfold squareRoot
  split
  · exact .ite (.ok (canonical_int _)) (.ok trivial)
  · exact .ok trivial
  · exact refuseOne_gives _ _
  · refine .ite (v.toFloat_tame.andThen fun x => .ok ?_) (refuseOne_gives v _)
    split
    · exact trivial
    · exact trivial

theorem blame_tame {α : Type} (operator : String) (x : Except FunctionError α) :
    (blame operator x).Tame := by
  unfold blame
  split
  · exact .ok trivial
  · exact .domain _
  · exact .domain _

theorem branches_gives (f : Branches) : (f.apply v).Gives Scalar.Canonical := by
  unfold Branches.apply
  split
  · exact (blame_tame _ _).andThen fun _ => .ok trivial
  · refine .ite (v.toFloat_tame.andThen fun x => .ite ?_ ?_) (refuseOne_gives v _)
    · exact (blame_tame _ _).andThen fun _ => .ok trivial
    · exact (blame_tame _ _).andThen fun _ => .ok trivial

theorem realPart_gives : (realPart v).Gives fun s => v.Canonical → s.Canonical := by
  unfold realPart
  split
  · exact .ok fun _ => trivial
  · exact refuseOne_gives _ _
  · exact .ok id
  · exact refuseOne_gives v _

theorem imaginaryPart_gives : (imaginaryPart v).Gives Scalar.Canonical := by
  unfold imaginaryPart
  split
  · exact .ok trivial
  · exact .ite (.ok (canonical_int _)) (refuseOne_gives v _)

theorem toInexact_gives : (toInexact v).Gives Scalar.Canonical := by
  unfold toInexact
  split
  · exact .ok trivial
  · exact .ite (v.toFloat_tame.andThen fun _ => .ok trivial) (refuseOne_gives v _)

theorem character_gives : (character v).Gives Scalar.Canonical := by
  unfold character
  split
  · exact .ok (canonical_char _)
  · exact .ite (.domain _) (.ite (.ok (canonical_char _)) (.domain _))
  · exact refuseOne_gives v _

theorem code_gives : (code v).Gives Scalar.Canonical := by
  unfold code
  split
  · exact .ok (canonical_int _)
  · exact refuseOne_gives v _

theorem roll_gives [Machine] (origin : Int) (dice : Dice) :
    (roll origin dice v).Gives fun result => result.1.Canonical := by
  unfold roll
  dsimp only
  split
  · exact .ite (.domain _) (.ok (canonical_int _))
  · exact (Value.toFloat_tame _).andThen fun _ => .ite (.domain _) (.ok trivial)
  · exact (Value.toFloat_tame _).andThen fun _ => .ite (.domain _) (.ok trivial)
  · exact refuseOne_gives v _

end Primitive

/-- Only the identity and the real part hand on what they are given. -/
theorem UnaryPrimitive.onSingle_gives (op : UnaryPrimitive) (v : Value) :
    (op.onSingle v).Gives fun s => v.Canonical → s.Canonical := by
  have made {x : Result Scalar} (h : x.Gives Scalar.Canonical) :
      x.Gives fun s => v.Canonical → s.Canonical := h.mono fun _ hs _ => hs
  cases op with
  | identity =>
    unfold UnaryPrimitive.onSingle
    dsimp only
    split
    · exact .ok id
    · exact Primitive.refuseOne_gives v _
  | negate => exact made (Primitive.negate_gives v)
  | absolute => exact made (Primitive.absolute_gives v)
  | floor | ceiling => exact made (Primitive.integral_gives v _ _)
  | logicalNot => exact made (v.truth_tame.andThen fun _ => .ok (canonical_int _))
  | squareRoot => exact made (Primitive.squareRoot_gives v)
  | exponential | logarithm | sine | cosine | tangent | arcSine | arcCosine | arcTangent =>
    exact made (Primitive.branches_gives v _)
  | realPart => exact Primitive.realPart_gives v
  | imaginaryPart => exact made (Primitive.imaginaryPart_gives v)
  | inexact => exact made (Primitive.toInexact_gives v)
  | character => exact made (Primitive.character_gives v)
  | code => exact made (Primitive.code_gives v)
  | roll | iota | length | reverse => exact Primitive.refuseOne_gives v _

/-! ## § Whole values -/

namespace Primitive

variable {v l r : Value}

theorem iota_gives (origin : Int) (v : Value) :
    (iota origin v).Gives fun result => result ≠ .absent ∧ result.Canonical := by
  have count (v : Value) : (do
      let count ← v.toInteger "iota"
      if count < 0 then Result.domain .negativeCount
      else return Value.vector ((List.range count.toNat).map fun (i : Nat) =>
        Scalar.ofInt (origin + i)) : Result Value).Gives
          fun result => result ≠ .absent ∧ result.Canonical := by
    refine (v.toInteger_tame _).andThen fun count => .ite (.domain _) (.ok ⟨nofun, ?_⟩)
    intro s hs
    obtain ⟨i, -, rfl⟩ := List.mem_map.1 hs
    exact canonical_int _
  unfold iota
  dsimp only
  split
  · exact count _
  · exact .shape _
  · exact count v

theorem length_gives (h : v ≠ .absent) : (length v).Gives (· ≠ .absent) :=
  (Value.elements_tame h).andThen fun _ => .ok nofun

theorem reverse_gives (h : v ≠ .absent) : (reverse v).Gives (· ≠ .absent) := by
  unfold reverse
  split
  · exact .ok nofun
  · exact .ok h

theorem catenate_gives (hl : l ≠ .absent) (hr : r ≠ .absent) :
    (catenate l r).Gives (· ≠ .absent) := by
  have present : ∀ v ∈ [l, r], v ≠ .absent := by simpa using ⟨hl, hr⟩
  refine .bind (.mapM (Q := fun _ => True) fun v hv => ?_) fun _ _ => .ok nofun
  split
  · exact .ok trivial
  · exact .ok trivial
  · exact absurd rfl (present _ hv)

theorem reshape_gives (hr : r ≠ .absent) : (reshape l r).Gives (· ≠ .absent) := by
  have count (l : Value) : (do
      let count ← l.toInteger "rho"
      if count < 0 then Result.domain .negativeLength
      else
        let items ← r.elements
        if count ≠ 0 ∧ items = [] then .shape .emptyExtension
        else return Value.vector (cycle count.toNat items) : Result Value).Gives (· ≠ .absent) :=
    (l.toInteger_tame _).andThen fun _ => .ite (.domain _)
      ((Value.elements_tame hr).andThen fun _ => .ite (.shape _) (.ok nofun))
  unfold reshape
  dsimp only
  split
  · exact count _
  · exact .shape _
  · exact count l

end Primitive

theorem BinaryPrimitive.elementwise_gives (op : BinaryPrimitive) (l r : Value) :
    (op.elementwise l r).Gives fun result => result ≠ .absent ∧ result.Canonical := by
  have single (l r : Value) := op.onSingles_gives l r
  unfold BinaryPrimitive.elementwise
  split
  · exact .ite (.shape _) (.bind (.mapM fun _ _ => single _ _) fun _ h => .ok ⟨nofun, h⟩)
  · exact .bind (.mapM fun _ _ => single _ _) fun _ h => .ok ⟨nofun, h⟩
  · exact .bind (.mapM fun _ _ => single _ _) fun _ h => .ok ⟨nofun, h⟩
  · exact .bind (single _ _) fun _ h => .ok ⟨nofun, h⟩

/-- **A binary primitive makes a value of two values**, or fails as operations on values do. -/
theorem BinaryPrimitive.apply_gives (op : BinaryPrimitive) {l r : Value} (hl : l ≠ .absent)
    (hr : r ≠ .absent) : (op.apply l r).Gives (· ≠ .absent) := by
  cases op with
  | catenate => exact Primitive.catenate_gives hl hr
  | reshape => exact Primitive.reshape_gives hr
  | _ => exact (BinaryPrimitive.elementwise_gives _ l r).mono fun _ h => h.1

theorem UnaryPrimitive.elementwise_gives (op : UnaryPrimitive) {v : Value} (h : v ≠ .absent) :
    (op.elementwise v).Gives (· ≠ .absent) := by
  unfold UnaryPrimitive.elementwise
  split
  · refine .bind (.mapM (Q := fun _ => True) fun s _ => ?_) fun _ _ => .ok nofun
    exact (op.onSingle_gives _).mono fun _ _ => trivial
  · exact .bind (op.onSingle_gives _) fun _ _ => .ok nofun
  · exact absurd rfl h

theorem UnaryPrimitive.rollAll_gives [Machine] (origin : Int) (dice : Dice)
    (items : List Scalar) :
    (rollAll origin dice items).1.Gives fun drawn => ∀ s ∈ drawn, s.Canonical := by
  induction items generalizing dice with
  | nil => exact .ok (List.forall_mem_nil _)
  | cons item items ih =>
    have rolled := Primitive.roll_gives (.scalar item) origin dice
    rw [rollAll]
    split
    next failed => rwa [failed] at rolled
    next drawn later first =>
      rw [first] at rolled
      exact .map (ih later) fun others hs => List.forall_mem_cons.2 ⟨rolled, hs⟩

/-- **A unary primitive makes a value of a value**, or fails as operations on values do. -/
theorem UnaryPrimitive.apply_gives [Machine] (op : UnaryPrimitive) (origin : Int) (dice : Dice)
    {v : Value} (h : v ≠ .absent) : (op.apply origin dice v).1.Gives (· ≠ .absent) := by
  cases op with
  | roll =>
    unfold UnaryPrimitive.apply
    dsimp only
    split
    · exact .map (UnaryPrimitive.rollAll_gives origin dice _) fun _ _ => nofun
    · have rolled := Primitive.roll_gives v origin dice
      split
      next => exact .ok nofun
      next failed => rwa [failed] at rolled
  | iota => exact (Primitive.iota_gives origin v).mono fun _ h => h.1
  | length => exact Primitive.length_gives h
  | reverse => exact Primitive.reverse_gives h
  | _ => exact UnaryPrimitive.elementwise_gives _ h

/-! ## § Numbers within 64 bits -/

namespace Scalar

theorem ofInt?_of_fits {n : Int} (h : Fits64 n) : ofInt? n = .ok (ofInt n) := if_pos h

/-- An exact result is checked, as an integer or as a fraction, or it is none. -/
theorem ofRat_checked {q : Rat} {s : Scalar} (h : ofRat q = .ok s) :
    ofInt? q.num = .ok s ∨ ofFraction? q = .ok s ∨
      ∃ x, Double.nearest? q = some x ∧ s = float x := by
  unfold ofRat at h
  split at h
  next whole =>
    cases h
    exact .inl (ofInt?_of_fits whole.2)
  · split at h
    next fraction hf =>
      cases h
      exact .inr (.inl (by rw [ofFraction?, hf]))
    · split at h
      next x nearest =>
        cases h
        exact .inr (.inr ⟨x, nearest, rfl⟩)
      · cases h

end Scalar

namespace Primitive

/-- The root of an integer is not above the integer. -/
theorem squareRoot_checked {a : Int64} (h : 0 ≤ a.toInt) :
    ∃ s, squareRoot (.scalar (.int a)) = .ok s ∧ Scalar.ofInt? a.toInt.natAbs.sqrt = .ok s := by
  have lower := Int64.le_toInt a
  have upper := Int64.toInt_lt a
  have root : a.toInt.natAbs.sqrt < 0x8000000000000000 := by
    rw [Nat.sqrt_lt]
    omega
  have fits : Fits64 (a.toInt.natAbs.sqrt : Int) := ⟨by omega, by omega⟩
  exact ⟨_, if_pos h, Scalar.ofInt?_of_fits fits⟩

theorem code_checked (c : CodePoint) :
    ∃ s, code (.scalar (.char c)) = .ok s ∧ Scalar.ofInt? c.code = .ok s := by
  have below := c.code_lt
  have fits : Fits64 (c.code : Int) := ⟨by omega, by omega⟩
  exact ⟨_, rfl, Scalar.ofInt?_of_fits fits⟩

theorem length_checked {v : Value} {items : List Scalar} (h : v.elements = .ok items)
    (addressable : Fits64 items.length) :
    ∃ s, length v = .ok (.scalar s) ∧ Scalar.ofInt? items.length = .ok s := by
  refine ⟨_, ?_, Scalar.ofInt?_of_fits addressable⟩
  rw [length, h]
  rfl

/-- An integer that is promoted to a fraction fits one. -/
theorem ofWord_checked (n : Int64) :
    Scalar.ofFraction? n.toInt = .ok (.rational (.ofWord n)) := by
  have bounded : Fraction.Bounded (n.toInt : Rat) :=
    ⟨(Fraction.ofWord n).num_fits, (Fraction.ofWord n).den_fits⟩
  rw [Scalar.ofFraction?, Fraction.ofRat?, dif_pos bounded]
  rfl

end Primitive

/-- **Whatever number a primitive makes without wrapping it fits.**  Where the parts of a number are
neither wrapped nor compared with the bounds first, which is so for roots, codes, truth values,
lengths and integers that are promoted, its checked constructor takes them; and an exact result is
one that a checked constructor takes, or a float. -/
structure Primitive.NumbersFit : Prop where
  root : ∀ a : Int64, 0 ≤ a.toInt →
    ∃ s, squareRoot (.scalar (.int a)) = .ok s ∧ Scalar.ofInt? a.toInt.natAbs.sqrt = .ok s
  code : ∀ c : CodePoint,
    ∃ s, Primitive.code (.scalar (.char c)) = .ok s ∧ Scalar.ofInt? c.code = .ok s
  truth : ∀ b : Bool, Scalar.ofInt? (if b then 1 else 0) = .ok (Scalar.ofBool b)
  length : ∀ (v : Value) (items : List Scalar), v.elements = .ok items → Fits64 items.length →
    ∃ s, Primitive.length v = .ok (.scalar s) ∧ Scalar.ofInt? items.length = .ok s
  promoted : ∀ n : Int64, Scalar.ofFraction? n.toInt = .ok (.rational (.ofWord n))
  exact : ∀ (q : Rat) (s : Scalar), Scalar.ofRat q = .ok s →
    Scalar.ofInt? q.num = .ok s ∨ Scalar.ofFraction? q = .ok s ∨
      ∃ x, Double.nearest? q = some x ∧ s = .float x

theorem Primitive.numbersFit : NumbersFit where
  root _ := squareRoot_checked
  code := code_checked
  truth := by decide
  length _ _ := length_checked
  promoted := ofWord_checked
  exact _ _ := Scalar.ofRat_checked

end ArrayCalc
