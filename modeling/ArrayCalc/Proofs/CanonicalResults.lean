import ArrayCalc.Numeral
import ArrayCalc.Primitive.Bulk
import ArrayCalc.Proofs.PrimitiveResults

/-!
# Canonical results

What a primitive, a bulk route or the reading of a numeral makes is canonical, if what it was given
was.  A failure is left open here, so that nothing has to be said of absent values.
-/

namespace ArrayCalc

/-- Whatever a computation makes has a property; it may fail instead. -/
def Makes {ε α : Type} (x : Except ε α) (P : α → Prop) : Prop := ∀ a, x = .ok a → P a

namespace Makes

variable {ε α β : Type} {x y : Except ε α} {P : α → Prop} {Q : β → Prop}

theorem ok {a : α} (h : P a) : Makes (.ok a : Except ε α) P := by
  rintro _ ⟨⟩
  exact h

theorem error (e : ε) : Makes (.error e : Except ε α) P := nofun

theorem bind {f : α → Except ε β} (hx : Makes x P) (hf : ∀ a, P a → Makes (f a) Q) :
    Makes (x >>= f) Q := by
  cases x with
  | error => exact nofun
  | ok a => exact hf a (hx a rfl)

/-- What is done with a result that can be anything. -/
theorem andThen {f : α → Except ε β} (hf : ∀ a, Makes (f a) Q) : Makes (x >>= f) Q :=
  .bind (P := fun _ => True) (fun _ _ => trivial) fun a _ => hf a

/-- What is known of a result when failures count as well. -/
theorem of_gives {x : Result α} {P' : α → Prop} (h : x.Gives P') (hP : ∀ a, P' a → P a) :
    Makes x P := by
  rintro a rfl
  exact hP a h

theorem ite {c : Prop} [Decidable c] (hx : Makes x P) (hy : Makes y P) :
    Makes (if c then x else y) P := by
  split
  · exact hx
  · exact hy

theorem mapM {f : α → Except ε β} {as : List α} (h : ∀ a ∈ as, Makes (f a) Q) :
    Makes (as.mapM f) fun bs => ∀ b ∈ bs, Q b := by
  induction as with
  | nil => exact .ok nofun
  | cons a as ih =>
    rw [List.mapM_cons]
    refine .bind (h a List.mem_cons_self) fun b hb => ?_
    refine .bind (ih fun a' ha => h a' (List.mem_cons_of_mem a ha)) fun bs hbs => .ok ?_
    exact List.forall_mem_cons.2 ⟨hb, hbs⟩

end Makes

open Scalar (canonical_int)

/-! ## § Whole values -/

namespace Value

variable {v : Value}

theorem elements_canonical (h : v.Canonical) :
    Makes v.elements fun items => ∀ s ∈ items, s.Canonical := by
  cases v with
  | scalar s => exact .ok (by simpa using h)
  | vector items => exact .ok h
  | absent => exact .error _

theorem catenate_canonical {values : List Value} (h : ∀ v ∈ values, v.Canonical) :
    Makes (Value.catenate values) Canonical := by
  refine .bind (.mapM (Q := fun items => ∀ s ∈ items, s.Canonical) fun v hv => ?_)
    fun parts hp => .ok fun s hs => ?_
  · have canonical := h v hv
    cases v with
    | scalar s => exact .ok (by simpa using canonical)
    | vector items => exact .ok canonical
    | absent => exact .error _
  · obtain ⟨part, hm, hs⟩ := List.mem_flatten.1 hs
    exact hp part hm s hs

end Value

namespace Primitive

variable {v r : Value}

theorem length_canonical (v : Value) : Makes (length v) Value.Canonical :=
  .andThen fun _ => .ok (canonical_int _)

theorem reverse_canonical (h : v.Canonical) : Makes (reverse v) Value.Canonical := by
  unfold reverse
  split
  · exact .ok fun s hs => h s (List.mem_reverse.1 hs)
  · exact .ok h

theorem cycle_subset (count : Nat) (items : List Scalar) : cycle count items ⊆ items := by
  intro s hs
  obtain ⟨i, -, found⟩ := List.mem_filterMap.1 hs
  rw [List.getElem?_toArray] at found
  exact List.mem_of_getElem? found

theorem reshape_canonical (hr : r.Canonical) (l : Value) : Makes (reshape l r) Value.Canonical := by
  have count (l : Value) : Makes (do
      let count ← l.toInteger "rho"
      if count < 0 then Result.domain .negativeLength
      else
        let items ← r.elements
        if count ≠ 0 ∧ items = [] then .shape .emptyExtension
        else return Value.vector (cycle count.toNat items) : Result Value) Value.Canonical := by
    refine .andThen fun count => .ite (.error _) ?_
    refine .bind (Value.elements_canonical hr) fun items canonical => .ite (.error _) (.ok ?_)
    exact fun s hs => canonical s (cycle_subset _ items hs)
  unfold reshape
  dsimp only
  split
  · exact count _
  · exact .error _
  · exact count l

end Primitive

/-- **A binary primitive makes canonical values of canonical ones.** -/
theorem BinaryPrimitive.apply_canonical (op : BinaryPrimitive) {l r : Value} (hl : l.Canonical)
    (hr : r.Canonical) : Makes (op.apply l r) Value.Canonical := by
  cases op with
  -- These two hand on elements; what the others make does not depend on what they are given.
  | catenate => exact Value.catenate_canonical (by simpa using ⟨hl, hr⟩)
  | reshape => exact Primitive.reshape_canonical hr l
  | _ => exact .of_gives (BinaryPrimitive.elementwise_gives _ l r) fun _ h => h.2

theorem BinaryPrimitive.identity?_canonical {op : BinaryPrimitive} {v : Value}
    (h : op.identity? = some v) : v.Canonical := by
  cases op with
  | add | subtract | bitOr | bitXor | logicalOr | shiftLeft | shiftRight =>
    obtain rfl := Option.some.inj h
    exact canonical_int 0
  | multiply | divide | power | logicalAnd =>
    obtain rfl := Option.some.inj h
    exact canonical_int 1
  | bitAnd =>
    obtain rfl := Option.some.inj h
    exact canonical_int (-1)
  | minimum | maximum =>
    obtain rfl := Option.some.inj h
    exact trivial
  | catenate =>
    obtain rfl := Option.some.inj h
    exact List.forall_mem_nil _
  | _ => exact nomatch h

theorem UnaryPrimitive.elementwise_canonical (op : UnaryPrimitive) {v : Value} (h : v.Canonical) :
    Makes (op.elementwise v) Value.Canonical := by
  have single {v : Value} (h : v.Canonical) : Makes (op.onSingle v) Scalar.Canonical :=
    .of_gives (op.onSingle_gives v) fun _ hs => hs h
  unfold UnaryPrimitive.elementwise
  split
  · exact .bind (.mapM fun s hs => single (h s hs)) fun _ h => .ok h
  · exact .bind (single h) fun _ h => .ok h
  · exact .ite (.ok trivial) (.bind (single h) fun _ h => .ok h)

/-- **A unary primitive makes a canonical value of a canonical one.** -/
theorem UnaryPrimitive.apply_canonical [Machine] (op : UnaryPrimitive) (origin : Int) (dice : Dice)
    {v : Value} (h : v.Canonical) : Makes (op.apply origin dice v).1 Value.Canonical := by
  cases op with
  | roll =>
    unfold UnaryPrimitive.apply
    dsimp only
    split
    · refine .of_gives (.map (UnaryPrimitive.rollAll_gives origin dice _) ?_) fun _ h => h
      exact fun _ h => h
    · have rolled := Primitive.roll_gives v origin dice
      split
      next drawn _ first =>
        rw [first] at rolled
        exact .ok rolled
      next => exact .error _
  | iota => exact .of_gives (Primitive.iota_gives origin v) fun _ h => h.2
  | length => exact Primitive.length_canonical v
  | reverse => exact Primitive.reverse_canonical h
  | _ => exact UnaryPrimitive.elementwise_canonical _ h

/-! ## § Bulk routes -/

namespace Bulk

variable [Machine]

/-- The library is given rows of integers, or of floats for something extreme. -/
theorem reduce?_cases {operator : String} {items : List Scalar} {s : Scalar}
    (h : reduce? operator items = some s) :
    (∃ operation ns, s = .int (Machine.library.reduceInts operation ns)) ∨
      ∃ e xs, s = .float (Machine.library.reduceFloats e xs) := by
  obtain ⟨operation, -, h⟩ := Option.bind_eq_some_iff.1 h
  split at h
  · split at h
    next ns _ =>
      exact .inl ⟨operation, ns, (Option.some.inj h).symm⟩
    next xs e _ _ _ =>
      exact .inr ⟨e, xs, (Option.some.inj h).symm⟩
    · exact nomatch h
  · exact nomatch h

theorem scan?_cases {operator : String} {items totals : List Scalar}
    (h : scan? operator items = some totals) :
    (∃ operation ns, totals = (Machine.library.scanInts operation ns).map .int) ∨
      ∃ e xs, totals = (Machine.library.scanFloats e xs).map .float := by
  obtain ⟨operation, -, h⟩ := Option.bind_eq_some_iff.1 h
  split at h
  · split at h
    next ns _ =>
      exact .inl ⟨operation, ns, (Option.some.inj h).symm⟩
    next xs e _ _ _ =>
      exact .inr ⟨e, xs, (Option.some.inj h).symm⟩
    · exact nomatch h
  · exact nomatch h

theorem reduce?_canonical {operator : String} {items : List Scalar} {s : Scalar}
    (h : reduce? operator items = some s) : s.Canonical := by
  rcases reduce?_cases h with ⟨_, _, rfl⟩ | ⟨_, _, rfl⟩
  · exact canonical_int _
  · exact trivial

theorem scan?_canonical {operator : String} {items totals : List Scalar}
    (h : scan? operator items = some totals) : ∀ s ∈ totals, s.Canonical := by
  rcases scan?_cases h with ⟨_, _, rfl⟩ | ⟨_, _, rfl⟩
  · rintro _ hs
    obtain ⟨n, -, rfl⟩ := List.mem_map.1 hs
    exact canonical_int n
  · rintro _ hs
    obtain ⟨x, -, rfl⟩ := List.mem_map.1 hs
    exact trivial

theorem inner?_canonical {reducer combiner : String} {left right : List Scalar} {s : Scalar}
    (h : inner? reducer combiner left right = some s) : s.Canonical := by
  unfold inner? at h
  split at h
  · exact nomatch h
  split at h
  · split at h
    · obtain rfl := Option.some.inj h
      exact canonical_int _
    · exact nomatch h
  · exact nomatch h

end Bulk

/-! ## § Numerals -/

theorem ofRat_makes (q : Rat) : Makes (Scalar.ofRat q) Scalar.Canonical :=
  .of_gives (Scalar.ofRat_gives q) fun _ h => h

namespace Numeral

theorem ofExact_canonical (q : Rat) : (ofExact q).Canonical := by
  unfold ofExact
  split
  · dsimp only
    split
    · exact trivial
    · exact trivial
    next exact hq => exact ofRat_makes _ _ hq
  next exact hq => exact ofRat_makes _ _ hq
  · exact trivial

theorem real_canonical (text : List Char) (base : Int) :
    Makes (real text base) Scalar.Canonical := by
  unfold real
  refine .ite (.error _) (.andThen fun o => ?_)
  split
  · refine .ite (.ok (canonical_int _)) ?_
    split
    · exact .ok trivial
    · exact .error _
  · refine .ite (.error _) ?_
    split
    · exact .error _
    · exact .andThen fun q => .ok (ofExact_canonical q)

theorem quotient_canonical (text : List Char) (num den : Scalar) :
    Makes (quotient text num den) Scalar.Canonical := by
  unfold quotient
  dsimp only
  split
  · exact .error _
  · split
    · refine .ite (.error _) ?_
      split
      next q hq => exact .ok (ofRat_makes _ _ hq)
      next => exact .error _
    · exact .error _

theorem rational_canonical (text : List Char) (base : Int) :
    Makes (rational text base) Scalar.Canonical := by
  unfold rational
  split
  · exact real_canonical _ _
  · exact .andThen fun n => .andThen fun d => quotient_canonical _ _ _

/-- **A numeral stands for a canonical number.** -/
theorem read_canonical (text : String) (base : Int) : Makes (read text base) Scalar.Canonical := by
  unfold read
  dsimp only
  refine .ite (rational_canonical _ _) ?_
  split
  · exact rational_canonical _ _
  · exact .andThen fun re => .andThen fun im => .ok trivial

end Numeral

end ArrayCalc
