import ArrayCalc.Proofs.Calls
import ArrayCalc.Proofs.PrimitiveResults
import ArrayCalc.Proofs.Trees

/-!
# Evaluation finds what it needs

A tree that a reader has made has a value, unless its evaluation fails for a reason that a session
reports or a number is too large.  Nothing absent gets where a value is needed: only slots hold it,
and a look-up refuses it; and a word is found among the operators, for it was one when it was read.

There is one exception.  A reader takes a product for a fold if a slash ends it, and the evaluator
then looks for an operator with a point at its end.  All is proved of the guarded evaluator, for a
guard that can stop before such a tree, and then of the evaluator, which does the same.
-/

namespace ArrayCalc

/-- What an evaluation may fail with beyond what a session reports: the binary operators that may be
missing, and what a guard stops with. -/
structure Licence where
  missing : String → Prop
  alarm : Failure → Prop

/-- What an evaluation may fail with.  That an operator is missing is no such thing, unless there is
a licence for it. -/
def Failure.Expected (licence : Licence) (failure : Failure) : Prop :=
  licence.alarm failure ∨
    match failure with
    | .error (.undefined (.noUnary _)) => False
    | .error (.undefined (.noBinary operator)) => licence.missing operator
    | .error _ => True
    | .fault f => f = .overflow ∨ f = .undefinedInteger

theorem Failure.OfValues.expected {licence : Licence} {failure : Failure} (h : failure.OfValues) :
    failure.Expected licence := by
  cases h with
  | domain => exact .inr trivial
  | shape => exact .inr trivial
  | overflow => exact .inr (.inl rfl)
  | undefinedInteger => exact .inr (.inr rfl)

namespace Workspace

/-- A workspace of which no session variable is absent. -/
def Present (w : Workspace) : Prop := ∀ name, w.global? name ≠ some .absent

theorem SameTables.knows {w w' : Workspace} (h : w.SameTables w') : w'.Knows = w.Knows := by
  funext s
  rw [knows_eq, knows_eq, h.userOperator?]

end Workspace

namespace Evaluation

open Workspace
open ArrayCalc.Expr (Grown Stated)

variable {α β : Type} {w₀ w w' : Workspace} {licence : Licence} {failure : Failure}

/-- A moment in the frame of `w₀` at which no session variable is absent. -/
structure InFrame (w₀ w : Workspace) : Prop where
  frame : w₀.SameFrame w
  present : w.Present

/-- A failure that an evaluation may end with, at a moment when no session variable is absent. -/
structure Fails (licence : Licence) (failure : Failure) (w : Workspace) : Prop where
  present : w.Present
  expected : failure.Expected licence

theorem InFrame.fails (h : InFrame w₀ w) (expected : failure.Expected licence) :
    Fails licence failure w := ⟨h.present, expected⟩

/-- A computation that gives something with a property from every moment of the frame on, or fails
as an evaluation may. -/
def Yields (w₀ : Workspace) (licence : Licence) (x : Evaluation α) (P : α → Prop) : Prop :=
  ∀ w, InFrame w₀ w → Outcome x w (fun a w' => InFrame w₀ w' ∧ P a) (Fails licence)

namespace Yields

variable {P : α → Prop} {Q : β → Prop}

theorem pure {a : α} (h : P a) : Yields w₀ licence (Pure.pure a) P := fun _ hw => .pure ⟨hw, h⟩

theorem throw (h : failure.Expected licence) :
    Yields w₀ licence (MonadExcept.throw failure : Evaluation α) P := fun _ hw => .throw (hw.fails h)

theorem fail {e : Error} (h : (Failure.error e).Expected licence) :
    Yields w₀ licence (Evaluation.fail e : Evaluation α) P := .throw h

theorem ofResult {x : Result α} (h : x.Gives P) :
    Yields w₀ licence (Evaluation.ofResult x) P := by
  cases x with
  | ok a => exact .pure h
  | error failure => exact .throw (Failure.OfValues.expected h)

theorem bind {x : Evaluation α} {f : α → Evaluation β} (hx : Yields w₀ licence x P)
    (hf : ∀ a, P a → Yields w₀ licence (f a) Q) : Yields w₀ licence (x >>= f) Q :=
  fun w hw => .bind (hx w hw) fun a w' k => hf a k.2 w' k.1

theorem get {f : Workspace → Evaluation β}
    (h : ∀ w, InFrame w₀ w → Outcome (f w) w (fun b w' => InFrame w₀ w' ∧ Q b)
      (Fails licence)) :
    Yields w₀ licence (MonadState.get >>= f) Q := fun w hw => .get (h w hw)

theorem mono {P' : α → Prop} {x : Evaluation α} (h : Yields w₀ licence x P')
    (hP : ∀ a, P' a → P a) : Yields w₀ licence x P :=
  fun w hw => (h w hw).mono (fun a _ k => ⟨k.1, hP a k.2⟩) fun _ _ k => k

theorem mapM {f : α → Evaluation β} {as : List α} (h : ∀ a ∈ as, Yields w₀ licence (f a) Q) :
    Yields w₀ licence (as.mapM f) fun bs => ∀ b ∈ bs, Q b := by
  induction as with
  | nil => exact .pure nofun
  | cons a as ih =>
    rw [List.mapM_cons]
    refine .bind (h a List.mem_cons_self) fun b hb => ?_
    refine .bind (ih fun a' ha => h a' (List.mem_cons_of_mem a ha)) fun bs hbs => .pure ?_
    exact List.forall_mem_cons.2 ⟨hb, hbs⟩

end Yields

/-! ## § Places -/

theorem defined_yields (name : String) (v : Option Value) :
    Yields w₀ licence (defined name v) (· ≠ .absent) := by
  unfold defined
  split
  · exact .pure nofun
  · exact .pure nofun
  · exact .fail (.inr trivial)

/-- A place that is there: a session variable, or a slot of the innermost frame. -/
def Place.Fits (w : Workspace) : Place → Prop
  | .ofSession _ => True
  | .ofFrame _ slot => 0 < slot ∧ slot ≤ w.stack.room

theorem read_yields (place : Place) (h : place.Fits w₀) :
    Yields w₀ licence place.read (· ≠ .absent) := by
  cases place with
  | ofSession name => exact .get fun w hw => defined_yields name _ w hw
  | ofFrame name slot =>
    refine .bind (P := fun _ => True) (.get fun w hw => ?_) fun v _ => defined_yields name _
    split
    · exact .throw (hw.fails (.inr trivial))
    · obtain ⟨pos, le⟩ := h
      rw [← hw.frame.stack.room] at le
      obtain ⟨⟨v, hv⟩, -⟩ := CallStack.exists_slot pos le .absent
      rw [hv]
      exact .pure ⟨hw, trivial⟩

theorem write_yields (place : Place) (h : place.Fits w₀) {v : Value} (hv : v ≠ .absent) :
    Yields w₀ licence (place.write v) fun _ => True := by
  cases place with
  | ofSession name =>
    intro w hw
    refine ⟨⟨hw.frame.setGlobal name v, fun other => ?_⟩, trivial⟩
    show (w.globals.insert name v).get? other ≠ some .absent
    rw [Bindings.get?_insert]
    split
    · rintro ⟨⟩
      exact hv rfl
    · exact hw.present other
  | ofFrame name slot =>
    refine .get fun w hw => ?_
    split
    · exact .throw (hw.fails (.inr trivial))
    · obtain ⟨pos, le⟩ := h
      rw [← hw.frame.stack.room] at le
      obtain ⟨-, stack, hs⟩ := CallStack.exists_slot pos le v
      rw [hs]
      exact ⟨⟨hw.frame.setSlot? hs, hw.present⟩, trivial⟩

/-! ## § Derived operators -/

/-- A way to apply binary operators that, for one operator, makes a value of two. -/
def Applies (w₀ : Workspace) (licence : Licence) (apply : Applying) (operator : String) : Prop :=
  ∀ l r, l ≠ .absent → r ≠ .absent → Yields w₀ licence (apply l operator r) (· ≠ .absent)

variable {apply : Applying} {operator : String}

theorem fold_yields (h : Applies w₀ licence apply operator) (items : List Scalar) (last : Scalar) :
    Yields w₀ licence (fold apply operator items last) (· ≠ .absent) := by
  unfold fold
  induction items with
  | nil => exact .pure nofun
  | cons item items ih =>
    rw [List.foldrM_cons]
    exact .bind ih fun total present => h _ _ nofun present

theorem foldItems_yields (h : Applies w₀ licence apply operator) (items : List Scalar) :
    Yields w₀ licence (foldItems apply operator items) (· ≠ .absent) := by
  unfold foldItems
  split
  · exact fold_yields h _ _
  · exact .fail (.inr trivial)

theorem identity?_present {primitive : BinaryPrimitive} {v : Value}
    (h : primitive.identity? = some v) : v ≠ .absent := by
  rintro rfl
  cases primitive <;> simp [BinaryPrimitive.identity?] at h

theorem reduce_yields [Machine] (h : Applies w₀ licence apply operator) {v : Value}
    (hv : v ≠ .absent) : Yields w₀ licence (reduce apply operator v) (· ≠ .absent) := by
  refine .bind (.ofResult (Value.elements_tame hv)) fun items _ => .get fun w hw => ?_
  dsimp only
  split
  · split
    next hi =>
      obtain ⟨primitive, -, hi⟩ := Option.bind_eq_some_iff.1 hi
      exact .pure ⟨hw, identity?_present hi⟩
    next => exact .throw (hw.fails (.inr trivial))
  · exact .pure ⟨hw, nofun⟩
  · split
    · exact .pure ⟨hw, nofun⟩
    · exact foldItems_yields h items w hw

theorem scalarOr_yields (e : ShapeError) (v : Value) :
    Yields w₀ licence (scalarOr e v) fun _ => True := by
  unfold scalarOr
  split
  · exact .pure trivial
  · exact .fail (.inr trivial)

theorem scan_yields [Machine] (h : Applies w₀ licence apply operator) {v : Value}
    (hv : v ≠ .absent) : Yields w₀ licence (scan apply operator v) (· ≠ .absent) := by
  unfold scan
  split
  · exact .pure nofun
  · refine .bind (.ofResult (Value.elements_tame hv)) fun items _ => .get fun w hw => ?_
    dsimp only
    split
    · exact .pure ⟨hw, nofun⟩
    · split
      · exact .pure ⟨hw, nofun⟩
      next first rest _ =>
        refine Yields.bind (.mapM (Q := fun _ => True) fun i _ => ?_) (fun _ _ => .pure nofun) w hw
        exact .bind (foldItems_yields h _) fun v _ => scalarOr_yields _ v

/-- A way to combine two values that makes a value of them. -/
def CombiningYields (w₀ : Workspace) (licence : Licence)
    (combine : Value → Value → Evaluation Value) : Prop :=
  ∀ a b, a ≠ .absent → b ≠ .absent → Yields w₀ licence (combine a b) (· ≠ .absent)

theorem outer_yields {both each : Value → Value → Evaluation Value}
    (hb : CombiningYields w₀ licence both) (he : CombiningYields w₀ licence each)
    (word combiner : String) {l r : Value} (hl : l ≠ .absent) (hr : r ≠ .absent) :
    Yields w₀ licence (outer both each word combiner l r) (· ≠ .absent) := by
  -- Both operands are there, so one of them is a vector or both are scalars.
  cases l with
  | absent => exact absurd rfl hl
  | scalar a =>
    cases r with
    | absent => exact absurd rfl hr
    | scalar b => exact hb _ _ nofun nofun
    | vector items =>
      refine .bind (.mapM (Q := fun _ => True) fun item _ => ?_) fun _ _ => .pure nofun
      exact .bind (he _ _ nofun nofun) fun v _ => scalarOr_yields _ v
  | vector items =>
    cases r with
    | absent => exact absurd rfl hr
    | vector => exact .fail (.inr trivial)
    | scalar b =>
      refine .bind (.mapM (Q := fun _ => True) fun item _ => ?_) fun _ _ => .pure nofun
      exact .bind (he _ _ nofun nofun) fun v _ => scalarOr_yields _ v

theorem pairUp_tame {l r : Value} (hl : l ≠ .absent) (hr : r ≠ .absent) : (pairUp l r).Tame := by
  refine (Value.elements_tame hl).andThen fun lefts => ?_
  refine (Value.elements_tame hr).andThen fun rights => ?_
  split
  · exact .ok trivial
  · exact .ok trivial
  · exact .ok trivial

theorem inner_yields [Machine] {reducer : String} (h : Applies w₀ licence apply reducer)
    {combine : Value → Value → Evaluation Value}
    (hc : CombiningYields w₀ licence combine) (word combiner : String) {l r : Value}
    (hl : l ≠ .absent) (hr : r ≠ .absent) :
    Yields w₀ licence (inner apply combine word reducer combiner l r) (· ≠ .absent) := by
  unfold inner
  refine .bind (.ofResult (pairUp_tame hl hr)) fun (lefts, rights) _ => ?_
  dsimp only
  split
  · exact .fail (.inr trivial)
  · refine .get fun w hw => ?_
    split
    · exact .pure ⟨hw, nofun⟩
    · refine Yields.bind (.mapM (Q := fun _ => True) fun (a, b) _ => ?_)
        (fun combined _ => reduce_yields h (v := .vector combined) nofun) w hw
      exact .bind (hc _ _ nofun nofun) fun v _ => scalarOr_yields _ v

/-! ## § Operators -/

/-- A workspace from which an evaluation finds what it needs. -/
structure Sound (w₀ : Workspace) : Prop where
  steady : w₀.Steady
  named : ∀ arity, w₀.userOperator? arity "" = none
  stated : ∀ arity name f, w₀.userOperator? arity name = some f →
    ∀ e ∈ f.body, Stated w₀.Knows e

/-- A way to call stored operators that makes values. -/
def CallingYields (w₀ : Workspace) (licence : Licence) (call : Calling) : Prop :=
  ∀ arity name f, w₀.userOperator? arity name = some f →
    ∀ operands, Yields w₀ licence (call f operands) (· ≠ .absent)

variable {call : Nat → Calling}

theorem Sound.not_knows (hs : Sound w₀) (arity : Arity) :
    w₀.Knows ⟨"", arity⟩ = false := by
  rw [knows_eq, hs.named]
  cases arity <;> decide

theorem applySingle_yields (hc : ∀ toll, CallingYields w₀ licence (call toll))
    (known : w₀.Knows ⟨operator, .binary⟩ = true) (toll : Nat) :
    Applies w₀ licence (applySingle call toll) operator := by
  intro l r hl hr
  refine .get fun w hw => ?_
  split
  next f _ hf =>
    rw [hw.frame.userOperator?] at hf
    exact hc _ _ _ _ hf _ w hw
  next primitive _ _ => exact Yields.ofResult (primitive.apply_gives hl hr) w hw
  next hf hp =>
    rw [← hw.frame.knows, knows_eq, hf] at known
    have primitive : (BinaryPrimitive.ofName? operator).isSome = true := by
      simpa [Signature.isPrimitive] using known
    rw [hp] at primitive
    exact nomatch primitive

/-- The parts of a product that are known have names. -/
theorem Sound.parts_named (hs : Sound w₀) {reducer combiner : String}
    {others : List String}
    (hk : ∀ s ∈ OperatorWord.partNeeds (reducer :: combiner :: others), w₀.Knows s = true) :
    (reducer.isEmpty || (OperatorWord.product (combiner :: others)).isEmpty) = false := by
  have named (name : String) (h : ⟨name, .binary⟩ ∈
      OperatorWord.partNeeds (reducer :: combiner :: others)) : name ≠ "" := by
    rintro rfl
    exact nomatch (hk _ h).symm.trans (hs.not_knows .binary)
  have combiner_named : combiner ≠ "" :=
    named _ (OperatorWord.map_subset_partNeeds List.mem_cons_self)
  rw [Bool.or_eq_false_iff]
  constructor
  · rw [Bool.eq_false_iff, Ne, String.isEmpty_iff]
    rintro rfl
    refine named "" ?_ rfl
    rw [OperatorWord.partNeeds_cons_cons]
    exact List.mem_cons_self
  · rw [Bool.eq_false_iff]
    exact fun h => combiner_named (OperatorWord.eq_empty_of_product h)

theorem applyProduct_yields [Machine] (hs : Sound w₀)
    (hc : ∀ toll, CallingYields w₀ licence (call toll))
    {operators : List String} (parts : operators ≠ [])
    (known : ∀ s ∈ OperatorWord.partNeeds operators, w₀.Knows s = true) (toll : Nat) :
    CombiningYields w₀ licence (applyProduct (applySingle call) toll operators) := by
  induction operators generalizing toll with
  | nil => exact absurd rfl parts
  | cons reducer operators ih =>
    intro l r hl hr
    cases operators with
    | nil =>
      refine applySingle_yields hc (known _ ?_) toll l r hl hr
      rw [OperatorWord.partNeeds_singleton]
      exact List.mem_singleton_self _
    | cons combiner others =>
      have combined (toll : Nat) := ih (List.cons_ne_nil _ _)
        (fun s hs => known s (OperatorWord.partNeeds_tail_subset hs)) toll
      unfold applyProduct
      dsimp only
      rw [hs.parts_named known, if_neg Bool.false_ne_true]
      split
      · exact outer_yields (combined _) (combined _) _ _ hl hr
      next inner =>
        refine inner_yields (applySingle_yields hc (known _ ?_) _) (combined _) _ _ hl hr
        rw [OperatorWord.partNeeds_cons_cons, if_neg inner]
        exact List.mem_cons_self

theorem applyBinary_yields [Machine] (hs : Sound w₀)
    (hc : ∀ toll, CallingYields w₀ licence (call toll))
    {word : String} (known : ∀ s ∈ OperatorWord.needs word .binary, w₀.Knows s = true)
    (toll : Nat) : Applies w₀ licence (applyBinary call toll) word := by
  intro l r hl hr
  rw [OperatorWord.needs_binary] at known
  exact applyProduct_yields hs hc (OperatorWord.operators_ne_nil word) known toll l r hl hr

/-- A product that has lost its second operator is not found. -/
theorem applyBinary_of_missing [Machine] {base left : String}
    (parts : OperatorWord.operators base = [left, ""]) (missing : licence.missing base)
    (toll : Nat) : Applies w₀ licence (applyBinary call toll) base := by
  intro l r _ _
  have word : OperatorWord.product [left, ""] = base := by
    rw [← parts, OperatorWord.product_operators]
  have nothing : (left.isEmpty || (OperatorWord.product [""]).isEmpty) = true := by
    rw [Bool.or_eq_true]
    exact .inr rfl
  rw [applyBinary, parts, applyProduct, nothing, if_pos rfl, word]
  exact .fail (.inr missing)

theorem applyPrimitive_yields [Machine] (primitive : UnaryPrimitive) {v : Value} (hv : v ≠ .absent) :
    Yields w₀ licence (applyPrimitive primitive v) (· ≠ .absent) := by
  refine .get fun w hw => .set ?_
  have given := primitive.apply_gives w.settings.origin w.dice hv
  exact Yields.ofResult given _ ⟨hw.frame.setDice _, hw.present⟩

/-- The products that a word seems to fold with are missing, and there is a licence for that. -/
def Licensed (licence : Licence) (word : String) : Prop :=
  OperatorWord.isProduct word = true → ∀ base mark,
    OperatorWord.splitMark? word = some (base, mark) → licence.missing base

theorem applyUnary_yields [Machine] (hs : Sound w₀)
    (hc : ∀ toll, CallingYields w₀ licence (call toll))
    {word : String} {v : Value} (hk : ∀ s ∈ OperatorWord.needs word .unary, w₀.Knows s = true)
    (itself : OperatorWord.isFold word = true ∨ w₀.Knows ⟨word, .unary⟩ = true)
    (folded : Expr.FoldsAlone word) (licensed : Licensed licence word) (hv : v ≠ .absent) :
    Yields w₀ licence (applyUnary call word v) (· ≠ .absent) := by
  -- A fold of a plain word needs that word; for a fold of a product there is a licence.
  have base_applies {base : String} {mark : Char}
      (hm : OperatorWord.splitMark? word = some (base, mark)) :
      Applies w₀ licence (applyBinary call 3) base := by
    have same := OperatorWord.isProduct_of_splitMark? hm
    cases product : OperatorWord.isProduct word with
    | true =>
      obtain ⟨left, parts⟩ := folded product base mark hm
      exact applyBinary_of_missing parts (licensed product base mark hm) 3
    | false =>
      refine applyBinary_yields hs hc ?_ 3
      unfold OperatorWord.needs at hk ⊢
      rw [product, if_neg Bool.false_ne_true, hm] at hk
      rw [← same, product, if_neg Bool.false_ne_true]
      exact hk
  unfold applyUnary
  split
  next hm => exact reduce_yields (base_applies hm) hv
  next hm => exact scan_yields (base_applies hm) hv
  next hm =>
    have unmarked : OperatorWord.isFold word = false := by rw [OperatorWord.isFold, hm]; rfl
    have known : w₀.Knows ⟨word, .unary⟩ = true := by
      rcases itself with fold | known
      · rw [unmarked] at fold
        cases fold
      · exact known
    refine .get fun w hw => ?_
    split
    next f _ hf =>
      rw [hw.frame.userOperator?] at hf
      exact hc _ _ _ _ hf _ w hw
    next primitive _ _ => exact applyPrimitive_yields primitive hv w hw
    next hf hp =>
      rw [← hw.frame.knows, knows_eq, hf] at known
      have primitive : (UnaryPrimitive.ofName? word).isSome = true := by
        simpa [Signature.isPrimitive] using known
      rw [hp] at primitive
      cases primitive

/-! ## § Trees -/

/-- A way to evaluate trees that finds the value of every tree that has been read. -/
def EvaluatingYields (w₀ : Workspace) (licence : Licence) (eval : Evaluating) : Prop :=
  ∀ e, Grown w₀.Knows e → w₀.Fits e → Yields w₀ licence (eval e) (· ≠ .absent)

variable {eval : Evaluating} {e : Expr} {es : List Expr}

theorem subscript_yields (he : EvaluatingYields w₀ licence eval) {subscripts : List Expr}
    (grown : ∀ e ∈ subscripts, e ≠ .empty → Grown w₀.Knows e)
    (placed : ∀ e ∈ subscripts, w₀.Fits e) :
    Yields w₀ licence (subscript eval subscripts) fun v => v ≠ some .absent := by
  unfold subscript
  split
  · exact .pure nofun
  next e hs =>
    obtain ⟨member, there⟩ := List.mem_filter.1 (hs ▸ List.mem_singleton_self e)
    have not_left_out : e ≠ .empty := by simpa using there
    refine .bind (he e (grown e member not_left_out) (placed e member)) fun v hv => .pure ?_
    rintro ⟨⟩
    exact hv rfl
  · exact .fail (.inr trivial)

theorem position_tame (origin : Int) (length : Nat) (index : Scalar) :
    (position origin length index).Tame :=
  (Value.toInteger_tame _ _).andThen fun _ => .ite (.ok trivial) (.shape _)

theorem positions_tame (origin : Int) (length : Nat) {v : Value} (hv : v ≠ .absent) :
    (positions origin length v).Tame :=
  (Value.elements_tame hv).andThen fun _ =>
    .mono (.mapM (Q := fun _ => True) fun _ _ => position_tame origin length _) fun _ _ => trivial

theorem select_gives (origin : Int) (base : Value) {chosen : Option Value}
    (hc : chosen ≠ some .absent) : (select origin base chosen).Gives (· ≠ .absent) := by
  unfold select
  split
  · exact .ok nofun
  next items v =>
    have present : v ≠ .absent := fun h => hc (by rw [h])
    refine (positions_tame origin items.length present).andThen fun places => ?_
    dsimp only
    split
    · exact .ok nofun
    · exact .ok nofun
  · exact .shape _

theorem replace_tame (origin : Int) (items : List Scalar) {chosen : Option Value} {v : Value}
    (hc : chosen ≠ some .absent) (hv : v ≠ .absent) : (replace origin items chosen v).Tame := by
  cases v with
  | scalar s =>
    cases chosen with
    | none => exact .ok trivial
    | some subscript =>
      have present : subscript ≠ .absent := fun h => hc (by rw [h])
      exact (positions_tame origin items.length present).andThen fun _ => .ok trivial
  | vector news =>
    cases chosen with
    | none => exact .ite (.shape _) (.ok trivial)
    | some subscript =>
      have present : subscript ≠ .absent := fun h => hc (by rw [h])
      exact (positions_tame origin items.length present).andThen fun _ =>
        .ite (.shape _) (.ok trivial)
  | absent => exact absurd rfl hv

theorem fits_ofExpr? {place : Place} (fits : w₀.Fits e) (h : Place.ofExpr? e = some place) :
    place.Fits w₀ := by
  unfold Place.ofExpr? at h
  split at h
  · obtain rfl := Option.some.inj h
    exact trivial
  next name slot =>
    obtain rfl := Option.some.inj h
    exact fits name slot (Expr.self_mem_nodes _)
  · exact nomatch h

theorem assign_yields (he : EvaluatingYields w₀ licence eval) (grown : Grown w₀.Knows e)
    (placed : w₀.Fits e) {v : Value} (hv : v ≠ .absent) :
    Yields w₀ licence (assign eval e v) fun _ => True := by
  cases grown with
  | sessionVar name => exact write_yields (.ofSession name) trivial hv
  | slotVar name slot =>
    exact write_yields (.ofFrame name slot) (placed name slot (Expr.self_mem_nodes _)) hv
  | @index base subscripts _ subscripts_grown =>
    have base_placed : w₀.Fits base := placed.part (by simp [Expr.nodes])
    have subscripts_placed (e : Expr) (he : e ∈ subscripts) : w₀.Fits e := by
      refine placed.part fun node hn => ?_
      simp [Expr.nodes, Expr.nodes_subset_nodesOf he hn]
    unfold assign assignElements
    dsimp only
    split
    · exact .fail (.inr trivial)
    next place hp =>
      have place_fits := fits_ofExpr? base_placed hp
      refine .bind (read_yields place place_fits) fun current _ => ?_
      split
      next items _ =>
        refine .bind (subscript_yields he subscripts_grown subscripts_placed) fun chosen hc => ?_
        refine .get fun w hw => ?_
        have replaced := replace_tame w.settings.origin items hc hv
        refine Yields.bind (.ofResult replaced) (fun news _ => ?_) w hw
        exact write_yields place place_fits nofun
      · exact .fail (.inr trivial)
  | constant | string | unary | binary | assign | strand => exact .fail (.inr trivial)

theorem strandItems_yields (h : Yields w₀ licence (eval e) (· ≠ .absent)) :
    Yields w₀ licence (strandItems eval e) fun _ => True := by
  refine .bind h fun v hv => ?_
  cases v with
  | scalar => exact .pure trivial
  | vector => exact .pure trivial
  | absent => exact absurd rfl hv

theorem holds_yields (h : Yields w₀ licence (eval e) (· ≠ .absent)) :
    Yields w₀ licence (holds eval e) fun _ => True :=
  .bind h fun v _ => .ofResult v.truth_tame

/-- **A tree that has been read has a value.** -/
theorem node_yields [Machine] {eval : Nat → Evaluating} (hs : Sound w₀)
    (he : ∀ toll, EvaluatingYields w₀ licence (eval toll))
    (hc : ∀ toll, CallingYields w₀ licence (call toll)) (grown : Grown w₀.Knows e)
    (placed : w₀.Fits e) (licensed : ∀ word right, e = .unary word right → Licensed licence word) :
    Yields w₀ licence (node eval call e) (· ≠ .absent) := by
  cases grown with
  | constant s => exact .pure nofun
  | string text => exact .pure nofun
  | sessionVar name => exact read_yields (.ofSession name) trivial
  | slotVar name slot =>
    exact read_yields (.ofFrame name slot) (placed name slot (Expr.self_mem_nodes _))
  | @unary word right needs itself folded grown =>
    refine .bind (he 0 right grown (placed.part (by simp [Expr.nodes]))) fun v hv => ?_
    exact applyUnary_yields hs hc needs itself folded (licensed word right rfl) hv
  | @binary word left right needs left_grown right_grown =>
    refine .bind (he 0 right right_grown (placed.part (by simp [Expr.nodes]))) fun r hr => ?_
    refine .bind (he 0 left left_grown (placed.part (by simp [Expr.nodes]))) fun l hl => ?_
    exact applyBinary_yields hs hc needs 0 l r hl hr
  | @assign target value _ target_grown grown =>
    refine .bind (he 0 value grown (placed.part (by simp [Expr.nodes]))) fun v hv => ?_
    have target_placed : w₀.Fits target := placed.part (by simp [Expr.nodes])
    exact .bind (assign_yields (he 3) target_grown target_placed hv) fun _ _ => .pure hv
  | @index base subscripts base_grown grown =>
    refine .bind (he 0 base base_grown (placed.part (by simp [Expr.nodes]))) fun v _ => ?_
    refine .bind (subscript_yields (he 1) grown fun e hm => ?_) fun chosen hc => .get fun w hw => ?_
    · refine placed.part fun node hn => ?_
      simp [Expr.nodes, Expr.nodes_subset_nodesOf hm hn]
    · exact Yields.ofResult (select_gives _ v hc) w hw
  | @strand items grown =>
    refine .bind (.mapM (Q := fun _ => True) fun e hm => strandItems_yields ?_) fun _ _ => .pure nofun
    refine he 2 e (grown e hm) (placed.part fun node hn => ?_)
    simp [Expr.nodes, Expr.nodes_subset_nodesOf hm hn]

/-- A statement need not have a value. -/
theorem node_statement_yields [Machine] {eval : Nat → Evaluating} (hs : Sound w₀)
    (he : ∀ toll, EvaluatingYields w₀ licence (eval toll))
    (hc : ∀ toll, CallingYields w₀ licence (call toll)) (stated : Stated w₀.Knows e)
    (placed : w₀.Fits e) (licensed : ∀ word right, e = .unary word right → Licensed licence word) :
    Yields w₀ licence (node eval call e) fun _ => True := by
  cases stated with
  | empty => exact .pure trivial
  | plain grown => exact (node_yields hs he hc grown placed licensed).mono fun _ _ => trivial
  | @conditional condition result condition_grown grown =>
    have value := he 0 condition condition_grown (placed.part (by simp [Expr.nodes]))
    refine .bind (holds_yields value) fun b _ => ?_
    split
    · exact (he 0 result grown (placed.part (by simp [Expr.nodes]))).mono fun _ _ => trivial
    · exact .pure trivial

/-! ## § Bodies -/

theorem runBody_yields (he : EvaluatingYields w₀ licence eval)
    (stated : ∀ e ∈ es, Stated w₀.Knows e) (placed : ∀ e ∈ es, w₀.Fits e) (v : Value) :
    Yields w₀ licence (runBody eval es v) (· ≠ .absent) := by
  induction es generalizing v with
  | nil =>
    cases v with
    | absent => exact .fail (.inr trivial)
    | scalar => exact .pure nofun
    | vector => exact .pure nofun
  | cons e es ih =>
    have rest := ih (fun e hm => stated e (List.mem_cons_of_mem _ hm))
      fun e hm => placed e (List.mem_cons_of_mem _ hm)
    have here := placed e List.mem_cons_self
    cases stated e List.mem_cons_self with
    | empty => exact rest v
    | @conditional condition result condition_grown grown =>
      have value := he condition condition_grown (here.part (by simp [Expr.nodes]))
      refine .bind (holds_yields value) fun b _ => ?_
      split
      · exact he result grown (here.part (by simp [Expr.nodes]))
      · exact rest v
    | plain grown =>
      have step : Yields w₀ licence (eval e >>= runBody eval es) (· ≠ .absent) :=
        .bind (he e grown here) fun v _ => rest v
      cases grown <;> exact step

theorem Sound.of_operators (hs : Sound w₀) (steady : w.Steady)
    (same : ∀ arity name, w.userOperator? arity name = w₀.userOperator? arity name) :
    Sound w where
  steady := steady
  named arity := (same arity "").trans (hs.named arity)
  stated arity name f hf e he := by
    have knows : w.Knows = w₀.Knows := by
      funext s
      rw [knows_eq, knows_eq, same]
    rw [knows]
    exact hs.stated arity name f ((same arity name).symm.trans hf) e he

theorem Sound.of_sameFrame (hs : Sound w₀) (hw : w₀.SameFrame w) : Sound w :=
  hs.of_operators (hs.steady.of_sameFrame hw) hw.userOperator?

theorem Sound.within_call {f : UserOperator} {operands : List Value} (hs : Sound w)
    (room : w.stack.depth < w.settings.maxStack) : Sound (entered w f operands) := by
  refine hs.of_operators (steady_entered hs.steady room) fun arity name => ?_
  cases arity <;> rfl

/-! ## § Guards -/

/-- A guard that does no more than to stop with an alarm, and lets a fold of a product pass only if
there is a licence for it. -/
structure Heeds (guard : Guard) (licence : Licence) : Prop where
  looks : ∀ w e, (guard e).run w = .ok () w ∨
    ∃ failure, licence.alarm failure ∧ (guard e).run w = .error failure w
  licensed : ∀ w word right, (guard (.unary word right)).run w = .ok () w → Licensed licence word

/-- A guard that lets everything pass. -/
def guardNothing : Guard := fun _ => pure ()

theorem guardNothing_watches : Watches (fun _ => False) guardNothing := fun _ _ _ _ => .inl rfl

/-- The licence of an evaluation that is not guarded: any binary operator may be missing. -/
def anyMissing : Licence := ⟨fun _ => True, fun _ => False⟩

theorem guardNothing_heeds : Heeds guardNothing anyMissing :=
  ⟨fun _ _ => .inl rfl, fun _ _ _ _ _ _ _ _ => trivial⟩

/-- Stops with an alarm at a tree that folds with a product which is an operator's name. -/
def guardFolds (alarm : Failure) (operator : String) : Guard
  | .unary word _ =>
    if OperatorWord.isProduct word = true ∧
        (OperatorWord.splitMark? word).map Prod.fst = some operator then throw alarm
    else pure ()
  | _ => pure ()

theorem guardFolds_cases (alarm : Failure) (operator : String) (w : Workspace) (e : Expr) :
    (guardFolds alarm operator e).run w = .ok () w ∨
      (guardFolds alarm operator e).run w = .error alarm w := by
  unfold guardFolds
  split
  · split
    · exact .inr rfl
    · exact .inl rfl
  · exact .inl rfl

theorem guardFolds_watches (alarm : Failure) (operator : String) :
    Watches (· = alarm) (guardFolds alarm operator) := fun w e _ _ =>
  (guardFolds_cases alarm operator w e).imp_right fun stopped => ⟨alarm, w, rfl, stopped⟩

theorem guardFolds_heeds (alarm : Failure) (operator : String) :
    Heeds (guardFolds alarm operator) ⟨(· ≠ operator), (· = alarm)⟩ where
  looks w e := (guardFolds_cases alarm operator w e).imp_right fun stopped => ⟨alarm, rfl, stopped⟩
  licensed w word right passed product base mark fold := by
    rintro rfl
    rw [guardFolds, if_pos ⟨product, by rw [fold]; rfl⟩] at passed
    exact nomatch passed

variable {guard : Guard} {arity : Arity} {name : String} {f : UserOperator}

theorem Heeds.yields (h : Heeds guard licence) (e : Expr) :
    Yields w₀ licence (guard e) fun _ => True := by
  intro w hw
  unfold Outcome
  rcases h.looks w e with passed | ⟨failure, alarm, stopped⟩
  · rw [passed]
    exact ⟨hw, trivial⟩
  · rw [stopped]
    exact hw.fails (.inl alarm)

/-- What comes after a guard that has let a tree pass. -/
theorem Heeds.before {x : Evaluation α} {P : α → Prop} (h : Heeds guard licence) (e : Expr)
    (hx : (∀ word right, e = .unary word right → Licensed licence word) →
      Yields w₀ licence x P) :
    Yields w₀ licence (do guard e; x) P := by
  intro w hw
  rcases h.looks w e with passed | ⟨failure, alarm, stopped⟩
  · unfold Outcome
    rw [run_bind_ok passed]
    exact hx (fun word right same => h.licensed w word right (same ▸ passed)) w hw
  · unfold Outcome
    rw [run_bind_error stopped]
    exact hw.fails (.inl alarm)

/-- What an evaluation under a guard does with a tree, whatever else is done with it. -/
theorem Heeds.around {x : Evaluation α} {P : α → Prop} (h : Heeds guard licence) (e : Expr)
    (hx : (∀ word right, e = .unary word right → Licensed licence word) →
      Yields w₀ licence x P) :
    Yields w₀ licence (do guard e; let v ← x; guard e; return v) P :=
  h.before e fun licensed => .bind (hx licensed) fun _ hv => .bind (h.yields e) fun _ _ => .pure hv

/-! ## § Calls -/

/-- What a call makes of its operands. -/
structure Called (w : Workspace) (v : Value) (w' : Workspace) : Prop where
  returns : CallReturns w w'
  present : w'.Present
  value : v ≠ .absent

theorem Called.inFrame {v : Value} (h : Called w v w') (hw : InFrame w₀ w) : InFrame w₀ w' :=
  ⟨hw.frame.trans h.returns.frame, h.present⟩

theorem pushFrame_outcome (hs : Sound w) (hp : w.Present) (f : UserOperator)
    (operands : List Value) :
    Outcome (pushFrame f operands) w
      (fun _ w' => w' = entered w f operands ∧ Sound w' ∧ w'.Present) (Fails licence) := by
  unfold Outcome
  rw [run_pushFrame]
  by_cases full : w.settings.maxStack ≤ w.stack.depth
  · rw [if_pos full]
    exact ⟨hp, .inr trivial⟩
  · rw [if_neg full]
    exact ⟨rfl, hs.within_call (by omega), hp⟩

variable [Machine]

theorem tear_outcome (hp : w.Present) (f : UserOperator) :
    Outcome (tear f) w (Called w) (Fails licence) := by
  unfold tear Outcome
  rw [run_bind_checkDepth]
  by_cases full : w.settings.maxStack ≤ w.stack.depth
  · rw [if_pos full]
    exact ⟨hp, .inr trivial⟩
  · rw [if_neg full]
    by_cases tears : Machine.tearsFrames = true
    · rw [if_pos tears]
      exact ⟨hp, .inr trivial⟩
    · rw [if_neg tears]
      exact ⟨hp, .inr trivial⟩

omit [Machine] in
/-- A call makes a value of its operands, whatever they are. -/
theorem enter_yields (heeds : Heeds guard licence) (hs : Sound w) (hp : w.Present)
    (hf : w.userOperator? arity name = some f) (operands : List Value)
    (he : ∀ w, Sound w → EvaluatingYields w licence eval) :
    Outcome (enterGuarded guard eval f operands) w (Called w) (Fails licence) := by
  rw [enterGuarded_eq]
  refine .bind (pushFrame_outcome hs hp f operands) fun _ w₁ ⟨same, sound, present⟩ => ?_
  subst same
  refine .bind (heeds.yields .empty _ ⟨.refl _, present⟩) fun _ w₂ ⟨inside, _⟩ => ?_
  have stored : (entered w f operands).userOperator? arity name = some f := by
    rw [← hf]
    cases arity <;> rfl
  have placed : ∀ e ∈ f.body, (entered w f operands).Fits e :=
    fits_entered (hs.steady.bodies arity name f hf)
  have body := runBody_yields (he _ sound) (sound.stated arity name f stored) placed .absent
  refine outcome_closing ((body w₂ inside).mono (fun v w' k => ?_) fun failure w' k => ?_)
  · exact ⟨callReturns_left k.1.frame, k.1.present, k.2⟩
  · exact ⟨k.present, k.expected⟩

theorem callingGuarded_yields {depth toll : Nat} (hs : Sound w)
    (called : ∀ w, Sound w → w.Present → ∀ arity name f, w.userOperator? arity name = some f →
      ∀ operands, Outcome (callGuarded guard depth toll f operands) w (Called w)
        (Fails licence)) :
    CallingYields w licence (callGuarded guard depth toll) := by
  intro arity name f hf operands w' hw'
  have stored := (hw'.frame.userOperator? arity name).trans hf
  refine (called w' (hs.of_sameFrame hw'.frame) hw'.present arity name f stored operands).mono
    (fun v w'' k => ?_) fun _ _ k => k
  exact ⟨k.inFrame hw', k.value⟩

/-- **Every tree that has been read has a value, and so has every call**, at whatever depth, under a
guard that heeds the licence. -/
theorem guarded_yields (heeds : Heeds guard licence) (depth toll : Nat) :
    (∀ w, Sound w → EvaluatingYields w licence (evaluateGuarded guard depth toll)) ∧
    ∀ w, Sound w → w.Present → ∀ arity name f, w.userOperator? arity name = some f →
      ∀ operands, Outcome (callGuarded guard depth toll f operands) w (Called w)
        (Fails licence) := by
  induction depth generalizing toll with
  | zero =>
    constructor
    · intro w _ e _ _
      rw [evaluateGuarded]
      exact .fail (.inr trivial)
    · intro w _ hp _ _ f _ operands
      rw [callGuarded]
      exact ⟨hp, .inr trivial⟩
  | succ depth ih =>
    cases toll with
    | succ toll =>
      constructor
      · intro w hs e grown placed
        rw [evaluateGuarded]
        exact (ih toll).1 w hs e grown placed
      · intro w hs hp arity name f hf operands
        rw [callGuarded]
        exact (ih toll).2 w hs hp arity name f hf operands
    | zero =>
      constructor
      · intro w hs e grown placed
        rw [evaluateGuarded]
        refine heeds.around e fun licensed => ?_
        refine node_yields hs (fun toll => (ih toll).1 w hs) (fun toll => ?_) grown placed licensed
        exact callingGuarded_yields hs (ih toll).2
      · intro w hs hp arity name f hf operands
        rw [callGuarded]
        split
        · exact tear_outcome hp f
        · exact enter_yields heeds hs hp hf operands (ih 0).1

/-! ## § Lines -/

theorem evaluateGuarded_statement_yields (heeds : Heeds guard licence) (hs : Sound w)
    (stated : Stated w.Knows e) (placed : w.Fits e) (depth : Nat) :
    Yields w licence (evaluateGuarded guard depth 0 e) fun _ => True := by
  cases depth with
  | zero =>
    rw [evaluateGuarded]
    exact .fail (.inr trivial)
  | succ depth =>
    rw [evaluateGuarded]
    refine heeds.around e fun licensed => ?_
    refine node_statement_yields hs (fun toll => (guarded_yields heeds depth toll).1 w hs)
      (fun toll => ?_) stated placed licensed
    exact callingGuarded_yields hs (guarded_yields heeds depth toll).2

/-- Only values that are there are printed. -/
theorem evaluateLineGuarded_yields (heeds : Heeds guard licence) (hs : Sound w)
    (stated : ∀ e ∈ es, Stated w.Knows e) (placed : ∀ e ∈ es, w.Fits e) :
    Yields w licence (evaluateLineGuarded guard es) fun vs => .absent ∉ vs := by
  induction es with
  | nil => exact .pure nofun
  | cons e es ih =>
    have here := evaluateGuarded_statement_yields heeds hs (stated e List.mem_cons_self)
      (placed e List.mem_cons_self) Machine.calls
    refine .bind here fun v _ => ?_
    refine .bind (ih (fun e hm => stated e (List.mem_cons_of_mem _ hm))
      fun e hm => placed e (List.mem_cons_of_mem _ hm)) fun others present => .pure ?_
    split
    · exact present
    next printed =>
      rw [List.mem_cons, not_or]
      refine ⟨fun absent => printed ?_, present⟩
      rw [← absent]
      simp

/-! ## § Evaluations that are not guarded -/

/-- **A call makes a value of its operands**, whatever they are, or fails as an evaluation may. -/
theorem callWithin_yields (hs : Sound w) (hp : w.Present)
    (hf : w.userOperator? arity name = some f) (depth toll : Nat) (operands : List Value) :
    Outcome (callWithin depth toll f operands) w (Called w) (Fails anyMissing) := by
  obtain ⟨same | ⟨_, _, impossible, _⟩, -⟩ := (guarded_agrees guardNothing_watches depth toll).2 w
    hs.steady f operands (hs.steady.bodies arity name f hf)
  · have guarded := (guarded_yields guardNothing_heeds depth toll).2 w hs hp arity name f hf
    exact .of_run (guarded operands) same
  · exact impossible.elim

/-- **The values of a line are there.** -/
theorem evaluateLine_yields (hs : Sound w) (hp : w.Present)
    (stated : ∀ e ∈ es, Stated w.Knows e) (placed : ∀ e ∈ es, w.Fits e) :
    Outcome (evaluateLine es) w (fun vs w' => InFrame w w' ∧ .absent ∉ vs) (Fails anyMissing) := by
  obtain ⟨same | ⟨_, _, impossible, _⟩, -⟩ :=
    evaluateLine_agrees guardNothing_watches hs.steady placed w (.refl w)
  · have guarded := evaluateLineGuarded_yields guardNothing_heeds hs stated placed
    exact .of_run (guarded w ⟨.refl w, hp⟩) same
  · exact impossible.elim

/-- **A binary operator is missing only where a product is folded with.**  If a line fails since there
is no binary operator of some name, then it comes to a tree that folds with a product of that name:
whatever alarm is set there stops the line. -/
theorem evaluateLine_missing {operator : String} (hs : Sound w) (hp : w.Present)
    (stated : ∀ e ∈ es, Stated w.Knows e) (placed : ∀ e ∈ es, w.Fits e)
    (failed : (evaluateLine es).run w = .error (.error (.undefined (.noBinary operator))) w')
    (alarm : Failure) :
    ∃ w'', (evaluateLineGuarded (guardFolds alarm operator) es).run w = .error alarm w'' := by
  obtain ⟨same | ⟨_, w'', rfl, stopped⟩, -⟩ :=
    evaluateLine_agrees (guardFolds_watches alarm operator) hs.steady placed w (.refl w)
  · have guarded := evaluateLineGuarded_yields (guardFolds_heeds alarm operator) hs stated placed w
      ⟨.refl w, hp⟩
    rw [failed] at same
    rcases (guarded.of_error same.symm).expected with rfl | other
    · exact ⟨w', same.symm⟩
    · exact absurd rfl other
  · exact ⟨w'', stopped⟩

end Evaluation

end ArrayCalc
