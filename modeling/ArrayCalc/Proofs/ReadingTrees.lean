import ArrayCalc.Proofs.CanonicalResults
import ArrayCalc.Proofs.Definitions
import ArrayCalc.Proofs.ReadingParts
import ArrayCalc.Proofs.Sources
import ArrayCalc.Proofs.Trees

/-!
# Reading grows trees

An operator token is what the vocabulary says at the moment it is looked at, and so is a name.  It
is taken before the vocabulary can change: the names of a definition are declared behind a sign that
has been taken, and when a definition is left again, all its tokens have been.  So an operator that
is applied is known, and a session variable that is named is no operator.

What comes closest to an exception is an error in the middle of a body.  The rest of the line is
dropped then, unless the last token taken ended its line; and what has been looked at in that case
is never an operator or a name.
-/

namespace ArrayCalc

/-- A reader for which an operator that has been looked at is one of the vocabulary, and a name is
not; `base` is the workspace without declarations. -/
structure Aware (base : Workspace) (r : Reader) : Prop where
  same_base : base.SameBase r.workspace
  derivable : ∀ t, r.source.peeked = some t → t.kind = .operator →
    OperatorWord.Derivable r.workspace.vocabulary.isBinary t.text
  named : ∀ t, r.source.peeked = some t → t.kind = .identifier →
    t.text = "o" ∨ r.workspace.vocabulary.isOperator t.text = false

/-- A reader with an operand before it.  At the start of a line, the next token is no operator. -/
structure AtOperand (base : Workspace) (r : Reader) : Prop extends Aware base r where
  begun : r.source.atLineEnd = false ∨ ∃ t, r.source.peeked = some t ∧ t.kind ≠ .operator

/-- A reader in the middle of a line.  At the start of one, the next token is neither an operator nor
a name. -/
structure Underway (base : Workspace) (r : Reader) : Prop extends Aware base r where
  begun : r.source.atLineEnd = false ∨
    ∃ t, r.source.peeked = some t ∧ t.kind ≠ .operator ∧ t.kind ≠ .identifier

/-- What is left of the source by something that stops a reader.  The only fault is a number that is
too large. -/
def Halted : Obstacle → Reader → Prop
  | .lex _, _ => True
  | .parse _, r | .tooDeep _, r => r.source.atLineEnd = true → r.source.Ready
  | .fault f, r => f = .overflow ∧ r.source.Ready

variable {base : Workspace} {r : Reader}

theorem Aware.of_taken (h : base.SameBase r.workspace) (taken : r.source.peeked = none) :
    Aware base r where
  same_base := h
  derivable _ ht := nomatch taken.symm.trans ht
  named _ ht := nomatch taken.symm.trans ht

theorem Underway.atOperand (h : Underway base r) : AtOperand base r :=
  ⟨h.toAware, h.begun.imp_right fun ⟨t, ht, other, _⟩ => ⟨t, ht, other⟩⟩

theorem Underway.halted (h : Underway base r) : r.source.atLineEnd = true → r.source.Ready := by
  intro ended t ht
  rcases h.begun with inside | ⟨u, hu, other⟩
  · exact nomatch ended.symm.trans inside
  · obtain rfl := Option.some.inj (ht.symm.trans hu)
    exact other

namespace Reading

open ArrayCalc.Expr (Fresh FreshStatement)

variable {α : Type} {t : Token} {e : Expr}

/-- A reader of something with a property, in the middle of a line. -/
def Grows (base : Workspace) (x : Reading α) (P : α → Prop) : Prop :=
  ∀ r, Underway base r → Outcome x r (fun a r' => Underway base r' ∧ P a) Halted

/-! ## § Tokens -/

theorem peek_aware (h : Aware base r) :
    Outcome peek r
      (fun t r' => (Aware base r' ∧ r'.workspace = r.workspace ∧
        r'.source.atLineEnd = r.source.atLineEnd) ∧ r'.source.peeked = some t)
      Halted := by
  refine outcome_onSource (fun t s hp => ?_) fun _ _ _ => trivial
  obtain ⟨hs, ht⟩ := Source.peek_ok hp
  refine ⟨⟨⟨h.same_base, fun u hu operator => ?_, fun u hu name => ?_⟩, rfl,
    Source.peek_atLineEnd hp⟩, hs⟩
  · obtain rfl : t = u := Option.some.inj (hs.symm.trans hu)
    rcases ht with before | sound
    · exact h.derivable t before operator
    · exact sound.operator operator
  · obtain rfl : t = u := Option.some.inj (hs.symm.trans hu)
    rcases ht with before | sound
    · exact h.named t before name
    · exact sound.identifier name

/-- A token that has been looked at is looked at again. -/
theorem peek_same (hp : r.source.peeked = some t) :
    Outcome peek r (fun u r' => r' = r ∧ u = t) Halted := by
  refine outcome_onSource (fun u s hu => ?_) fun _ _ _ => trivial
  rw [Source.peek_of_peeked hp] at hu
  obtain ⟨same, rfl⟩ := Prod.mk.inj hu
  exact ⟨rfl, (Except.ok.inj same).symm⟩

theorem peek_atOperand (h : AtOperand base r) :
    Outcome peek r (fun t r' => AtOperand base r' ∧ r'.source.peeked = some t) Halted := by
  rcases h.begun with inside | ⟨u, hu, -⟩
  · refine (peek_aware h.toAware).mono (fun t r' ⟨⟨aware, _, same⟩, hp⟩ => ?_) fun _ _ k => k
    exact ⟨⟨aware, .inl (same.trans inside)⟩, hp⟩
  · refine (peek_same hu).mono (fun t r' same => ?_) fun _ _ k => k
    obtain ⟨rfl, rfl⟩ := same
    exact ⟨h, hu⟩

theorem peek_underway (h : Underway base r) :
    Outcome peek r (fun t r' => Underway base r' ∧ r'.source.peeked = some t) Halted := by
  rcases h.begun with inside | ⟨u, hu, -⟩
  · refine (peek_aware h.toAware).mono (fun t r' ⟨⟨aware, _, same⟩, hp⟩ => ?_) fun _ _ k => k
    exact ⟨⟨aware, .inl (same.trans inside)⟩, hp⟩
  · refine (peek_same hu).mono (fun t r' same => ?_) fun _ _ k => k
    obtain ⟨rfl, rfl⟩ := same
    exact ⟨h, hu⟩

theorem peekKind_aware (h : Aware base r) :
    Outcome peekKind r
      (fun kind r' => (Aware base r' ∧ r'.workspace = r.workspace ∧
        r'.source.atLineEnd = r.source.atLineEnd) ∧
        ∃ t, r'.source.peeked = some t ∧ t.kind = kind)
      Halted :=
  .bind (peek_aware h) fun t _ k => .pure ⟨k.1, t, k.2, rfl⟩

theorem peekKind_underway (h : Underway base r) :
    Outcome peekKind r
      (fun kind r' => Underway base r' ∧ ∃ t, r'.source.peeked = some t ∧ t.kind = kind) Halted :=
  .bind (peek_underway h) fun t _ k => .pure ⟨k.1, t, k.2, rfl⟩

theorem take_aware (h : Aware base r) :
    Outcome take r
      (fun t r' => Aware base r' ∧ r'.workspace = r.workspace ∧ r'.source.peeked = none ∧
        r'.source.atLineEnd = t.kind.isLineEnd)
      Halted := by
  refine outcome_onSource (fun t s ht => ?_) fun _ _ _ => trivial
  have taken := Source.peeked_of_take ht
  exact ⟨.of_taken h.same_base taken, rfl, taken, Source.take_atLineEnd ht⟩

/-- What is taken has been looked at before. -/
theorem discard_aware (h : Aware base r) (hp : r.source.peeked = some t) :
    Outcome discard r
      (fun _ r' => Aware base r' ∧ r'.workspace = r.workspace ∧ r'.source.peeked = none ∧
        r'.source.atLineEnd = t.kind.isLineEnd)
      Halted := by
  have taken : Outcome take r (fun _ r' => Aware base r' ∧ r'.workspace = r.workspace ∧
      r'.source.peeked = none ∧ r'.source.atLineEnd = t.kind.isLineEnd) Halted := by
    refine outcome_onSource (fun u s hu => ?_) fun _ _ _ => trivial
    have same : t = u := by
      rw [Source.take_of_peeked hp] at hu
      exact Except.ok.inj (congrArg Prod.fst hu)
    have taken := Source.peeked_of_take hu
    exact ⟨.of_taken h.same_base taken, rfl, taken, same ▸ Source.take_atLineEnd hu⟩
  exact .bind taken fun _ _ k => .pure k

theorem discard_underway (h : Aware base r) (hp : r.source.peeked = some t)
    (inner : t.kind.isLineEnd = false) :
    Outcome discard r
      (fun _ r' => Underway base r' ∧ r'.workspace = r.workspace ∧ r'.source.peeked = none)
      Halted := by
  refine (discard_aware h hp).mono (fun _ r' k => ?_) fun _ _ k => k
  obtain ⟨aware, same, taken, ended⟩ := k
  exact ⟨⟨aware, .inl (ended.trans inner)⟩, same, taken⟩

theorem reject_halted {Q : α → Reader → Prop} (h : r.source.atLineEnd = true → r.source.Ready)
    {t : Token} {cause : ParseError.Cause} {expected : List String} :
    Outcome (reject t cause expected) r Q Halted := .throw h

/-- Behind a token that has been taken any error may stop a reader. -/
theorem reject_taken {Q : α → Reader → Prop} (h : r.source.peeked = none) {t : Token}
    {cause : ParseError.Cause} {expected : List String} :
    Outcome (reject t cause expected) r Q Halted :=
  reject_halted fun _ => Source.ready_of_peeked h

theorem expect_grows (kind : TokenKind) (what : String) (inner : kind.isLineEnd = false) :
    Grows base (expect kind what) fun _ => True := by
  intro r h
  refine .bind (take_aware h.toAware) fun t r₁ ⟨aware, _, taken, ended⟩ => ?_
  split
  · exact reject_taken taken
  next same =>
    have kind_eq : t.kind = kind := Decidable.not_not.1 same
    exact .pure ⟨⟨aware, .inl (by rw [ended, kind_eq, inner])⟩, trivial⟩

theorem endOfLine_aware (h : Aware base r) :
    Outcome endOfLine r (fun _ r' => Aware base r' ∧ r'.source.peeked = none) Halted := by
  refine .bind (take_aware h) fun t r₁ ⟨aware, _, taken, _⟩ => ?_
  split
  · exact .pure ⟨aware, taken⟩
  · exact reject_taken taken

theorem remaining_grows : Grows base remaining fun _ => True :=
  fun _ h => .get (.pure ⟨h, trivial⟩)

/-! ## § Operands -/

theorem numeral_grows (h : Underway base r) (taken : r.source.peeked = none) (t : Token) :
    Outcome (numeral t) r (fun e r' => Underway base r' ∧ Fresh base.Knows e) Halted := by
  unfold numeral
  refine .get ?_
  split
  next hs => exact .pure ⟨h, .constant (Numeral.read_canonical _ _ _ hs)⟩
  next => exact reject_taken taken
  next => exact .throw ⟨rfl, Source.ready_of_peeked taken⟩

theorem quoted_grows (h : Underway base r) (taken : r.source.peeked = none) (t : Token) :
    Outcome (quoted t) r (fun e r' => Underway base r' ∧ Fresh base.Knows e) Halted := by
  unfold quoted
  split
  · exact .pure ⟨h, .constant (Scalar.canonical_char _)⟩
  · exact .pure ⟨h, .string _⟩
  · exact .throw trivial
  · exact .throw ⟨rfl, Source.ready_of_peeked taken⟩

/-- A name that is no slot is declared nowhere, so it is not the name of an operator either. -/
theorem nameUse_grows (h : Underway base r) {name : String}
    (named : name = "o" ∨ r.workspace.vocabulary.isOperator name = false) :
    Outcome (nameUse name) r (fun e r' => Underway base r' ∧ Fresh base.Knows e) Halted := by
  unfold nameUse
  refine .get ?_
  split
  next => exact .pure ⟨h, .slotVar _ _⟩
  next no_slot =>
    refine .set (.pure ⟨⟨⟨h.same_base, h.derivable, h.named⟩, h.begun⟩, .sessionVar ?_⟩)
    refine named.imp_right fun no_operator arity => ?_
    rw [Workspace.slotOf?, Option.map_eq_none_iff, List.findIdx?_eq_none_iff] at no_slot
    have undeclared : name ∉ r.workspace.declared := fun hm => by simpa using no_slot name hm
    refine Bool.eq_false_iff.2 fun known => Bool.eq_false_iff.1 no_operator ?_
    refine Workspace.isOperator_vocabulary.2 ⟨undeclared, ?_⟩
    rw [h.same_base.knowsName]
    exact Workspace.knowsName_of_knows known

variable {expr : Reading Expr}

/-- What is no operand is no name. -/
theorem item?_grows (he : Grows base expr (Fresh base.Knows)) (h : AtOperand base r) :
    Outcome (item? expr) r
      (fun o r' => Underway base r' ∧ ∀ e, o = some e → Fresh base.Knows e) Halted := by
  unfold item?
  refine .bind (peek_atOperand h) fun t r₁ ⟨h₁, hp⟩ => ?_
  -- Every literal is read from a token that has been taken.
  have literal {x : Reading Expr} (inner : t.kind.isLineEnd = false)
      (hx : ∀ r₂, Underway base r₂ → r₂.workspace = r₁.workspace → r₂.source.peeked = none →
        Outcome x r₂ (fun e r' => Underway base r' ∧ Fresh base.Knows e) Halted) :
      Outcome (do discard; return some (← x)) r₁
        (fun o r' => Underway base r' ∧ ∀ e, o = some e → Fresh base.Knows e) Halted := by
    refine .bind (discard_underway h₁.toAware hp inner) fun _ r₂ ⟨h₂, same, taken⟩ => ?_
    refine .bind (hx r₂ h₂ same taken) fun e r₃ ⟨h₃, fresh⟩ => .pure ⟨h₃, ?_⟩
    rintro _ ⟨⟩
    exact fresh
  split
  next hk => exact literal (by rw [hk]; rfl) fun r₂ h₂ _ taken => numeral_grows h₂ taken t
  next hk => exact literal (by rw [hk]; rfl) fun r₂ h₂ _ taken => numeral_grows h₂ taken t
  next hk => exact literal (by rw [hk]; rfl) fun r₂ h₂ _ taken => numeral_grows h₂ taken t
  next hk => exact literal (by rw [hk]; rfl) fun r₂ h₂ _ taken => quoted_grows h₂ taken t
  next hk =>
    refine literal (by rw [hk]; rfl) fun r₂ h₂ same _ => nameUse_grows h₂ ?_
    rw [same]
    exact h₁.named t hp hk
  next hk =>
    refine .bind (discard_underway h₁.toAware hp (by rw [hk]; rfl)) fun _ r₂ ⟨h₂, _⟩ => ?_
    refine .bind (he r₂ h₂) fun e r₃ ⟨h₃, fresh⟩ => ?_
    refine .bind (expect_grows .rightParen ")" rfl r₃ h₃) fun _ r₄ ⟨h₄, _⟩ => .pure ⟨h₄, ?_⟩
    rintro _ ⟨⟩
    exact fresh
  next no_name _ =>
    refine .pure ⟨⟨h₁.toAware, h₁.begun.imp_right ?_⟩, nofun⟩
    rintro ⟨u, hu, no_operator⟩
    obtain rfl : t = u := Option.some.inj (hp.symm.trans hu)
    exact ⟨t, hp, no_operator, no_name⟩

theorem items_grows (he : Grows base expr (Fresh base.Knows)) {count : Nat}
    (h : AtOperand base r) (looks : count = 0 → Underway base r) :
    Outcome (items expr count) r
      (fun es r' => Underway base r' ∧ ∀ e ∈ es, Fresh base.Knows e) Halted := by
  induction count generalizing r with
  | zero => exact .pure ⟨looks rfl, nofun⟩
  | succ count ih =>
    refine .bind (item?_grows he h) fun o r₁ ⟨h₁, fresh⟩ => ?_
    cases o with
    | none => exact .pure ⟨h₁, nofun⟩
    | some e =>
      refine .bind (ih h₁.atOperand fun _ => h₁) fun es r₂ ⟨h₂, others⟩ => .pure ⟨h₂, ?_⟩
      exact List.forall_mem_cons.2 ⟨fresh e rfl, others⟩

theorem afterSubscript_grows {others : Reading (List Expr)} {e : Expr} (h : Underway base r)
    (ho : Grows base others fun es => ∀ e ∈ es, e ≠ .empty → Fresh base.Knows e)
    (fresh : e ≠ .empty → Fresh base.Knows e) :
    Outcome (afterSubscript others e) r
      (fun es r' => Underway base r' ∧ ∀ e ∈ es, e ≠ .empty → Fresh base.Knows e) Halted := by
  refine .bind (take_aware h.toAware) fun t r₁ ⟨aware, _, taken, ended⟩ => ?_
  split
  next hk =>
    have h₁ : Underway base r₁ := ⟨aware, .inl (by rw [ended, hk]; rfl)⟩
    exact .pure ⟨h₁, by simpa using fresh⟩
  next hk =>
    have h₁ : Underway base r₁ := ⟨aware, .inl (by rw [ended, hk]; rfl)⟩
    refine .bind (ho r₁ h₁) fun es r₂ ⟨h₂, others⟩ => .pure ⟨h₂, ?_⟩
    exact List.forall_mem_cons.2 ⟨fresh, others⟩
  next => exact reject_taken taken

theorem subscripts_grows (he : Grows base expr (Fresh base.Knows)) (count : Nat) :
    Grows base (subscripts expr count) fun es => ∀ e ∈ es, e ≠ .empty → Fresh base.Knows e := by
  induction count with
  | zero =>
    intro r h
    exact .pure ⟨h, nofun⟩
  | succ count ih =>
    intro r h
    rw [subscripts_succ]
    refine .bind (peekKind_underway h) fun kind r₁ ⟨h₁, _⟩ => ?_
    split
    · exact afterSubscript_grows h₁ ih fun left_out => absurd rfl left_out
    · exact .bind (he r₁ h₁) fun e r₂ ⟨h₂, fresh⟩ => afterSubscript_grows h₂ ih fun _ => fresh

theorem indices_grows (he : Grows base expr (Fresh base.Knows)) (count : Nat)
    (fresh : Fresh base.Knows e) : Grows base (indices expr count e) (Fresh base.Knows) := by
  induction count generalizing e with
  | zero =>
    intro r h
    exact .pure ⟨h, fresh⟩
  | succ count ih =>
    intro r h
    refine .bind (peekKind_underway h) fun kind r₁ ⟨h₁, t, hp, hk⟩ => ?_
    split
    next bracket =>
      have inner : t.kind.isLineEnd = false := by rw [hk, bracket]; rfl
      refine .bind (discard_underway h₁.toAware hp inner) fun _ r₂ ⟨h₂, _⟩ => ?_
      refine .bind (remaining_grows r₂ h₂) fun n r₃ ⟨h₃, _⟩ => ?_
      refine .bind (subscripts_grows he n r₃ h₃) fun es r₄ ⟨h₄, subscripts⟩ => ?_
      exact ih (.index fresh subscripts) r₄ h₄
    next => exact .pure ⟨h₁, fresh⟩

theorem primary_grows {expr : Nat → Reading Expr}
    (he : ∀ toll, Grows base (expr toll) (Fresh base.Knows)) (h : AtOperand base r) :
    Outcome (primary expr) r (fun e r' => Underway base r' ∧ Fresh base.Knows e) Halted := by
  have some_left : Outcome remaining r (fun n r' => n ≠ 0 ∧ AtOperand base r') Halted :=
    .get (.pure ⟨Nat.succ_ne_zero _, h⟩)
  refine .bind some_left fun n r₁ ⟨more, h₁⟩ => ?_
  refine .bind (items_grows (he 2) h₁ fun none => absurd none more) fun es r₂ ⟨h₂, fresh⟩ => ?_
  split
  · exact .bind (peek_underway h₂) fun t r₃ ⟨h₃, _⟩ => reject_halted h₃.halted
  · refine .bind (remaining_grows r₂ h₂) fun n r₃ ⟨h₃, _⟩ => ?_
    exact indices_grows (he 3) n (fresh _ List.mem_cons_self) r₃ h₃
  · refine .bind (remaining_grows r₂ h₂) fun n r₃ ⟨h₃, _⟩ => ?_
    exact indices_grows (he 3) n (.strand fresh) r₃ h₃

/-! ## § Expressions -/

theorem unary_fresh {w : Workspace} (h : Aware base r) (hp : r.source.peeked = some t)
    (operator : t.kind = .operator) (same : w = r.workspace) (hu : isUnary w t.text = true)
    (fresh : Fresh base.Knows e) : Fresh base.Knows (.unary t.text e) := by
  subst same
  have derivable := h.derivable t hp operator
  refine .unary (fun s hs => ?_) ?_ derivable.folded fresh
  · rw [← h.same_base.knows]
    exact (Workspace.applicable_unary derivable hu s hs).knows
  · rw [isUnary, Bool.or_eq_true] at hu
    refine hu.imp_right fun defined => ?_
    rw [← h.same_base.knows]
    exact (Workspace.definedUnary_iff.1 defined).2

theorem binary_fresh {w : Workspace} {left right : Expr} (h : Aware base r)
    (hp : r.source.peeked = some t) (operator : t.kind = .operator) (same : w = r.workspace)
    (hb : isBinary w t.text = true) (hl : Fresh base.Knows left) (hr : Fresh base.Knows right) :
    Fresh base.Knows (.binary t.text left right) := by
  subst same
  have derivable := h.derivable t hp operator
  refine .binary (fun s hs => ?_) hl hr
  rw [← h.same_base.knows]
  exact (Workspace.applicable_binary derivable hb s hs).knows

/-- An expression may start on a new line, with an operator that has been looked at. -/
theorem operand_aware {expr : Nat → Reading Expr}
    (he : ∀ toll, Grows base (expr toll) (Fresh base.Knows)) (h : Aware base r) :
    Outcome (operand expr) r (fun e r' => Underway base r' ∧ Fresh base.Knows e) Halted := by
  refine .bind (peek_aware h) fun t r₁ ⟨⟨aware, _⟩, hp⟩ => ?_
  split
  next operator =>
    have inner : t.kind.isLineEnd = false := by rw [operator]; rfl
    refine .bind (discard_underway aware hp inner) fun _ r₂ ⟨h₂, same, taken⟩ => .get ?_
    split
    next hu =>
      refine .bind (he 1 r₂ h₂) fun e r₃ ⟨h₃, fresh⟩ => .pure ⟨h₃, ?_⟩
      exact unary_fresh aware hp operator same hu fresh
    next => exact reject_taken taken
  next other => exact primary_grows he ⟨aware, .inr ⟨t, hp, other⟩⟩

/-- To declare a name takes nothing away from what is known. -/
theorem assignmentTarget_grows (h : Underway base r) (taken : r.source.peeked = none)
    (fresh : Fresh base.Knows e) (assignable : e.isAssignable = true) :
    Outcome (assignmentTarget e) r
      (fun target r' => Underway base r' ∧ Fresh base.Knows target ∧ target.isAssignable = true)
      Halted := by
  unfold assignmentTarget
  refine .get ?_
  split
  next seen name hf =>
    split
    · exact .pure ⟨h, fresh, assignable⟩
    · have same : base.SameBase (r.workspace.declare name) := by
        rw [r.workspace.declare_eq name]
        exact h.same_base.declaring _
      have inside : r.source.atLineEnd = false := by
        rcases h.begun with inside | ⟨u, hu, -⟩
        · exact inside
        · exact nomatch taken.symm.trans hu
      refine .set (.pure ⟨⟨.of_taken same taken, .inl inside⟩, ?_⟩)
      split
      · exact ⟨.slotVar _ _, rfl⟩
      · exact ⟨fresh, assignable⟩
  next => exact .pure ⟨h, fresh, assignable⟩

/-- The first token of a line does not stay behind when tokens are taken from it. -/
theorem takeTokens_ready {r : Reader} (count : Nat)
    (some_taken : r.source.atLineEnd = true → count ≠ 0) :
    Outcome (takeTokens count) r
      (fun _ r' => r'.source.atLineEnd = true → r'.source.Ready) Halted := by
  induction count generalizing r with
  | zero => exact .pure fun ended => absurd rfl (some_taken ended)
  | succ count ih =>
    have looked : Outcome peekKind r
        (fun kind r' => ∃ t, r'.source.peeked = some t ∧ t.kind = kind) Halted :=
      .bind (outcome_onSource (fun t s hp => Source.peeked_of_peek hp) fun _ _ _ => trivial)
        fun t _ (k : _ = some t) => .pure ⟨t, k, rfl⟩
    refine .bind looked fun kind r₁ ⟨t, hp, hk⟩ => ?_
    split
    next ended =>
      refine .pure fun _ u hu => ?_
      obtain rfl := Option.some.inj (hp.symm.trans hu)
      rw [← hk] at ended
      constructor
      · intro operator
        rw [operator] at ended
        exact absurd ended (by decide)
      · intro name
        rw [name] at ended
        exact absurd ended (by decide)
    next inner =>
      have taken : Outcome take r₁ (fun _ r' => r'.source.atLineEnd = false) Halted := by
        refine outcome_onSource (fun u s hu => ?_) fun _ _ _ => trivial
        have same : t = u := by
          rw [Source.take_of_peeked hp] at hu
          exact Except.ok.inj (congrArg Prod.fst hu)
        rw [← hk, same] at inner
        exact (Source.take_atLineEnd hu).trans (Bool.eq_false_iff.2 inner)
      have discarded : Outcome discard r₁ (fun _ r' => r'.source.atLineEnd = false) Halted :=
        .bind taken fun _ _ k => .pure k
      refine .bind discarded fun _ r₂ inside => ih fun ended => ?_
      exact nomatch ended.symm.trans inside

theorem afterStatement_aware {others : Reading (List Expr)} {e : Expr} (h : Underway base r)
    (ho : ∀ r, Aware base r → Outcome others r
      (fun es r' => Aware base r' ∧ ∀ e ∈ es, FreshStatement base.Knows e) Halted)
    (stated : FreshStatement base.Knows e) :
    Outcome (afterStatement others e) r
      (fun es r' => Aware base r' ∧ ∀ e ∈ es, FreshStatement base.Knows e) Halted := by
  have single : ∀ e' ∈ [e], FreshStatement base.Knows e' := by simpa using stated
  refine .bind (peekKind_underway h) fun kind r₁ ⟨h₁, t, hp, hk⟩ => ?_
  split
  · exact .pure ⟨h₁.toAware, single⟩
  next semicolon =>
    have inner : t.kind.isLineEnd = false := by rw [hk, Decidable.not_not.1 semicolon]; rfl
    refine .bind (discard_underway h₁.toAware hp inner) fun _ r₂ ⟨h₂, _⟩ => ?_
    refine .bind (peekKind_underway h₂) fun kind r₃ ⟨h₃, _⟩ => ?_
    split
    · exact .pure ⟨h₃.toAware, single⟩
    · refine .bind (ho r₃ h₃.toAware) fun es r₄ ⟨h₄, others⟩ => .pure ⟨h₄, ?_⟩
      exact List.forall_mem_cons.2 ⟨stated, others⟩

/-! ## § Heads of definitions -/

/-- A reader of the head of a definition: no operator is left that has been looked at, and the line
goes on. -/
def InHead (r : Reader) : Prop := r.source.Ready ∧ r.source.atLineEnd = false

theorem InHead.halted (h : InHead r) : r.source.atLineEnd = true → r.source.Ready := fun _ => h.1

theorem headerWords_ready (count : Nat) (h : InHead r) :
    Outcome (headerWords count) r (fun _ r' => InHead r') Halted := by
  induction count generalizing r with
  | zero => exact .pure h
  | succ count ih =>
    have looked : Outcome peekKind r
        (fun kind r' => r'.source.atLineEnd = false ∧
          ∃ t, r'.source.peeked = some t ∧ t.kind = kind) Halted := by
      refine .bind (outcome_onSource (fun t s hp => ?_) fun _ _ _ => trivial)
        fun t r' (k : r'.source.atLineEnd = false ∧ r'.source.peeked = some t) =>
          .pure ⟨k.1, t, k.2, rfl⟩
      exact ⟨(Source.peek_atLineEnd hp).trans h.2, Source.peeked_of_peek hp⟩
    refine .bind looked fun kind r₁ ⟨inside, t, hp, hk⟩ => ?_
    split
    next sign =>
      refine .pure ⟨fun u hu => ?_, inside⟩
      obtain rfl := Option.some.inj (hp.symm.trans hu)
      rw [hk, sign]
      decide
    next =>
      have taken : Outcome take r₁
          (fun t r' => r'.source.peeked = none ∧ r'.source.atLineEnd = t.kind.isLineEnd) Halted :=
        outcome_onSource (fun t s ht => ⟨Source.peeked_of_take ht, Source.take_atLineEnd ht⟩)
          fun _ _ _ => trivial
      refine .bind taken fun t r₂ ⟨taken, ended⟩ => ?_
      split
      next word =>
        have inside : r₂.source.atLineEnd = false := by
          rw [ended]
          rcases word.1 with hk | hk <;> rw [hk] <;> rfl
        exact .bind (ih ⟨Source.ready_of_peeked taken, inside⟩) fun _ _ k => .pure k
      next => exact reject_taken taken

theorem checked_ready (first : Token) (head : Header) (h : InHead r) :
    Outcome (checked first head) r (fun _ r' => InHead r') Halted := by
  unfold checked
  split
  · exact reject_halted h.halted
  · exact .pure h

theorem headerOf_ready (words : List Token) (h : InHead r) :
    Outcome (headerOf words) r (fun _ r' => InHead r') Halted := by
  unfold headerOf
  split
  · exact checked_ready _ _ h
  · exact checked_ready _ _ h
  · have looked : Outcome peek r (fun _ r' => r'.source.atLineEnd = false) Halted :=
      outcome_onSource (fun t s hp => (Source.peek_atLineEnd hp).trans h.2) fun _ _ _ => trivial
    refine .bind looked fun t r₁ inside => reject_halted fun ended => ?_
    rw [inside] at ended
    cases ended

theorem header_ready (h : InHead r) : Outcome header r (fun _ r' => InHead r') Halted := by
  rw [header_eq]
  exact .get (.bind (headerWords_ready _ h) fun words r₁ h₁ => headerOf_ready words h₁)

/-- Whatever was looked at before a token has to be there, it is taken. -/
theorem expect_halted (kind : TokenKind) (what : String) :
    Outcome (expect kind what) r
      (fun _ r' => r'.workspace = r.workspace ∧ r'.source.peeked = none) Halted := by
  have taken : Outcome take r
      (fun _ r' => r'.workspace = r.workspace ∧ r'.source.peeked = none) Halted :=
    outcome_onSource (fun _ _ ht => ⟨rfl, Source.peeked_of_take ht⟩) fun _ _ _ => trivial
  refine .bind taken fun t r₁ ⟨same, taken⟩ => ?_
  split
  · exact reject_taken taken
  · exact .pure ⟨same, taken⟩

/-! ## § Levels -/

variable [Machine]

theorem giveUp_halted {Q : Expr → Reader → Prop} {r : Reader} (missing : Nat) :
    Outcome (giveUp missing) r Q Halted := by
  refine .get (.bind (takeTokens_ready _ fun ended => ?_) fun _ r₁ ready => .throw ready)
  rw [if_pos ended]
  omega

theorem expression_aware {depth : Nat}
    (he : ∀ toll, Grows base (expression depth toll) (Fresh base.Knows)) (h : Aware base r) :
    Outcome (expression (depth + 1) 0) r (fun e r' => Underway base r' ∧ Fresh base.Knows e)
      Halted := by
  refine .bind (operand_aware he h) fun left r₁ ⟨h₁, hl⟩ => ?_
  refine .bind (peek_underway h₁) fun t r₂ ⟨h₂, hp⟩ => ?_
  split
  next sign =>
    have inner : t.kind.isLineEnd = false := by rw [sign]; rfl
    refine .bind (discard_underway h₂.toAware hp inner) fun _ r₃ ⟨h₃, _, taken⟩ => ?_
    split
    next assignable =>
      refine .bind (assignmentTarget_grows h₃ taken hl assignable)
        fun target r₄ ⟨h₄, target_fresh, assignable⟩ => ?_
      refine .bind (he 0 r₄ h₄) fun value r₅ ⟨h₅, fresh⟩ => .pure ⟨h₅, ?_⟩
      exact .assign assignable target_fresh fresh
    next => exact reject_taken taken
  next =>
    split
    next operator =>
      have inner : t.kind.isLineEnd = false := by rw [operator]; rfl
      refine .bind (discard_underway h₂.toAware hp inner) fun _ r₃ ⟨h₃, same, taken⟩ => .get ?_
      split
      next hb =>
        refine .bind (he 0 r₃ h₃) fun right r₄ ⟨h₄, hr⟩ => .pure ⟨h₄, ?_⟩
        exact binary_fresh h₂.toAware hp operator same hb hl hr
      next => exact reject_taken taken
    next =>
      split
      · exact .pure ⟨h₂, hl⟩
      · exact reject_halted h₂.halted

theorem expression_grows (depth toll : Nat) (h : Aware base r) :
    Outcome (expression depth toll) r (fun e r' => Underway base r' ∧ Fresh base.Knows e)
      Halted := by
  induction depth generalizing r toll with
  | zero => exact giveUp_halted toll
  | succ depth ih =>
    cases toll with
    | succ toll => exact ih toll h
    | zero => exact expression_aware (fun toll r h => ih toll h.toAware) h

theorem outermost_grows (h : Aware base r) :
    Outcome outermost r (fun e r' => Underway base r' ∧ Fresh base.Knows e) Halted :=
  .get (expression_grows _ _ h)

/-! ## § Statements -/

theorem statement_aware (h : Aware base r) :
    Outcome statement r (fun e r' => Underway base r' ∧ FreshStatement base.Knows e) Halted := by
  refine .bind (outermost_grows h) fun e r₁ ⟨h₁, fresh⟩ => ?_
  refine .bind (peekKind_underway h₁) fun kind r₂ ⟨h₂, t, hp, hk⟩ => ?_
  split
  next colon =>
    have inner : t.kind.isLineEnd = false := by rw [hk, colon]; rfl
    refine .bind (discard_underway h₂.toAware hp inner) fun _ r₃ ⟨h₃, _⟩ => ?_
    refine .bind (outermost_grows h₃.toAware) fun result r₄ ⟨h₄, result_fresh⟩ => ?_
    exact .pure ⟨h₄, .conditional fresh result_fresh⟩
  next => exact .pure ⟨h₂, .plain fresh⟩

theorem statementsUpTo_aware (count : Nat) (h : Aware base r) :
    Outcome (statementsUpTo count) r
      (fun es r' => Aware base r' ∧ ∀ e ∈ es, FreshStatement base.Knows e) Halted := by
  induction count generalizing r with
  | zero => exact .pure ⟨h, nofun⟩
  | succ count ih =>
    rw [statementsUpTo_succ]
    refine .bind (peekKind_aware h) fun kind r₁ ⟨⟨aware, _⟩, t, hp, hk⟩ => ?_
    split
    next semicolon =>
      have other : t.kind ≠ .operator ∧ t.kind ≠ .identifier := by rw [hk, semicolon]; decide
      exact afterStatement_aware ⟨aware, .inr ⟨t, hp, other⟩⟩ (fun _ => ih) .empty
    next =>
      exact .bind (statement_aware aware) fun e r₂ ⟨h₂, stated⟩ =>
        afterStatement_aware h₂ (fun _ => ih) stated

theorem statements_aware (h : Aware base r) :
    Outcome statements r (fun es r' => Aware base r' ∧ ∀ e ∈ es, FreshStatement base.Knows e) Halted :=
  .get (statementsUpTo_aware _ h)

/-! ## § Definitions -/

theorem bodyLines_aware (count : Nat) (h : Aware base r) (taken : r.source.peeked = none) :
    Outcome (bodyLines count) r
      (fun es r' => (Aware base r' ∧ r'.source.peeked = none) ∧ ∀ e ∈ es, FreshStatement base.Knows e)
      Halted := by
  induction count generalizing r with
  | zero => exact .pure ⟨⟨h, taken⟩, nofun⟩
  | succ count ih =>
    refine .bind (peekKind_aware h) fun kind r₁ ⟨⟨h₁, _⟩, t, hp, _⟩ => ?_
    split
    · refine .bind (discard_aware h₁ hp) fun _ r₂ ⟨h₂, _, taken, _⟩ => ?_
      exact .pure ⟨⟨h₂, taken⟩, nofun⟩
    · refine .bind (statements_aware h₁) fun first r₂ ⟨h₂, stated⟩ => ?_
      refine .bind (endOfLine_aware h₂) fun t r₃ ⟨h₃, taken⟩ => ?_
      split
      · exact .pure ⟨⟨h₃, taken⟩, stated⟩
      · refine .bind (ih h₃ taken) fun others r₄ ⟨h₄, others_stated⟩ => .pure ⟨h₄, ?_⟩
        intro e he
        rcases List.mem_append.1 he with he | he
        · exact stated e he
        · exact others_stated e he

theorem body_aware (h : Aware base r) :
    Outcome body r
      (fun es r' => (Aware base r' ∧ r'.source.peeked = none) ∧ ∀ e ∈ es, FreshStatement base.Knows e)
      Halted := by
  refine .bind (peekKind_aware h) fun kind r₁ ⟨⟨h₁, _⟩, t, hp, _⟩ => ?_
  split
  · refine .bind (discard_aware h₁ hp) fun _ r₂ ⟨h₂, _, taken, _⟩ => .get ?_
    refine .bind (bodyLines_aware _ h₂ taken) fun es r₃ k => ?_
    split
    · exact .get (.throw fun _ => Source.ready_of_peeked k.1.2)
    · exact .pure k
  · refine .bind (statements_aware h₁) fun es r₂ ⟨h₂, stated⟩ => ?_
    exact .bind (endOfLine_aware h₂) fun t r₃ h₃ => .pure ⟨h₃, stated⟩

/-- A definition from the placeholder on. -/
theorem definitionBody_aware (h : Header) (same : base.SameBase r.workspace) (head : InHead r) :
    Outcome (definitionBody h) r
      (fun f r' => r'.source.peeked = none ∧ (f.name = h.name ∧ f.arity = h.arity) ∧
        ∀ e ∈ f.body, FreshStatement base.Knows e)
      Halted := by
  have declaring (names : List String) (w : Workspace) (hw : base.SameBase w) :
      base.SameBase (names.foldl Workspace.declare w) := by
    induction names generalizing w with
    | nil => exact hw
    | cons name names ih =>
      refine ih (w.declare name) ?_
      rw [w.declare_eq]
      exact hw.declaring _
  refine .bind (P := fun _ r₁ => base.SameBase r₁.workspace)
    (outcome_update (fun w hw => ?_) fun _ => head.halted) fun _ r₁ same₁ => ?_
  · obtain rfl := Except.ok.inj hw
    exact declaring _ _ same
  refine .bind (expect_halted .assign "=") fun _ r₂ ⟨same₂, taken₂⟩ => ?_
  have aware : Aware base r₂ := .of_taken (same₂ ▸ same₁) taken₂
  refine .bind (body_aware aware) fun es r₃ ⟨⟨_, taken₃⟩, stated⟩ => .get ?_
  refine .bind (outcome_update (Q := fun _ r' => r'.source.peeked = none) (fun _ _ => taken₃)
    fun _ _ => Source.ready_of_peeked taken₃) fun _ r₄ taken₄ => ?_
  exact .pure ⟨taken₄, ⟨rfl, rfl⟩, stated⟩

/-- The operators that the body of a definition can apply: the one that is defined, and those that
were known before. -/
def knownWithin (w : Workspace) (f : UserOperator) (s : Signature) : Bool :=
  s == ⟨f.name, f.arity⟩ || w.Knows s

theorem definition_grows (inside : r.source.atLineEnd = false) (taken : r.source.peeked = none) :
    Outcome definition r
      (fun f r' => r'.source.peeked = none ∧
        ∀ e ∈ f.body, FreshStatement (knownWithin r.workspace f) e)
      Halted := by
  have head : InHead r := ⟨Source.ready_of_peeked taken, inside⟩
  have quiet := header_quiet r rfl fun t ht => nomatch taken.symm.trans ht
  refine .bind ((header_ready head).and quiet (fun h r₁ k => ?_) fun _ _ k _ => k)
    fun h r₁ (k : InHead r₁ ∧ r₁.workspace = r.workspace) => .get ?_
  · exact fun l => ⟨k, l.1.1⟩
  obtain ⟨head₁, same₁⟩ := k
  refine .bind (P := fun _ r₂ => InHead r₂ ∧
      r.workspace.beginDefinition h.name h.left h.right = .ok r₂.workspace)
    (outcome_update (fun w hw => ⟨head₁, same₁ ▸ hw⟩) fun _ => head₁.halted)
    fun _ r₂ ⟨head₂, begun⟩ => .modify ?_
  have body := definitionBody_aware h (.refl r₂.workspace) (r := { r₂ with free := some [] }) head₂
  refine outcome_closing (body.mono (fun f r₃ ⟨taken₃, ⟨hname, harity⟩, fresh⟩ => ?_)
    fun o r₃ halted => ?_)
  · have known : knownWithin r.workspace f = r₂.workspace.Knows := by
      funext s
      rw [Bool.eq_iff_iff, Workspace.beginDefinition_knows begun, knownWithin, Bool.or_eq_true,
        beq_iff_eq, hname, harity]
      rfl
    exact ⟨taken₃, known ▸ fresh⟩
  · cases o <;> exact halted

end Reading

namespace Line

open Reading (knownWithin)
open ArrayCalc.Expr (FreshStatement)

/-- Why a line is not read. -/
inductive Unread : Failure → Prop
  | lex (e : LexError) : Unread (.error (.lex e))
  | parse (e : ParseError) : Unread (.error (.parse e))
  /-- A number that is too large. -/
  | overflow : Unread (.fault .overflow)

/-- What is known of the trees of a line that has just been read. -/
def Fresh (w : Workspace) : Line → Prop
  | .statements es => ∀ e ∈ es, FreshStatement w.Knows e
  | .definition f => ∀ e ∈ f.body, FreshStatement (knownWithin w f) e
  | _ => True

variable [Machine]

theorem reading_grows (ready : r.source.Ready) :
    Outcome reading r (fun line r' => r'.source.peeked = none ∧ line.Fresh r.workspace)
      Halted := by
  have aware : Aware r.workspace r :=
    ⟨.refl _, fun t ht operator => absurd operator (ready t ht).1,
      fun t ht name => absurd name (ready t ht).2⟩
  refine .bind (Reading.peekKind_aware aware) fun kind r₁ ⟨⟨h₁, same₁, _⟩, t, hp, hk⟩ => ?_
  have discarded := Reading.discard_aware h₁ hp
  split
  · exact .bind discarded fun _ r₂ ⟨_, _, taken, _⟩ => .pure ⟨taken, trivial⟩
  · exact .bind discarded fun _ r₂ ⟨_, _, taken, _⟩ => .pure ⟨taken, trivial⟩
  · exact .bind discarded fun _ r₂ _ => .get (.set (.pure ⟨rfl, trivial⟩))
  · refine .bind discarded fun _ r₂ ⟨_, same₂, taken, ended⟩ => ?_
    have inside₂ : r₂.source.atLineEnd = false := by rw [ended, hk]; rfl
    refine .bind (Reading.definition_grows inside₂ taken) fun f r₃ ⟨taken, stated⟩ => .pure ?_
    rw [same₂, same₁] at stated
    exact ⟨taken, stated⟩
  · refine .bind (Reading.statements_aware h₁) fun es r₂ ⟨h₂, stated⟩ => ?_
    exact .bind (Reading.endOfLine_aware h₂) fun t r₃ ⟨_, taken⟩ => .pure ⟨taken, stated⟩

/-- **Every line leaves a source that is ready for the next one**, and what has been read applies
operators only that are known and names session variables only that are none. -/
theorem read_grows {s s' : Source} {w w' : Workspace} {line : Result Line} (ready : s.Ready)
    (h : read s w = (line, s', w')) :
    s'.Ready ∧ (∀ l, line = .ok l → l.Fresh w) ∧
      ∀ failure, line = .error failure → Unread failure := by
  have outcome := reading_grows (r := ⟨{ s with atLineEnd := false }, w, none⟩) ready
  cases attempt h with
  | whole hr =>
    obtain ⟨taken, fresh⟩ := outcome.of_ok hr
    refine ⟨Source.ready_of_peeked taken, ?_, nofun⟩
    rintro _ ⟨⟩
    exact fresh
  | @halted o r' hr =>
    have halted := outcome.of_error hr
    cases o with
    | lex e =>
      refine ⟨Source.ready_of_peeked rfl, nofun, ?_⟩
      rintro _ ⟨⟩
      exact .lex e
    | parse e =>
      refine ⟨Source.skipLine_ready halted, nofun, ?_⟩
      rintro _ ⟨⟩
      exact .parse e
    | tooDeep count =>
      refine ⟨Source.skipTorn_ready halted, nofun, ?_⟩
      rintro _ ⟨⟩
      exact .parse _
    | fault f =>
      obtain ⟨rfl, ready⟩ := halted
      refine ⟨ready, nofun, ?_⟩
      rintro _ ⟨⟩
      exact .overflow

end Line

end ArrayCalc
