import ArrayCalc.Line.Statement

/-!
# The grammar of a line

Which tokens make up which tree is told here by rules, with no word of how a line is read.  Every
rule says what stands where, so the tokens of a phrase are the tokens of its parts in a row.

How deep expressions nest is part of the rules: an expression takes a level, and within another one
it takes a toll besides, which is 1 behind a unary operator, 2 in parentheses and 3 in brackets.
`Expression w depth toll` has the expressions that make do with `depth` levels at some toll, and a
phrase is in the grammar if it is in it for some depth.  As in the reader, the rules for the parts of
an expression are given the phrases that may stand within, so that only `Expression` is recursive in
the depth.

A line has one reading at most.  That is shown rule by rule: if two phrases of one kind start the
same line, and a token that cannot go on the phrase stands behind each of them, they are the same
(`Sharp`).
-/

namespace ArrayCalc

namespace Grammar

/-- Which tokens make up which tree. -/
abbrev Phrase := List Token → Expr → Prop

/-- A quoted text of one character is that character. -/
def quotation : List CodePoint → Expr
  | [c] => .constant (.char c)
  | text => .string text

/-- A declared name is a slot, and any other is a variable of the session. -/
def named (w : Workspace) (name : String) : Expr :=
  match w.slotOf? name with
  | some slot => .slotVar name slot
  | none => .sessionVar name

/-- The tree of a token that is an operand by itself. -/
def leaf? (w : Workspace) (t : Token) : Option Expr :=
  match t.kind with
  | .number | .rational | .complex =>
    (Numeral.read t.text w.settings.inputBase).toOption.map .constant
  | .string => (Text.Quoted.decode t.text.toList).toOption.map quotation
  | .identifier => some (named w t.text)
  | _ => none

theorem leaf?_numeral {w : Workspace} {t : Token} (h : t.kind.isNumeral = true) :
    leaf? w t = (Numeral.read t.text w.settings.inputBase).toOption.map .constant := by
  unfold TokenKind.isNumeral at h
  split at h <;> simp_all [leaf?]

theorem leaf?_string {w : Workspace} {t : Token} (h : t.kind = .string) :
    leaf? w t = (Text.Quoted.decode t.text.toList).toOption.map quotation := by
  simp [leaf?, h]

/-- The leaf of a number that can be read. -/
theorem leaf?_of_read {w : Workspace} {kind : TokenKind} {text : String} {s : Scalar}
    (numeral : kind.isNumeral = true) (h : Numeral.read text w.settings.inputBase = .ok s)
    (line : Nat) : leaf? w ⟨kind, text, line⟩ = some (.constant s) := by
  rw [leaf?_numeral numeral]
  dsimp only
  rw [h]
  rfl

theorem leaf?_of_decode {w : Workspace} {text : String} {chars : List CodePoint}
    (h : Text.Quoted.decode text.toList = .ok chars) (line : Nat) :
    leaf? w ⟨.string, text, line⟩ = some (quotation chars) := by
  rw [leaf?_string rfl]
  dsimp only
  rw [h]
  rfl

/-- Operands side by side make a vector, and one operand stays itself. -/
def joined : List Expr → Expr
  | [e] => e
  | es => .strand es

section Rules

variable (w : Workspace) (inner : Phrase)

/-- What may be left out. -/
inductive Optional (phrase : Phrase) : Phrase
  | present {ts : List Token} {e : Expr} (h : phrase ts e) : Optional phrase ts e
  | absent : Optional phrase [] .empty

inductive Element : Phrase
  | leaf {t : Token} {e : Expr} (h : leaf? w t = some e) : Element [t] e
  | parens {a b : Token} {ts : List Token} {e : Expr} (opens : a.kind = .leftParen)
      (within : inner ts e) (closes : b.kind = .rightParen) : Element (a :: (ts ++ [b])) e

/-- One element or more. -/
inductive Strand : List Token → List Expr → Prop
  | one {ts : List Token} {e : Expr} (h : Element w inner ts e) : Strand ts [e]
  | cons {ts us : List Token} {e : Expr} {es : List Expr} (h : Element w inner ts e)
      (rest : Strand us es) : Strand (ts ++ us) (e :: es)

/-- Subscripts with semicolons between them. -/
inductive Subscripts : List Token → List Expr → Prop
  | one {ts : List Token} {e : Expr} (h : Optional inner ts e) : Subscripts ts [e]
  | cons {t : Token} {ts us : List Token} {e : Expr} {es : List Expr} (h : Optional inner ts e)
      (kind : t.kind = .semicolon) (rest : Subscripts us es) : Subscripts (ts ++ t :: us) (e :: es)

/-- The brackets behind a tree, and the tree with them. -/
inductive Brackets : Expr → Phrase
  | none {base : Expr} : Brackets base [] base
  | cons {a b : Token} {ts us : List Token} {base e : Expr} {es : List Expr}
      (opens : a.kind = .leftBracket) (within : Subscripts inner ts es)
      (closes : b.kind = .rightBracket) (rest : Brackets (.index base es) us e) :
      Brackets base (a :: (ts ++ b :: us)) e

/-- Brackets belong to the whole strand before them. -/
inductive Primary (inside : Nat → Phrase) : Phrase
  | mk {ts us : List Token} {es : List Expr} {e : Expr} (strand : Strand w (inside 2) ts es)
      (brackets : Brackets (inside 3) (joined es) us e) : Primary inside (ts ++ us) e

inductive ExpressionOver (inside : Nat → Phrase) : Phrase
  | unary {t : Token} {ts : List Token} {e : Expr} (kind : t.kind = .operator)
      (word : OperatorWord.isFold t.text = true ∨ w.definedUnary t.text = true)
      (right : inside 1 ts e) : ExpressionOver inside (t :: ts) (.unary t.text e)
  | primary {ts : List Token} {e : Expr} (h : Primary w inside ts e) : ExpressionOver inside ts e
  | assign {t : Token} {ts us : List Token} {target value : Expr}
      (left : Primary w inside ts target) (assignable : target.isAssignable = true)
      (kind : t.kind = .assign) (right : inside 0 us value) :
      ExpressionOver inside (ts ++ t :: us) (.assign target value)
  | binary {t : Token} {ts us : List Token} {e f : Expr} (left : Primary w inside ts e)
      (kind : t.kind = .operator)
      (word : OperatorWord.isProduct t.text = true ∨ w.definedBinary t.text = true)
      (right : inside 0 us f) : ExpressionOver inside (ts ++ t :: us) (.binary t.text e f)

/-- Expressions that make do with `depth` levels at some toll. -/
def Expression : (depth toll : Nat) → Phrase
  | 0, _ => fun _ _ => False
  | depth + 1, toll + 1 => Expression depth toll
  | depth + 1, 0 => ExpressionOver w (Expression depth)

inductive Statement : Phrase
  | plain {ts : List Token} {e : Expr} (h : inner ts e) : Statement ts e
  | conditional {t : Token} {ts us : List Token} {e f : Expr} (condition : inner ts e)
      (kind : t.kind = .colon) (result : inner us f) :
      Statement (ts ++ t :: us) (.conditional e f)

/-- The statements of a line.  A statement may be left out before a semicolon only, and the last
semicolon may end the line. -/
inductive StatementsOver : List Token → List Expr → Prop
  | last {ts : List Token} {e : Expr} (h : Statement inner ts e) : StatementsOver ts [e]
  | closed {t : Token} {ts : List Token} {e : Expr} (h : Optional (Statement inner) ts e)
      (kind : t.kind = .semicolon) : StatementsOver (ts ++ [t]) [e]
  | cons {t : Token} {ts us : List Token} {e : Expr} {es : List Expr}
      (h : Optional (Statement inner) ts e) (kind : t.kind = .semicolon)
      (rest : StatementsOver us es) : StatementsOver (ts ++ t :: us) (e :: es)

/-- The statements of a line in which expressions make do with `depth` levels. -/
def Statements (depth : Nat) : List Token → List Expr → Prop :=
  StatementsOver (Expression w depth 0)

end Rules

variable {w : Workspace} {inner outer : Phrase} {inside outside : Nat → Phrase}
  {ts us : List Token} {e f : Expr} {es fs : List Expr} {depth toll : Nat}

/-! ## § Deeper phrases -/

section Mono

variable (within : ∀ {ts e}, inner ts e → outer ts e)

include within

theorem Optional.mono (h : Optional inner ts e) : Optional outer ts e := by
  cases h with
  | present h => exact .present (within h)
  | absent => exact .absent

theorem Element.mono (h : Element w inner ts e) : Element w outer ts e := by
  cases h with
  | leaf h => exact .leaf h
  | parens opens h closes => exact .parens opens (within h) closes

theorem Strand.mono (h : Strand w inner ts es) : Strand w outer ts es := by
  induction h with
  | one h => exact .one (h.mono within)
  | cons h _ ih => exact .cons (h.mono within) ih

theorem Subscripts.mono (h : Subscripts inner ts es) : Subscripts outer ts es := by
  induction h with
  | one h => exact .one (h.mono within)
  | cons h kind _ ih => exact .cons (h.mono within) kind ih

theorem Brackets.mono (h : Brackets inner e ts f) : Brackets outer e ts f := by
  induction h with
  | none => exact .none
  | cons opens h closes _ ih => exact .cons opens (h.mono within) closes ih

theorem Statement.mono (h : Statement inner ts e) : Statement outer ts e := by
  cases h with
  | plain h => exact .plain (within h)
  | conditional condition kind result => exact .conditional (within condition) kind (within result)

theorem StatementsOver.mono (h : StatementsOver inner ts es) : StatementsOver outer ts es := by
  have statement {ts : List Token} {e : Expr} (h : Optional (Statement inner) ts e) :
      Optional (Statement outer) ts e := h.mono fun h => h.mono within
  induction h with
  | last h => exact .last (h.mono within)
  | closed h kind => exact .closed (statement h) kind
  | cons h kind _ ih => exact .cons (statement h) kind ih

end Mono

section Mono

variable (within : ∀ {toll ts e}, inside toll ts e → outside toll ts e)

include within

theorem Primary.mono (h : Primary w inside ts e) : Primary w outside ts e := by
  obtain ⟨strand, brackets⟩ := h
  exact .mk (strand.mono within) (brackets.mono within)

theorem ExpressionOver.mono (h : ExpressionOver w inside ts e) : ExpressionOver w outside ts e := by
  cases h with
  | unary kind word right => exact .unary kind word (within right)
  | primary h => exact .primary (h.mono within)
  | assign left assignable kind right =>
    exact .assign (left.mono within) assignable kind (within right)
  | binary left kind word right => exact .binary (left.mono within) kind word (within right)

end Mono

theorem Expression.succ (h : Expression w depth toll ts e) :
    Expression w (depth + 1) toll ts e := by
  induction depth generalizing toll ts e with
  | zero => exact h.elim
  | succ depth ih =>
    cases toll with
    | zero => exact ExpressionOver.mono ih h
    | succ toll => exact ih h

theorem Expression.mono {deeper : Nat} (le : depth ≤ deeper) (h : Expression w depth toll ts e) :
    Expression w deeper toll ts e := by
  induction le with
  | refl => exact h
  | step _ ih => exact ih.succ

/-- A level of the toll is a level of the expression. -/
theorem expression_add (w : Workspace) (depth toll : Nat) :
    Expression w (depth + toll) toll = Expression w depth 0 := by
  induction toll with
  | zero => rfl
  | succ toll ih => exact ih

theorem Statements.mono {deeper : Nat} (le : depth ≤ deeper) (h : Statements w depth ts es) :
    Statements w deeper ts es :=
  StatementsOver.mono (Expression.mono le) h

/-! ## § How phrases start -/

/-- The kinds of tokens that an element starts with. -/
def startsElement : TokenKind → Bool
  | .number | .rational | .complex | .string | .identifier | .leftParen => true
  | _ => false

/-- The kinds of tokens that an expression starts with. -/
def startsExpression (kind : TokenKind) : Bool := startsElement kind || kind = .operator

/-- What ends an expression does not go on a primary. -/
theorem ends_primary {kind : TokenKind} (h : kind.endsExpression = true) :
    startsElement kind = false ∧ kind ≠ .leftBracket := by
  revert h
  cases kind <;> decide

theorem leaf?_starts {t : Token} (h : leaf? w t = some e) :
    startsElement t.kind = true ∧ t.kind ≠ .leftParen := by
  cases hk : t.kind <;> simp_all [leaf?, startsElement]

theorem leaf?_kind {t : Token} (h : leaf? w t = some e) :
    (t.kind = .number ∨ t.kind = .rational ∨ t.kind = .complex) ∨
      t.kind = .string ∨ t.kind = .identifier := by
  cases hk : t.kind <;> simp_all [leaf?]

/-- What an operand by itself has been read from. -/
theorem leaf?_cases {t : Token} (h : leaf? w t = some e) :
    (∃ s, Numeral.read t.text w.settings.inputBase = .ok s ∧ e = .constant s) ∨
      (∃ text, Text.Quoted.decode t.text.toList = .ok text ∧ e = quotation text) ∨
      t.kind = .identifier ∧ e = named w t.text := by
  have found {ε α : Type} {x : Except ε α} {f : α → Expr} (h : x.toOption.map f = some e) :
      ∃ a, x = .ok a ∧ e = f a := by
    cases x with
    | error => exact nomatch h
    | ok a => exact ⟨a, rfl, (Option.some.inj h).symm⟩
  rcases leaf?_kind h with numeral | string | name
  · have numeral : t.kind.isNumeral = true := by rcases numeral with hk | hk | hk <;> rw [hk] <;> rfl
    exact .inl (found ((leaf?_numeral numeral).symm.trans h))
  · exact .inr (.inl (found ((leaf?_string string).symm.trans h)))
  · simp only [leaf?, name] at h
    exact .inr (.inr ⟨name, (Option.some.inj h).symm⟩)

theorem Element.starts (h : Element w inner ts e) :
    ∃ t us, ts = t :: us ∧ startsElement t.kind = true := by
  cases h with
  | leaf h => exact ⟨_, _, rfl, (leaf?_starts h).1⟩
  | parens opens => exact ⟨_, _, rfl, by rw [opens]; rfl⟩

theorem Strand.starts (h : Strand w inner ts es) :
    ∃ t us, ts = t :: us ∧ startsElement t.kind = true := by
  cases h with
  | one h => exact h.starts
  | cons h =>
    obtain ⟨t, us, rfl, ht⟩ := h.starts
    exact ⟨t, _, rfl, ht⟩

theorem Primary.starts (h : Primary w inside ts e) :
    ∃ t us, ts = t :: us ∧ startsElement t.kind = true := by
  obtain ⟨strand, -⟩ := h
  obtain ⟨t, us, rfl, ht⟩ := strand.starts
  exact ⟨t, _, rfl, ht⟩

theorem ExpressionOver.starts (h : ExpressionOver w inside ts e) :
    ∃ t us, ts = t :: us ∧ startsExpression t.kind = true := by
  have behind {ts : List Token} {e : Expr} (h : Primary w inside ts e) (us : List Token) :
      ∃ t us', ts ++ us = t :: us' ∧ startsExpression t.kind = true := by
    obtain ⟨t, us', rfl, ht⟩ := h.starts
    exact ⟨t, _, rfl, by rw [startsExpression, ht, Bool.true_or]⟩
  cases h with
  | unary kind => exact ⟨_, _, rfl, by rw [kind]; rfl⟩
  | primary h =>
    have := behind h []
    simpa using this
  | assign left => exact behind left _
  | binary left => exact behind left _

theorem Element.pos (h : Element w inner ts e) : 0 < ts.length := by
  obtain ⟨t, us, rfl, -⟩ := h.starts
  exact Nat.zero_lt_succ _

theorem Strand.length_le (h : Strand w inner ts es) : es.length ≤ ts.length := by
  induction h with
  | one h => exact h.pos
  | cons h _ ih =>
    have := h.pos
    rw [List.length_append, List.length_cons]
    omega

theorem Subscripts.length_le (h : Subscripts inner ts es) : es.length ≤ ts.length + 1 := by
  induction h with
  | one => simp
  | cons =>
    rw [List.length_append, List.length_cons, List.length_cons]
    omega

theorem StatementsOver.length_le (h : StatementsOver inner ts es) : es.length ≤ ts.length + 1 := by
  induction h with
  | last | closed => simp
  | cons =>
    rw [List.length_append, List.length_cons, List.length_cons]
    omega

/-- An element is an expression. -/
theorem Element.expression (h : Element w (Expression w depth 2) ts e) :
    Expression w (depth + 1) 0 ts e := by
  have alone := Primary.mk (.one h) .none
  rw [List.append_nil] at alone
  exact .primary alone

/-! ## § One reading at most -/

/-- Of the phrases at the start of a line that have a token with `ends` behind them, there is one
at most. -/
def Sharp {α : Type} (phrase : List Token → α → Prop) (ends : TokenKind → Prop) : Prop :=
  ∀ ⦃ts us : List Token⦄ ⦃a b : α⦄ ⦃x y : Token⦄ ⦃xs ys : List Token⦄, phrase ts a → phrase us b →
    ts ++ x :: xs = us ++ y :: ys → ends x.kind → ends y.kind → ts = us ∧ a = b

section Unambiguous

variable {x y : Token} {xs ys : List Token}

/-- An element shows where it ends. -/
theorem Element.sharp (h : Sharp inner (· = .rightParen)) :
    Sharp (Element w inner) fun _ => True := by
  intro ts us a b x y xs ys ha hb eq _ _
  cases ha with
  | leaf ha =>
    cases hb with
    | leaf hb =>
      obtain ⟨rfl, -⟩ := List.cons.inj eq
      rw [ha] at hb
      exact ⟨rfl, Option.some.inj hb⟩
    | parens opens =>
      obtain ⟨rfl, -⟩ := List.cons.inj eq
      exact ((leaf?_starts ha).2 opens).elim
  | parens opens within closes =>
    cases hb with
    | leaf hb =>
      obtain ⟨rfl, -⟩ := List.cons.inj eq
      exact ((leaf?_starts hb).2 opens).elim
    | parens opens' within' closes' =>
      simp only [List.cons_append, List.append_assoc, List.nil_append] at eq
      obtain ⟨rfl, eq'⟩ := List.cons.inj eq
      obtain ⟨rfl, rfl⟩ := h within within' eq' closes closes'
      obtain ⟨rfl, -⟩ := List.cons.inj (List.append_cancel_left eq')
      exact ⟨rfl, rfl⟩

theorem Strand.sharp (h : Sharp inner (· = .rightParen)) :
    Sharp (Strand w inner) (startsElement · = false) := by
  intro ts us as bs x y xs ys ha hb eq hx hy
  -- Behind the last element stands no other one.
  have no_more {z : Token} {zs vs ws : List Token} {cs : List Expr} (hs : Strand w inner vs cs)
      (hz : startsElement z.kind = false) (eq : z :: zs = vs ++ ws) : False := by
    obtain ⟨t, vs, rfl, ht⟩ := hs.starts
    obtain ⟨rfl, -⟩ := List.cons.inj eq
    rw [hz] at ht
    exact nomatch ht
  induction ha generalizing us bs with
  | one first =>
    cases hb with
    | one first' =>
      obtain ⟨rfl, rfl⟩ := Element.sharp h first first' eq trivial trivial
      exact ⟨rfl, rfl⟩
    | cons first' rest' =>
      obtain ⟨t, vs, rfl, -⟩ := rest'.starts
      rw [List.append_assoc] at eq
      obtain ⟨rfl, rfl⟩ := Element.sharp h first first' eq trivial trivial
      exact (no_more rest' hx (List.append_cancel_left eq)).elim
  | cons first rest ih =>
    obtain ⟨t, vs, rfl, -⟩ := rest.starts
    rw [List.append_assoc] at eq
    cases hb with
    | one first' =>
      obtain ⟨rfl, rfl⟩ := Element.sharp h first first' eq trivial trivial
      exact (no_more rest hy (List.append_cancel_left eq).symm).elim
    | cons first' rest' =>
      obtain ⟨t', vs', rfl, -⟩ := rest'.starts
      rw [List.append_assoc] at eq
      obtain ⟨rfl, rfl⟩ := Element.sharp h first first' eq trivial trivial
      obtain ⟨eq', rfl⟩ := ih rest' (List.append_cancel_left eq)
      exact ⟨by rw [eq'], rfl⟩

/-- What may be left out is there if its first token is. -/
theorem Optional.sharp {phrase : Phrase} {ends : TokenKind → Prop} (h : Sharp phrase ends)
    (starts : ∀ {ts e}, phrase ts e → ∃ t us, ts = t :: us ∧ ¬ ends t.kind) :
    Sharp (Optional phrase) ends := by
  intro ts us a b x y xs ys ha hb eq hx hy
  cases ha with
  | present ha =>
    cases hb with
    | present hb => exact h ha hb eq hx hy
    | absent =>
      obtain ⟨t, vs, rfl, ht⟩ := starts ha
      obtain ⟨rfl, -⟩ := List.cons.inj eq
      exact (ht hy).elim
  | absent =>
    cases hb with
    | present hb =>
      obtain ⟨t, vs, rfl, ht⟩ := starts hb
      obtain ⟨rfl, -⟩ := List.cons.inj eq
      exact (ht hx).elim
    | absent => exact ⟨rfl, rfl⟩

/-- What is supposed of the expressions within. -/
structure Clear (inner : Phrase) : Prop where
  sharp : Sharp inner (·.endsExpression = true)
  starts : ∀ {ts e}, inner ts e → ∃ t us, ts = t :: us ∧ startsExpression t.kind = true

/-- A token that ends an expression does not start one. -/
theorem not_starts {kind : TokenKind} (h : kind.endsExpression = true) :
    startsExpression kind = false := by
  revert h
  cases kind <;> decide

theorem Clear.sharp_before (h : Clear inner) {ends : TokenKind → Prop}
    (he : ∀ kind, ends kind → kind.endsExpression = true) : Sharp inner ends :=
  fun _ _ _ _ _ _ _ _ ha hb eq hx hy => h.sharp ha hb eq (he _ hx) (he _ hy)

/-- The tokens behind a subscript. -/
def endsSubscript (kind : TokenKind) : Prop := kind = .semicolon ∨ kind = .rightBracket

theorem endsExpression_of_endsSubscript {kind : TokenKind} (h : endsSubscript kind) :
    kind.endsExpression = true := by
  rcases h with rfl | rfl <;> rfl

theorem Clear.subscript (h : Clear inner) : Sharp (Optional inner) endsSubscript := by
  refine Optional.sharp (h.sharp_before fun _ => endsExpression_of_endsSubscript) fun ha => ?_
  obtain ⟨t, us, rfl, ht⟩ := h.starts ha
  refine ⟨t, us, rfl, fun hk => ?_⟩
  rw [not_starts (endsExpression_of_endsSubscript hk)] at ht
  exact nomatch ht

theorem Subscripts.sharp (h : Clear inner) : Sharp (Subscripts inner) (· = .rightBracket) := by
  intro ts us as bs x y xs ys ha hb eq hx hy
  induction ha generalizing us bs with
  | one first =>
    cases hb with
    | one first' =>
      obtain ⟨rfl, rfl⟩ := h.subscript first first' eq (.inr hx) (.inr hy)
      exact ⟨rfl, rfl⟩
    | cons first' kind' =>
      rw [List.append_assoc] at eq
      obtain ⟨rfl, rfl⟩ := h.subscript first first' eq (.inr hx) (.inl kind')
      obtain ⟨rfl, -⟩ := List.cons.inj (List.append_cancel_left eq)
      exact nomatch hx.symm.trans kind'
  | cons first kind rest ih =>
    rw [List.append_assoc] at eq
    cases hb with
    | one first' =>
      obtain ⟨rfl, rfl⟩ := h.subscript first first' eq (.inl kind) (.inr hy)
      obtain ⟨rfl, -⟩ := List.cons.inj (List.append_cancel_left eq)
      exact nomatch hy.symm.trans kind
    | cons first' kind' rest' =>
      rw [List.append_assoc] at eq
      obtain ⟨rfl, rfl⟩ := h.subscript first first' eq (.inl kind) (.inl kind')
      obtain ⟨rfl, eq'⟩ := List.cons.inj (List.append_cancel_left eq)
      obtain ⟨rfl, rfl⟩ := ih rest' eq'
      exact ⟨rfl, rfl⟩

theorem Brackets.sharp (h : Clear inner) : Sharp (Brackets inner e) (· ≠ .leftBracket) := by
  intro ts us a b x y xs ys ha hb eq hx hy
  induction ha generalizing us with
  | none =>
    cases hb with
    | none => exact ⟨rfl, rfl⟩
    | cons opens =>
      obtain ⟨rfl, -⟩ := List.cons.inj eq
      exact (hx opens).elim
  | cons opens within closes rest ih =>
    cases hb with
    | none =>
      obtain ⟨rfl, -⟩ := List.cons.inj eq
      exact (hy opens).elim
    | cons opens' within' closes' rest' =>
      simp only [List.cons_append, List.append_assoc] at eq
      obtain ⟨rfl, eq₁⟩ := List.cons.inj eq
      obtain ⟨rfl, rfl⟩ := Subscripts.sharp h within within' eq₁ closes closes'
      obtain ⟨rfl, eq₂⟩ := List.cons.inj (List.append_cancel_left eq₁)
      obtain ⟨rfl, rfl⟩ := ih rest' eq₂
      exact ⟨rfl, rfl⟩

/-- Whether a token does not go on the primary before it. -/
def endsPrimary (kind : TokenKind) : Prop := startsElement kind = false ∧ kind ≠ .leftBracket

theorem Primary.sharp (h : ∀ toll, Clear (inside toll)) : Sharp (Primary w inside) endsPrimary := by
  intro ts us a b x y xs ys ha hb eq hx hy
  obtain ⟨strand, brackets⟩ := ha
  obtain ⟨strand', brackets'⟩ := hb
  -- Behind the strand stands a bracket, or what is behind the primary.
  have next {e f : Expr} {vs : List Token} {z : Token} (zs : List Token)
      (hb : Brackets (inside 3) e vs f) (hz : endsPrimary z.kind) :
      ∃ t ws, vs ++ z :: zs = t :: ws ∧ startsElement t.kind = false := by
    cases hb with
    | none => exact ⟨z, zs, rfl, hz.1⟩
    | cons opens => exact ⟨_, _, rfl, by rw [opens]; rfl⟩
  have closes : Sharp (inside 2) (· = .rightParen) :=
    (h 2).sharp_before fun kind hk => by rw [hk]; rfl
  obtain ⟨t, vs, hv, ht⟩ := next xs brackets hx
  obtain ⟨t', vs', hv', ht'⟩ := next ys brackets' hy
  rw [List.append_assoc, List.append_assoc] at eq
  have eq' := eq
  rw [hv, hv'] at eq'
  obtain ⟨rfl, rfl⟩ := Strand.sharp closes strand strand' eq' ht ht'
  obtain ⟨rfl, rfl⟩ := Brackets.sharp (h 3) brackets brackets' (List.append_cancel_left eq) hx.2 hy.2
  exact ⟨rfl, rfl⟩

/-- The token behind the left operand of an expression tells the rule. -/
theorem ExpressionOver.sharp (h : ∀ toll, Clear (inside toll)) :
    Sharp (ExpressionOver w inside) (·.endsExpression = true) := by
  intro ts us a b x y xs ys ha hb eq hx hy
  have not_unary {t : Token} {vs ws zs : List Token} {e : Expr} (hp : Primary w inside vs e)
      (hk : t.kind = .operator) (eq : t :: ws = vs ++ zs) : False := by
    obtain ⟨t', vs, rfl, ht'⟩ := hp.starts
    obtain ⟨rfl, -⟩ := List.cons.inj eq
    rw [hk] at ht'
    exact nomatch ht'
  have operator {kind : TokenKind} (hk : kind = .operator) : endsPrimary kind := by
    rw [hk]
    exact ⟨rfl, nofun⟩
  have assign {kind : TokenKind} (hk : kind = .assign) : endsPrimary kind := by
    rw [hk]
    exact ⟨rfl, nofun⟩
  -- Two primaries at the start of the line are one, and so are the tokens behind them.
  have left {ts us : List Token} {e f : Expr} {x y : Token} {xs ys : List Token}
      (he : Primary w inside ts e) (hf : Primary w inside us f) (hx : endsPrimary x.kind)
      (hy : endsPrimary y.kind) (eq : ts ++ x :: xs = us ++ y :: ys) :
      (ts = us ∧ e = f) ∧ x = y ∧ xs = ys := by
    obtain ⟨rfl, rfl⟩ := Primary.sharp h he hf eq hx hy
    exact ⟨⟨rfl, rfl⟩, List.cons.inj (List.append_cancel_left eq)⟩
  have hx' : endsPrimary x.kind := ends_primary hx
  have hy' : endsPrimary y.kind := ends_primary hy
  cases ha with
  | unary kind word right =>
    cases hb with
    | unary kind' word' right' =>
      obtain ⟨rfl, eq'⟩ := List.cons.inj eq
      obtain ⟨rfl, rfl⟩ := (h _).sharp right right' eq' hx hy
      exact ⟨rfl, rfl⟩
    | primary hb => exact (not_unary hb kind eq).elim
    | assign left' | binary left' =>
      rw [List.append_assoc] at eq
      exact (not_unary left' kind eq).elim
  | primary ha =>
    cases hb with
    | unary kind' => exact (not_unary ha kind' eq.symm).elim
    | primary hb => exact (left ha hb hx' hy' eq).1
    | assign left' _ kind' =>
      rw [List.append_assoc] at eq
      obtain ⟨-, rfl, -⟩ := left ha left' hx' (assign kind') eq
      rw [kind'] at hx
      exact nomatch hx
    | binary left' kind' =>
      rw [List.append_assoc] at eq
      obtain ⟨-, rfl, -⟩ := left ha left' hx' (operator kind') eq
      rw [kind'] at hx
      exact nomatch hx
  | assign target _ kind right =>
    rw [List.append_assoc] at eq
    cases hb with
    | unary kind' => exact (not_unary target kind' eq.symm).elim
    | primary hb =>
      obtain ⟨-, rfl, -⟩ := left target hb (assign kind) hy' eq
      rw [kind] at hy
      exact nomatch hy
    | assign target' _ kind' right' =>
      rw [List.append_assoc] at eq
      obtain ⟨⟨rfl, rfl⟩, rfl, eq'⟩ := left target target' (assign kind) (assign kind') eq
      obtain ⟨rfl, rfl⟩ := (h _).sharp right right' eq' hx hy
      exact ⟨rfl, rfl⟩
    | binary left' kind' =>
      rw [List.append_assoc] at eq
      obtain ⟨-, rfl, -⟩ := left target left' (assign kind) (operator kind') eq
      exact nomatch kind.symm.trans kind'
  | binary left₁ kind _ right =>
    rw [List.append_assoc] at eq
    cases hb with
    | unary kind' => exact (not_unary left₁ kind' eq.symm).elim
    | primary hb =>
      obtain ⟨-, rfl, -⟩ := left left₁ hb (operator kind) hy' eq
      rw [kind] at hy
      exact nomatch hy
    | assign target' _ kind' =>
      rw [List.append_assoc] at eq
      obtain ⟨-, rfl, -⟩ := left left₁ target' (operator kind) (assign kind') eq
      exact nomatch kind.symm.trans kind'
    | binary left' kind' _ right' =>
      rw [List.append_assoc] at eq
      obtain ⟨⟨rfl, rfl⟩, rfl, eq'⟩ := left left₁ left' (operator kind) (operator kind') eq
      obtain ⟨rfl, rfl⟩ := (h _).sharp right right' eq' hx hy
      exact ⟨rfl, rfl⟩

theorem Expression.clear (w : Workspace) (depth toll : Nat) : Clear (Expression w depth toll) := by
  induction depth generalizing toll with
  | zero => exact ⟨fun _ _ _ _ _ _ _ _ ha => ha.elim, fun ha => ha.elim⟩
  | succ depth ih =>
    cases toll with
    | zero => exact ⟨ExpressionOver.sharp ih, ExpressionOver.starts⟩
    | succ toll => exact ih toll

/-- The tokens behind a statement. -/
def endsStatement (kind : TokenKind) : Prop := kind.isLineEnd = true ∨ kind = .semicolon

theorem endsExpression_of_endsStatement {kind : TokenKind} (h : endsStatement kind) :
    kind.endsExpression = true := by
  rcases h with h | rfl
  · revert h
    cases kind <;> decide
  · rfl

theorem Statement.sharp (h : Clear inner) : Sharp (Statement inner) endsStatement := by
  intro ts us a b x y xs ys ha hb eq hx hy
  have colon {kind : TokenKind} (hk : kind = .colon) : kind.endsExpression = true := by
    rw [hk]
    rfl
  have clash {kind : TokenKind} (hk : kind = .colon) (he : endsStatement kind) : False := by
    subst hk
    rcases he with he | he <;> exact nomatch he
  have hx' := endsExpression_of_endsStatement hx
  have hy' := endsExpression_of_endsStatement hy
  cases ha with
  | plain ha =>
    cases hb with
    | plain hb => exact h.sharp ha hb eq hx' hy'
    | conditional condition kind =>
      rw [List.append_assoc] at eq
      obtain ⟨rfl, rfl⟩ := h.sharp ha condition eq hx' (colon kind)
      obtain ⟨rfl, -⟩ := List.cons.inj (List.append_cancel_left eq)
      exact (clash kind hx).elim
  | conditional condition kind result =>
    rw [List.append_assoc] at eq
    cases hb with
    | plain hb =>
      obtain ⟨rfl, rfl⟩ := h.sharp condition hb eq (colon kind) hy'
      obtain ⟨rfl, -⟩ := List.cons.inj (List.append_cancel_left eq)
      exact (clash kind hy).elim
    | conditional condition' kind' result' =>
      rw [List.append_assoc] at eq
      obtain ⟨rfl, rfl⟩ := h.sharp condition condition' eq (colon kind) (colon kind')
      obtain ⟨rfl, eq'⟩ := List.cons.inj (List.append_cancel_left eq)
      obtain ⟨rfl, rfl⟩ := h.sharp result result' eq' hx' hy'
      exact ⟨rfl, rfl⟩

theorem Statement.starts (h : Clear inner) (ha : Statement inner ts e) :
    ∃ t us, ts = t :: us ∧ startsExpression t.kind = true := by
  cases ha with
  | plain ha => exact h.starts ha
  | conditional condition =>
    obtain ⟨t, us, rfl, ht⟩ := h.starts condition
    exact ⟨t, _, rfl, ht⟩

/-- A statement, if there is one, before a semicolon or the end of the line. -/
theorem Optional.statement_sharp (h : Clear inner) :
    Sharp (Optional (Statement inner)) endsStatement := by
  refine Optional.sharp (Statement.sharp h) fun ha => ?_
  obtain ⟨t, us, rfl, ht⟩ := Statement.starts h ha
  refine ⟨t, us, rfl, fun hk => ?_⟩
  rw [not_starts (endsExpression_of_endsStatement hk)] at ht
  exact nomatch ht

/-- No statements start with the end of the line. -/
theorem StatementsOver.starts (h : Clear inner) (ha : StatementsOver inner ts es) :
    ∃ t us, ts = t :: us ∧ t.kind.isLineEnd = false := by
  have not_end {kind : TokenKind} (hk : startsExpression kind = true) : kind.isLineEnd = false := by
    revert hk
    cases kind <;> decide
  have before {t : Token} {ts us : List Token} {e : Expr} (ha : Optional (Statement inner) ts e)
      (kind : t.kind = .semicolon) :
      ∃ t' us', ts ++ t :: us = t' :: us' ∧ t'.kind.isLineEnd = false := by
    cases ha with
    | present ha =>
      obtain ⟨t, us, rfl, ht⟩ := Statement.starts h ha
      exact ⟨t, _, rfl, not_end ht⟩
    | absent => exact ⟨t, us, rfl, by rw [kind]; rfl⟩
  cases ha with
  | last ha =>
    obtain ⟨t, us, rfl, ht⟩ := Statement.starts h ha
    exact ⟨t, us, rfl, not_end ht⟩
  | closed ha kind => exact before ha kind
  | cons ha kind => exact before ha kind

theorem StatementsOver.sharp (h : Clear inner) :
    Sharp (StatementsOver inner) (·.isLineEnd = true) := by
  intro ts us as bs x y xs ys ha hb eq hx hy
  have not_both {kind : TokenKind} (he : kind.isLineEnd = true) (hk : kind = .semicolon) : False := by
    rw [hk] at he
    exact nomatch he
  -- After a semicolon the line ends, or another statement stands there.
  have no_more {z : Token} {zs vs ws : List Token} {cs : List Expr}
      (hs : StatementsOver inner vs cs) (hz : z.kind.isLineEnd = true)
      (eq : z :: zs = vs ++ ws) : False := by
    obtain ⟨t, vs, rfl, ht⟩ := StatementsOver.starts h hs
    obtain ⟨rfl, -⟩ := List.cons.inj eq
    rw [hz] at ht
    exact nomatch ht
  have first := Optional.statement_sharp h
  induction ha generalizing us bs with
  | last ha =>
    cases hb with
    | last hb =>
      obtain ⟨rfl, rfl⟩ := Statement.sharp h ha hb eq (.inl hx) (.inl hy)
      exact ⟨rfl, rfl⟩
    | closed hb kind | cons hb kind =>
      rw [List.append_assoc] at eq
      obtain ⟨rfl, rfl⟩ := first (.present ha) hb eq (.inl hx) (.inr kind)
      obtain ⟨rfl, -⟩ := List.cons.inj (List.append_cancel_left eq)
      exact (not_both hx kind).elim
  | closed ha kind =>
    rw [List.append_assoc] at eq
    cases hb with
    | last hb =>
      obtain ⟨rfl, rfl⟩ := first ha (.present hb) eq (.inr kind) (.inl hy)
      obtain ⟨rfl, -⟩ := List.cons.inj (List.append_cancel_left eq)
      exact (not_both hy kind).elim
    | closed hb kind' =>
      rw [List.append_assoc] at eq
      obtain ⟨rfl, rfl⟩ := first ha hb eq (.inr kind) (.inr kind')
      obtain ⟨rfl, -⟩ := List.cons.inj (List.append_cancel_left eq)
      exact ⟨rfl, rfl⟩
    | cons hb kind' rest' =>
      rw [List.append_assoc] at eq
      obtain ⟨rfl, rfl⟩ := first ha hb eq (.inr kind) (.inr kind')
      obtain ⟨rfl, eq'⟩ := List.cons.inj (List.append_cancel_left eq)
      exact (no_more rest' hx eq').elim
  | cons ha kind rest ih =>
    rw [List.append_assoc] at eq
    cases hb with
    | last hb =>
      obtain ⟨rfl, rfl⟩ := first ha (.present hb) eq (.inr kind) (.inl hy)
      obtain ⟨rfl, -⟩ := List.cons.inj (List.append_cancel_left eq)
      exact (not_both hy kind).elim
    | closed hb kind' =>
      rw [List.append_assoc] at eq
      obtain ⟨rfl, rfl⟩ := first ha hb eq (.inr kind) (.inr kind')
      obtain ⟨rfl, eq'⟩ := List.cons.inj (List.append_cancel_left eq)
      exact (no_more rest hy eq'.symm).elim
    | cons hb kind' rest' =>
      rw [List.append_assoc] at eq
      obtain ⟨rfl, rfl⟩ := first ha hb eq (.inr kind) (.inr kind')
      obtain ⟨rfl, eq'⟩ := List.cons.inj (List.append_cancel_left eq)
      obtain ⟨rfl, rfl⟩ := ih rest' eq'
      exact ⟨rfl, rfl⟩

/-- **A line is in the grammar in one way at most**, however deep its expressions nest. -/
theorem Statements.unique {depth' : Nat} (h : Statements w depth ts es)
    (h' : Statements w depth' ts fs) : es = fs := by
  have clear := Expression.clear w (max depth depth') 0
  have h := h.mono (Nat.le_max_left depth depth')
  have h' := h'.mono (Nat.le_max_right depth depth')
  let feed : Token := ⟨.newline, "", 0⟩
  have same : ts ++ feed :: [] = ts ++ feed :: [] := rfl
  exact (StatementsOver.sharp clear h h' same rfl rfl).2

/-- What stands in parentheses where an expression starts is an expression within. -/
theorem Expression.within_parens {a b : Token} {zs : List Token} {deep : Nat}
    (hu : Expression w deep 2 us f) (opens : a.kind = .leftParen) (closes : b.kind = .rightParen)
    (h : Expression w (depth + 1) 0 (a :: (us ++ b :: zs)) e) : ∃ g, Expression w depth 2 us g := by
  have element {vs ws : List Token} {g : Expr} (hp : Element w (Expression w depth 2) vs g)
      (eq : a :: (us ++ b :: zs) = vs ++ ws) : ∃ g, Expression w depth 2 us g := by
    cases hp with
    | leaf hl =>
      obtain ⟨rfl, -⟩ := List.cons.inj eq
      exact ((leaf?_starts hl).2 opens).elim
    | parens _ within closes' =>
      simp only [List.cons_append, List.append_assoc, List.nil_append] at eq
      obtain ⟨rfl, eq'⟩ := List.cons.inj eq
      have clear := Expression.clear w (max depth deep) 2
      have same := clear.sharp (within.mono (Nat.le_max_left ..)) (hu.mono (Nat.le_max_right ..))
        eq'.symm (by rw [closes']; rfl) (by rw [closes]; rfl)
      exact ⟨_, same.1 ▸ within⟩
  have primary {vs ws : List Token} {g : Expr} (hp : Primary w (Expression w depth) vs g)
      (eq : a :: (us ++ b :: zs) = vs ++ ws) : ∃ g, Expression w depth 2 us g := by
    obtain ⟨strand, -⟩ := hp
    rw [List.append_assoc] at eq
    cases strand with
    | one first => exact element first eq
    | cons first =>
      rw [List.append_assoc] at eq
      exact element first eq
  generalize line : a :: (us ++ b :: zs) = ts at h
  cases h with
  | unary kind =>
    obtain ⟨rfl, -⟩ := List.cons.inj line
    exact nomatch opens.symm.trans kind
  | primary hp => exact primary hp (line.trans (List.append_nil _).symm)
  | assign left => exact primary left line
  | binary left => exact primary left line

end Unambiguous

end Grammar

end ArrayCalc
