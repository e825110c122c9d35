import ArrayCalc.Proofs.GrammarSound

/-!
# What is in the grammar is read

In front of a phrase of the grammar, with a token behind it that ends the phrase, a reader gives
the tree of the phrase and stands in front of that token (`Complete`).  Only a tree that is deeper
than the reader goes stops it.
-/

namespace ArrayCalc

open Grammar

namespace Reading

variable {w : Workspace} {r : Reader} {t : Token} {ts us ys : List Token} {α : Type}
  {E : Obstacle → Reader → Prop}

/-- A reader gives the tree of a phrase that ends before the next token, unless the tree is too
deep for it. -/
def Complete (w : Workspace) (x : Reading α) (phrase : List Token → α → Prop)
    (ends : TokenKind → Prop) (deep : Prop) : Prop :=
  ∀ {r : Reader} {us ys : List Token} {a : α} {y : Token}, phrase us a → ends y.kind →
    Facing w r (us ++ y :: ys) →
      Outcome x r (fun b r' => b = a ∧ Facing w r' (y :: ys)) fun o _ => o.IsTooDeep ∧ deep

variable {expr : Reading Expr} {exprs : Nat → Reading Expr} {inner : Phrase}
  {inside : Nat → Phrase} {e : Expr} {es : List Expr} {count : Nat} {y : Token} {deep : Prop}

theorem numeral_complete (hk : t.kind.isNumeral = true) (hl : leaf? w t = some e)
    (h : Facing w r ts) : Outcome (numeral t) r (fun f r' => f = e ∧ Facing w r' ts) E := by
  unfold numeral
  refine .get ?_
  rw [h.workspace]
  have means := (leaf?_numeral hk).symm.trans hl
  cases hc : Numeral.read t.text w.settings.inputBase with
  | ok c =>
    rw [hc] at means
    exact .pure ⟨Option.some.inj means, h⟩
  | error =>
    rw [hc] at means
    exact nomatch means

theorem quoted_complete (hk : t.kind = .string) (hl : leaf? w t = some e) (h : Facing w r ts) :
    Outcome (quoted t) r (fun f r' => f = e ∧ Facing w r' ts) E := by
  have means := (leaf?_string hk).symm.trans hl
  unfold quoted
  cases hc : Text.Quoted.decode t.text.toList with
  | ok text =>
    rw [hc] at means
    obtain rfl := Option.some.inj means
    unfold quotation
    split
    next c heq =>
      obtain rfl := Except.ok.inj heq
      exact .pure ⟨rfl, h⟩
    next no_char heq =>
      obtain rfl := Except.ok.inj heq
      split
      next c => exact (no_char c rfl).elim
      next => exact .pure ⟨rfl, h⟩
    next heq => exact nomatch heq
    next heq => exact nomatch heq
  | error =>
    rw [hc] at means
    exact nomatch means

/-- A token that is an operand by itself. -/
theorem literal_complete {x : Reading Expr} (h : Facing w r (t :: ys))
    (ht : t.kind.isLineEnd = false)
    (hx : ∀ {r : Reader}, Facing w r ys →
      Outcome x r (fun f r' => f = e ∧ Facing w r' ys) fun o _ => o.IsTooDeep ∧ deep) :
    Outcome (do discard; return some (← x)) r (fun item r' => item = some e ∧ Facing w r' ys)
      fun o _ => o.IsTooDeep ∧ deep := by
  refine .bind (discard_facing h ht) fun _ r₁ h₁ => ?_
  exact .bind (hx h₁) fun f r₂ k => .pure ⟨congrArg some k.1, k.2⟩

theorem item?_complete (he : Complete w expr inner (·.endsExpression = true) deep)
    (hp : Element w inner us e) (h : Facing w r (us ++ ys)) :
    Outcome (item? expr) r (fun item r' => item = some e ∧ Facing w r' ys)
      fun o _ => o.IsTooDeep ∧ deep := by
  rw [item?_eq]
  cases hp with
  | leaf hl =>
    refine .bind (peek_facing h) fun a r₁ k => ?_
    obtain ⟨rfl, h₁⟩ := k
    have inner : a.kind.isLineEnd = false := by
      rcases leaf?_kind hl with (hk | hk | hk) | hk | hk <;> rw [hk] <;> rfl
    unfold operandFrom
    rcases leaf?_kind hl with numeral | hk | hk
    · have numeric : a.kind.isNumeral = true := by
        rcases numeral with hk | hk | hk <;> rw [hk] <;> rfl
      rcases numeral with hk | hk | hk
      all_goals
        rw [hk]
        exact literal_complete h₁ inner fun h => numeral_complete numeric hl h
    · rw [hk]
      exact literal_complete h₁ inner fun h => quoted_complete hk hl h
    · rw [hk]
      have means : some (named w a.text) = some e := by simpa [leaf?, hk] using hl
      obtain rfl := Option.some.inj means
      exact literal_complete h₁ inner fun h => nameUse_facing a.text h
  | parens opens within closes =>
    simp only [List.cons_append, List.append_assoc, List.nil_append] at h
    refine .bind (peek_facing h) fun a r₁ k => ?_
    obtain ⟨rfl, h₁⟩ := k
    unfold operandFrom
    rw [opens]
    refine .bind (discard_facing h₁ (by rw [opens]; rfl)) fun _ r₂ h₂ => ?_
    refine .bind (he within (by rw [closes]; rfl) h₂) fun f r₃ k => ?_
    obtain ⟨rfl, h₃⟩ := k
    exact .bind (expect_taken ")" closes rfl h₃) fun _ r₄ h₄ => .pure ⟨rfl, h₄⟩

theorem item?_none (hy : startsElement y.kind = false) (h : Facing w r (y :: ys)) :
    Outcome (item? expr) r (fun item r' => item = none ∧ Facing w r' (y :: ys)) E := by
  refine .bind (peek_facing h) fun a r₁ ⟨ha, h₁⟩ => ?_
  subst ha
  split
  case h_7 => exact .pure ⟨rfl, h₁⟩
  all_goals
    next hk =>
      rw [hk] at hy
      exact nomatch hy

/-- In front of no element there are no items. -/
theorem items_none (hy : startsElement y.kind = false) (h : Facing w r (y :: ys)) :
    Outcome (items expr count) r (fun fs r' => fs = [] ∧ Facing w r' (y :: ys)) E := by
  cases count with
  | zero => exact .pure ⟨rfl, h⟩
  | succ count =>
    refine .bind (item?_none hy h) fun item r₁ ⟨hi, h₁⟩ => ?_
    subst hi
    exact .pure ⟨rfl, h₁⟩

theorem items_complete (he : Complete w expr inner (·.endsExpression = true) deep)
    (hp : Strand w inner us es) (hy : startsElement y.kind = false) (hc : es.length ≤ count)
    (h : Facing w r (us ++ y :: ys)) :
    Outcome (items expr count) r (fun fs r' => fs = es ∧ Facing w r' (y :: ys))
      fun o _ => o.IsTooDeep ∧ deep := by
  induction hp generalizing r count with
  | one first =>
    obtain ⟨count, rfl⟩ : ∃ n, count = n + 1 := ⟨count - 1, by simp at hc; omega⟩
    refine .bind (item?_complete he first h) fun item r₁ ⟨hi, h₁⟩ => ?_
    subst hi
    refine .bind (items_none hy h₁) fun fs r₂ ⟨hf, h₂⟩ => .pure ⟨?_, h₂⟩
    rw [hf]
  | cons first rest ih =>
    obtain ⟨count, rfl⟩ : ∃ n, count = n + 1 := ⟨count - 1, by simp at hc; omega⟩
    rw [List.append_assoc] at h
    refine .bind (item?_complete he first h) fun item r₁ ⟨hi, h₁⟩ => ?_
    subst hi
    refine .bind (ih (by simpa using hc) h₁) fun fs r₂ ⟨hf, h₂⟩ => .pure ⟨?_, h₂⟩
    rw [hf]

theorem subscripts_complete (he : Complete w expr inner (·.endsExpression = true) deep)
    (hs : ∀ {ts e}, inner ts e → ∃ t us, ts = t :: us ∧ startsExpression t.kind = true)
    (hp : Subscripts inner us es) (hy : y.kind = .rightBracket) (hc : es.length ≤ count)
    (h : Facing w r (us ++ y :: ys)) :
    Outcome (subscripts expr count) r (fun fs r' => fs = es ∧ Facing w r' ys)
      fun o _ => o.IsTooDeep ∧ deep := by
  -- One subscript, before a token that ends it.
  have first {us ys : List Token} {e : Expr} {y : Token} {r : Reader}
      {f : Expr → Reading (List Expr)} {Q : List Expr → Reader → Prop} (hp : Optional inner us e)
      (hy : endsSubscript y.kind) (h : Facing w r (us ++ y :: ys))
      (hf : ∀ r, Facing w r (y :: ys) → Outcome (f e) r Q fun o _ => o.IsTooDeep ∧ deep) :
      Outcome (do
        let kind ← peekKind
        let e ← if kind = .semicolon ∨ kind = .rightBracket then pure .empty else expr
        f e) r Q fun o _ => o.IsTooDeep ∧ deep := by
    cases hp with
    | present hp =>
      obtain ⟨t, us, rfl, ht⟩ := hs hp
      refine .bind (peekKind_facing h) fun kind r₁ ⟨hkind, h₁⟩ => ?_
      subst hkind
      have other : ¬ (t.kind = .semicolon ∨ t.kind = .rightBracket) := by
        intro hk
        rw [not_starts (endsExpression_of_endsSubscript hk)] at ht
        exact nomatch ht
      rw [if_neg other]
      refine .bind (he hp (endsExpression_of_endsSubscript hy) h₁) fun e' r₂ ⟨he', h₂⟩ => ?_
      subst he'
      exact hf r₂ h₂
    | absent =>
      refine .bind (peekKind_facing h) fun kind r₁ ⟨hkind, h₁⟩ => ?_
      subst hkind
      rw [if_pos (show y.kind = .semicolon ∨ y.kind = .rightBracket from hy)]
      exact hf r₁ h₁
  induction hp generalizing r count with
  | one hp =>
    obtain ⟨count, rfl⟩ : ∃ n, count = n + 1 := ⟨count - 1, by simp at hc; omega⟩
    refine first hp (.inr hy) h fun r₁ h₁ => ?_
    refine .bind (take_facing h₁) fun a r₂ ⟨ha, _, h₂⟩ => ?_
    subst ha
    rw [hy]
    exact .pure ⟨rfl, h₂ (by rw [hy]; rfl)⟩
  | cons hp kind rest ih =>
    obtain ⟨count, rfl⟩ : ∃ n, count = n + 1 := ⟨count - 1, by simp at hc; omega⟩
    rw [List.append_assoc] at h
    refine first hp (.inl kind) h fun r₁ h₁ => ?_
    refine .bind (take_facing h₁) fun a r₂ ⟨ha, _, h₂⟩ => ?_
    subst ha
    rw [kind]
    refine .bind (ih (by simpa using hc) (h₂ (by rw [kind]; rfl))) fun fs r₃ ⟨hf, h₃⟩ => .pure ⟨?_, h₃⟩
    rw [hf]

theorem indices_complete (he : Complete w expr inner (·.endsExpression = true) deep)
    (hs : ∀ {ts e}, inner ts e → ∃ t us, ts = t :: us ∧ startsExpression t.kind = true)
    {f : Expr} (hp : Brackets inner e us f) (hy : y.kind ≠ .leftBracket) (hc : us.length < count)
    (h : Facing w r (us ++ y :: ys)) :
    Outcome (indices expr count e) r (fun g r' => g = f ∧ Facing w r' (y :: ys))
      fun o _ => o.IsTooDeep ∧ deep := by
  induction hp generalizing r count with
  | none =>
    obtain ⟨count, rfl⟩ : ∃ n, count = n + 1 := ⟨count - 1, by omega⟩
    refine .bind (peekKind_facing h) fun kind r₁ ⟨hkind, h₁⟩ => ?_
    subst hkind
    rw [if_neg hy]
    exact .pure ⟨rfl, h₁⟩
  | cons opens within closes rest ih =>
    obtain ⟨count, rfl⟩ : ∃ n, count = n + 1 := ⟨count - 1, by omega⟩
    simp only [List.cons_append, List.append_assoc] at h
    refine .bind (peekKind_facing h) fun kind r₁ ⟨hkind, h₁⟩ => ?_
    subst hkind
    rw [if_pos opens]
    refine .bind (discard_facing h₁ (by rw [opens]; rfl)) fun _ r₂ h₂ => ?_
    refine .bind (remaining_facing h₂) fun n r₃ ⟨hn, h₃⟩ => ?_
    have enough := within.length_le
    simp only [List.length_append, List.length_cons] at hn hc
    refine .bind (subscripts_complete he hs within closes (by omega) h₃) fun fs r₄ ⟨hf, h₄⟩ => ?_
    subst hf
    exact ih (by omega) h₄

theorem primary_complete
    (he : ∀ toll, Complete w (exprs toll) (inside toll) (·.endsExpression = true) deep)
    (hs : ∀ {toll ts e}, inside toll ts e →
      ∃ t us, ts = t :: us ∧ startsExpression t.kind = true) :
    Complete w (primary exprs) (Primary w inside) endsPrimary deep := by
  intro r us ys e y hp hy h
  obtain ⟨strand, brackets⟩ := hp
  rename_i vs ws es
  -- Behind the strand stands a bracket, or what is behind the primary.
  obtain ⟨z, zs, hz, starts⟩ : ∃ z zs, ws ++ y :: ys = z :: zs ∧ startsElement z.kind = false := by
    cases brackets with
    | none => exact ⟨y, ys, rfl, hy.1⟩
    | cons opens => exact ⟨_, _, rfl, by rw [opens]; rfl⟩
  rw [List.append_assoc] at h
  refine .bind (remaining_facing h) fun n r₁ ⟨hn, h₁⟩ => ?_
  rw [hz] at h₁
  have enough := strand.length_le
  simp only [List.length_append, List.length_cons] at hn
  refine .bind (items_complete (he 2) strand starts (by omega) h₁) fun fs r₂ ⟨hf, h₂⟩ => ?_
  subst hf
  rw [← hz] at h₂
  have behind : Outcome (do indices (exprs 3) (← remaining) (joined fs)) r₂
      (fun f r' => f = e ∧ Facing w r' (y :: ys)) fun o _ => o.IsTooDeep ∧ deep := by
    refine .bind (remaining_facing h₂) fun n r₃ ⟨hn, h₃⟩ => ?_
    rw [List.length_append, List.length_cons] at hn
    exact indices_complete (he 3) hs brackets hy.2 (by omega) h₃
  split
  next => cases strand
  next => exact behind
  next _ not_one =>
    have plain : joined fs = .strand fs := by
      unfold joined
      split
      next => exact (not_one _ rfl).elim
      next => rfl
    rwa [plain] at behind

theorem operand_complete
    (he : ∀ toll, Complete w (exprs toll) (inside toll) (·.endsExpression = true) deep)
    (hs : ∀ {toll ts e}, inside toll ts e →
      ∃ t us, ts = t :: us ∧ startsExpression t.kind = true) :
    Complete w (operand exprs) (Primary w inside) endsPrimary deep := by
  intro r us ys e y hp hy h
  obtain ⟨t, vs, rfl, ht⟩ := hp.starts
  refine .bind (peek_facing h) fun a r₁ ⟨ha, h₁⟩ => ?_
  subst ha
  have other : a.kind ≠ .operator := by
    intro hk
    rw [hk] at ht
    exact nomatch ht
  rw [if_neg other]
  exact primary_complete he hs hp hy h₁

theorem operand_unary
    (he : ∀ toll, Complete w (exprs toll) (inside toll) (·.endsExpression = true) deep)
    (kind : t.kind = .operator)
    (word : OperatorWord.isFold t.text = true ∨ w.definedUnary t.text = true)
    (right : inside 1 us e) (hy : y.kind.endsExpression = true)
    (h : Facing w r (t :: us ++ y :: ys)) :
    Outcome (operand exprs) r (fun f r' => f = .unary t.text e ∧ Facing w r' (y :: ys))
      fun o _ => o.IsTooDeep ∧ deep := by
  refine .bind (peek_facing h) fun a r₁ ⟨ha, h₁⟩ => ?_
  subst ha
  rw [if_pos kind]
  refine .bind (discard_facing h₁ (by rw [kind]; rfl)) fun _ r₂ h₂ => .get ?_
  rw [h₂.workspace, if_pos (show isUnary w a.text = true from Bool.or_eq_true _ _ ▸ word)]
  refine .bind (he 1 right hy h₂) fun f r₃ ⟨hf, h₃⟩ => .pure ⟨?_, h₃⟩
  rw [hf]

variable [Machine]

/-- The step from the expressions within to the expressions. -/
theorem expressionOver_complete {depth : Nat}
    (he : ∀ toll, Complete w (expression depth toll) (inside toll) (·.endsExpression = true) deep)
    (hs : ∀ {toll ts e}, inside toll ts e →
      ∃ t us, ts = t :: us ∧ startsExpression t.kind = true) :
    Complete w (expression (depth + 1) 0) (ExpressionOver w inside) (·.endsExpression = true)
      deep := by
  intro r us ys e y hp hy h
  -- An operand before the end of the expression is all of it.
  have alone {e : Expr}
      (ho : Outcome (operand (expression depth)) r (fun f r' => f = e ∧ Facing w r' (y :: ys))
        fun o _ => o.IsTooDeep ∧ deep) :
      Outcome (expression (depth + 1) 0) r (fun f r' => f = e ∧ Facing w r' (y :: ys))
        fun o _ => o.IsTooDeep ∧ deep := by
    refine .bind ho fun f r₁ ⟨hf, h₁⟩ => .bind (peek_facing h₁) fun a r₂ ⟨ha, h₂⟩ => ?_
    subst ha
    have plain : a.kind ≠ .assign ∧ a.kind ≠ .operator := by
      constructor
      all_goals
        intro hk
        rw [hk] at hy
        exact nomatch hy
    rw [if_neg plain.1, if_neg plain.2, if_pos hy]
    exact .pure ⟨hf, h₂⟩
  cases hp with
  | unary kind word right => exact alone (operand_unary he kind word right hy h)
  | primary hp => exact alone (operand_complete he hs hp (ends_primary hy) h)
  | assign hp assignable kind right =>
    rw [List.append_assoc] at h
    have assign : endsPrimary .assign := ⟨rfl, nofun⟩
    refine .bind (operand_complete he hs hp (by rwa [kind]) h) fun f r₁ ⟨hf, h₁⟩ => ?_
    subst hf
    refine .bind (peek_facing h₁) fun a r₂ ⟨ha, h₂⟩ => ?_
    subst ha
    rw [if_pos kind]
    refine .bind (discard_facing h₂ (by rw [kind]; rfl)) fun _ r₃ h₃ => ?_
    rw [if_pos assignable]
    refine .bind (assignmentTarget_facing f h₃) fun target r₄ ⟨same, h₄⟩ => ?_
    subst same
    refine .bind (he 0 right hy h₄) fun value r₅ ⟨hv, h₅⟩ => .pure ⟨?_, h₅⟩
    rw [hv]
  | binary hp kind word right =>
    rw [List.append_assoc] at h
    have operator : endsPrimary .operator := ⟨rfl, nofun⟩
    refine .bind (operand_complete he hs hp (by rwa [kind]) h) fun f r₁ ⟨hf, h₁⟩ => ?_
    subst hf
    refine .bind (peek_facing h₁) fun a r₂ ⟨ha, h₂⟩ => ?_
    subst ha
    rw [if_neg (by rw [kind]; nofun), if_pos kind]
    refine .bind (discard_facing h₂ (by rw [kind]; rfl)) fun _ r₃ h₃ => .get ?_
    rw [h₃.workspace, if_pos (show isBinary w a.text = true from Bool.or_eq_true _ _ ▸ word)]
    refine .bind (he 0 right hy h₃) fun g r₄ ⟨hg, h₄⟩ => .pure ⟨?_, h₄⟩
    rw [hg]

theorem expression_complete (w : Workspace) (depth deeper toll : Nat) :
    Complete w (expression depth toll) (Expression w deeper toll) (·.endsExpression = true)
      (depth < deeper) := by
  induction depth generalizing deeper toll with
  | zero =>
    intro r us ys e y hp _ h
    refine (giveUp_facing toll h).mono (fun _ _ k => k) fun o _ ho => ⟨ho, ?_⟩
    cases deeper with
    | zero => exact hp.elim
    | succ deeper => exact Nat.zero_lt_succ _
  | succ depth ih =>
    intro r us ys e y hp hy h
    cases deeper with
    | zero => exact hp.elim
    | succ deeper =>
      have deeper_still (o : Obstacle) : o.IsTooDeep ∧ depth < deeper →
          o.IsTooDeep ∧ depth + 1 < deeper + 1 := fun ⟨ho, lt⟩ => ⟨ho, Nat.succ_lt_succ lt⟩
      cases toll with
      | succ toll => exact (ih deeper toll hp hy h).mono (fun _ _ k => k) fun o _ => deeper_still o
      | zero =>
        have starts {toll : Nat} {ts : List Token} {e : Expr} (hp : Expression w deeper toll ts e) :=
          (Expression.clear w deeper toll).starts hp
        exact (expressionOver_complete (ih deeper) starts hp hy h).mono (fun _ _ k => k)
          fun o _ => deeper_still o

variable {depth : Nat}

theorem outermost_complete (w : Workspace) (depth : Nat) :
    Complete w outermost (Expression w depth 0) (·.endsExpression = true)
      (Machine.nesting < depth) := by
  intro r us ys e y hp hy h
  unfold outermost
  refine .get ?_
  rw [outermostToll, h.free]
  exact expression_complete w Machine.nesting depth 0 hp hy h

theorem statement_complete (w : Workspace) (depth : Nat) :
    Complete w statement (Statement (Expression w depth 0)) endsStatement
      (Machine.nesting < depth) := by
  intro r us ys e y hp hy h
  rw [statement_eq]
  have expressions := @outermost_complete _ w depth
  cases hp with
  | plain hp =>
    refine .bind (expressions hp (endsExpression_of_endsStatement hy) h) fun f r₁ ⟨hf, h₁⟩ => ?_
    subst hf
    refine .bind (peekKind_facing h₁) fun kind r₂ ⟨hkind, h₂⟩ => ?_
    subst hkind
    have other : y.kind ≠ .colon := by
      intro hk
      rw [hk] at hy
      rcases hy with hy | hy <;> exact nomatch hy
    rw [if_neg other]
    exact .pure ⟨rfl, h₂⟩
  | conditional condition kind result =>
    rw [List.append_assoc] at h
    refine .bind (expressions condition (by rw [kind]; rfl) h) fun f r₁ ⟨hf, h₁⟩ => ?_
    subst hf
    refine .bind (peekKind_facing h₁) fun _ r₂ ⟨hkind, h₂⟩ => ?_
    subst hkind
    rw [if_pos kind]
    refine .bind (discard_facing h₂ (by rw [kind]; rfl)) fun _ r₃ h₃ => ?_
    refine .bind (expressions result (endsExpression_of_endsStatement hy) h₃) fun g r₄ ⟨hg, h₄⟩ =>
      .pure ⟨?_, h₄⟩
    rw [hg]

theorem statementsUpTo_complete (hp : Statements w depth us es) (hy : y.kind.isLineEnd = true)
    (hc : es.length ≤ count) (h : Facing w r (us ++ y :: ys)) :
    Outcome (statementsUpTo count) r (fun fs r' => fs = es ∧ Facing w r' (y :: ys))
      fun o _ => o.IsTooDeep ∧ Machine.nesting < depth := by
  have clear := Expression.clear w depth 0
  -- A statement, if there is one, before a token that ends it.
  have first {us ys : List Token} {e : Expr} {y : Token} {r : Reader}
      {f : Expr → Reading (List Expr)} {Q : List Expr → Reader → Prop}
      (hp : Optional (Statement (Expression w depth 0)) us e) (hy : endsStatement y.kind)
      (semicolon : us = [] → y.kind = .semicolon) (h : Facing w r (us ++ y :: ys))
      (hf : ∀ r, Facing w r (y :: ys) →
        Outcome (f e) r Q fun o _ => o.IsTooDeep ∧ Machine.nesting < depth) :
      Outcome (do
        let kind ← peekKind
        let e ← if kind = .semicolon then pure .empty else statement
        f e) r Q fun o _ => o.IsTooDeep ∧ Machine.nesting < depth := by
    cases hp with
    | present hp =>
      obtain ⟨t, us, rfl, ht⟩ := Statement.starts clear hp
      refine .bind (peekKind_facing h) fun kind r₁ ⟨hkind, h₁⟩ => ?_
      subst hkind
      have other : t.kind ≠ .semicolon := by
        intro hk
        rw [hk] at ht
        exact nomatch ht
      rw [if_neg other]
      refine .bind (statement_complete w depth hp hy h₁) fun e' r₂ ⟨he', h₂⟩ => ?_
      subst he'
      exact hf r₂ h₂
    | absent =>
      refine .bind (peekKind_facing h) fun kind r₁ ⟨hkind, h₁⟩ => ?_
      subst hkind
      rw [if_pos (semicolon rfl)]
      exact hf r₁ h₁
  have not_semicolon (hy : y.kind.isLineEnd = true) : y.kind ≠ .semicolon := by
    intro hk
    rw [hk] at hy
    exact nomatch hy
  induction hp generalizing r count with
  | last hp =>
    obtain ⟨count, rfl⟩ : ∃ n, count = n + 1 := ⟨count - 1, by simp at hc; omega⟩
    obtain ⟨t, vs, rfl, -⟩ := Statement.starts clear hp
    refine first (.present hp) (.inl hy) nofun h fun r₁ h₁ => ?_
    refine .bind (peekKind_facing h₁) fun kind r₂ ⟨hkind, h₂⟩ => ?_
    subst hkind
    rw [if_pos (not_semicolon hy)]
    exact .pure ⟨rfl, h₂⟩
  | closed hp kind =>
    obtain ⟨count, rfl⟩ : ∃ n, count = n + 1 := ⟨count - 1, by simp at hc; omega⟩
    rw [List.append_assoc] at h
    refine first hp (.inr kind) (fun _ => kind) h fun r₁ h₁ => ?_
    refine .bind (peekKind_facing h₁) fun _ r₂ ⟨hkind, h₂⟩ => ?_
    subst hkind
    rw [if_neg (Decidable.not_not.2 kind)]
    refine .bind (discard_facing h₂ (by rw [kind]; rfl)) fun _ r₃ h₃ => ?_
    refine .bind (peekKind_facing h₃) fun _ r₄ ⟨hkind, h₄⟩ => ?_
    subst hkind
    rw [if_pos hy]
    exact .pure ⟨rfl, h₄⟩
  | cons hp kind rest ih =>
    obtain ⟨count, rfl⟩ : ∃ n, count = n + 1 := ⟨count - 1, by simp at hc; omega⟩
    rw [List.append_assoc] at h
    refine first hp (.inr kind) (fun _ => kind) h fun r₁ h₁ => ?_
    refine .bind (peekKind_facing h₁) fun _ r₂ ⟨hkind, h₂⟩ => ?_
    subst hkind
    rw [if_neg (Decidable.not_not.2 kind)]
    refine .bind (discard_facing h₂ (by rw [kind]; rfl)) fun _ r₃ h₃ => ?_
    obtain ⟨t, vs, rfl, ht⟩ := StatementsOver.starts clear rest
    refine .bind (peekKind_facing h₃) fun _ r₄ ⟨hkind, h₄⟩ => ?_
    subst hkind
    rw [if_neg (by rw [ht]; nofun)]
    refine .bind (ih (by simpa using hc) h₄) fun fs r₅ ⟨hf, h₅⟩ => .pure ⟨?_, h₅⟩
    rw [hf]

theorem statements_complete (w : Workspace) (depth : Nat) :
    Complete w statements (Statements w depth) (·.isLineEnd = true) (Machine.nesting < depth) := by
  intro r us ys es y hp hy h
  refine .bind (remaining_facing h) fun n r₁ ⟨hn, h₁⟩ => ?_
  have enough := hp.length_le
  rw [List.length_append, List.length_cons] at hn
  exact statementsUpTo_complete hp hy (by omega) h₁

end Reading

end ArrayCalc
