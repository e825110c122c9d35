import ArrayCalc.Proofs.Outcome
import ArrayCalc.Proofs.ReadingParts
import ArrayCalc.Proofs.Reads

/-!
# Reading keeps scopes
-/

namespace ArrayCalc.Reading

variable {base : Workspace} {parameters : List String} {r r' : Reader} {ts : List Expr} {α : Type}

/-- A reader of trees, from a scoped reader on. -/
def Scopes (base : Workspace) (parameters : List String) (x : Reading α)
    (trees : α → List Expr) : Prop :=
  ∀ r, Scoped base parameters r →
    Outcome x r (fun a r' => Reads base parameters r r' (trees a))
      fun _ r' => Stopped base parameters r'

/-! ## § Tokens -/

theorem outcome_onSource {f : Vocabulary → Source → Except LexError α × Source}
    {Q : α → Reader → Prop} {E : Obstacle → Reader → Prop}
    (ok : ∀ a s, f r.workspace.vocabulary r.source = (.ok a, s) → Q a { r with source := s })
    (error : ∀ e s, f r.workspace.vocabulary r.source = (.error e, s) →
      E (.lex e) { r with source := s }) : Outcome (onSource f) r Q E := by
  unfold Outcome onSource EStateM.run
  dsimp only
  rcases h : f r.workspace.vocabulary r.source with ⟨_ | _, s⟩
  · exact error _ s h
  · exact ok _ s h

theorem peek_scopes (h : Scoped base parameters r) :
    Outcome peek r
      (fun t r' => Reads base parameters r r' [] ∧ r'.source.peeked = some t)
      fun _ r' => Stopped base parameters r' := by
  refine outcome_onSource (fun t s hp => ?_) fun _ _ _ => ⟨h.same_base, h.stopped.closed⟩
  obtain ⟨hs, ht⟩ := Source.peek_ok hp
  refine ⟨.of_source h rfl rfl fun hf u hu => ?_, hs⟩
  obtain rfl : t = u := Option.some.inj (hs.symm.trans hu)
  rcases ht with ht | ht
  · exact h.sound hf t ht
  · exact ht

theorem take_scopes (h : Scoped base parameters r) :
    Outcome take r
      (fun t r' => Reads base parameters r r' [] ∧ r'.source.peeked = none ∧
        r'.workspace = r.workspace ∧ (r.free.isSome → t.Sound r.workspace.vocabulary))
      fun _ r' => Stopped base parameters r' := by
  refine outcome_onSource (fun t s hp => ?_) fun _ _ _ => ⟨h.same_base, h.stopped.closed⟩
  obtain ⟨hs, ht⟩ := Source.take_ok hp
  refine ⟨.of_source h rfl rfl fun _ u hu => ?_, hs, rfl, fun hf => ?_⟩
  · rw [hs] at hu
    simp at hu
  · rcases ht with ht | ht
    · exact h.sound hf t ht
    · exact ht

theorem peekKind_scopes : Scopes base parameters peekKind fun _ => [] := by
  intro r h
  exact .bind (peek_scopes h) fun _ _ k => .pure k.1

theorem discard_scopes (h : Scoped base parameters r) :
    Outcome discard r
      (fun _ r' => Reads base parameters r r' [] ∧ r'.source.peeked = none ∧
        r'.workspace = r.workspace)
      fun _ r' => Stopped base parameters r' :=
  .bind (take_scopes h) fun _ _ k => .pure ⟨k.1, k.2.1, k.2.2.1⟩

theorem reject_scopes (h : Scoped base parameters r) (t : Token) (cause : ParseError.Cause)
    (expected : List String) {Q : α → Reader → Prop} :
    Outcome (reject t cause expected) r Q fun _ r' => Stopped base parameters r' :=
  .throw h.stopped

theorem expect_scopes (kind : TokenKind) (what : String) :
    Scopes base parameters (expect kind what) fun _ => [] := by
  intro r h
  refine .bind (take_scopes h) fun t r₁ k => ?_
  dsimp only
  split
  · exact reject_scopes k.1.scope ..
  · exact .pure k.1

theorem endOfLine_scopes : Scopes base parameters endOfLine fun _ => [] := by
  intro r h
  refine .bind (take_scopes h) fun t r₁ ⟨k, _⟩ => ?_
  split
  · exact .pure k
  · exact reject_scopes k.scope ..

theorem remaining_scopes : Scopes base parameters remaining fun _ => [] := by
  intro r h
  exact .get (.pure (.of_source h rfl rfl h.sound))

/-! ## § Operands -/

theorem numeral_scopes (t : Token) : Scopes base parameters (numeral t) fun e => [e] := by
  intro r h
  unfold numeral
  refine .get ?_
  split
  · exact .pure (.leaf (.of_source h rfl rfl h.sound) rfl nofun nofun rfl rfl)
  · exact reject_scopes h ..
  · exact .throw h.stopped

theorem quoted_scopes (t : Token) : Scopes base parameters (quoted t) fun e => [e] := by
  intro r h
  unfold quoted
  split
  · exact .pure (.leaf (.of_source h rfl rfl h.sound) rfl nofun nofun rfl rfl)
  · exact .pure (.leaf (.of_source h rfl rfl h.sound) rfl nofun nofun rfl rfl)
  · exact .throw h.stopped
  · exact .throw h.stopped

theorem nameUse_scopes (h : Scoped base parameters r) {t : Token} (hk : t.kind = .identifier)
    (ht : r.free.isSome → t.Sound r.workspace.vocabulary) :
    Outcome (nameUse t.text) r (fun e r' => Reads base parameters r r' [e])
      fun _ r' => Stopped base parameters r' := by
  have line (hf : r.free.isSome) : '\n' ∉ t.text.toList := (ht hf).no_feed (.inl hk)
  unfold nameUse
  refine .get ?_
  split
  next slot hs => exact .pure (.slot h hs line)
  next hs =>
    refine .set (.pure (.free_use h (fun hf => ?_) line))
    have undeclared : t.text ∉ r.workspace.declared := by
      intro hm
      rw [Workspace.slotOf?, Option.map_eq_none_iff, List.findIdx?_eq_none_iff] at hs
      simpa using hs _ hm
    refine ((ht hf).identifier hk).imp_right fun ho => ?_
    rw [← h.same_base.knowsName]
    have hw : r.workspace.isOperatorName t.text = false := ho
    rw [Workspace.isOperatorName_eq, Workspace.isDeclared] at hw
    simpa [undeclared] using hw

theorem item?_scopes {expr : Reading Expr} (he : Scopes base parameters expr fun e => [e]) :
    Scopes base parameters (item? expr) Option.toList := by
  intro r h
  unfold item?
  refine .bind (peek_scopes h) fun t r₁ ⟨k, hp⟩ => ?_
  have literal {x : Reading Expr} (hx : Scopes base parameters x fun e => [e]) :
      Outcome (do discard; return some (← x)) r₁
        (fun e r' => Reads base parameters r r' e.toList)
        fun _ r' => Stopped base parameters r' :=
    .bind (discard_scopes k.scope) fun _ _ ⟨l, _⟩ =>
      .bind (hx _ l.scope) fun _ _ m => .pure (k.trans (l.trans m))
  split
  · exact literal (numeral_scopes t)
  · exact literal (numeral_scopes t)
  · exact literal (numeral_scopes t)
  · exact literal (quoted_scopes t)
  next hk =>
    refine .bind (discard_scopes k.scope) fun _ r₂ ⟨l, _, hw⟩ => ?_
    refine .bind (nameUse_scopes l.scope hk fun hf => ?_) fun _ _ m => .pure (k.trans (l.trans m))
    rw [hw]
    exact k.scope.sound (by rwa [← l.defining]) t hp
  next =>
    refine .bind (discard_scopes k.scope) fun _ r₂ ⟨l, _⟩ => ?_
    refine .bind (he r₂ l.scope) fun e r₃ m => ?_
    refine .bind (expect_scopes _ _ r₃ m.scope) fun _ r₄ n => .pure ?_
    exact k.trans (l.trans (m.trans n))
  next => exact .pure k

theorem items_scopes {expr : Reading Expr} (he : Scopes base parameters expr fun e => [e])
    (count : Nat) : Scopes base parameters (items expr count) id := by
  induction count with
  | zero =>
    intro r h
    exact .pure (.of_source h rfl rfl h.sound)
  | succ count ih =>
    intro r h
    refine .bind (item?_scopes he r h) fun e r₁ k => ?_
    cases e with
    | none => exact .pure k
    | some e => exact .bind (ih r₁ k.scope) fun es r₂ l => .pure (k.trans l)

theorem afterSubscript_scopes {others : Reading (List Expr)} {r₀ : Reader}
    (ho : Scopes base parameters others id) (e : Expr) (l : Reads base parameters r₀ r [e]) :
    Outcome (afterSubscript others e) r (fun es r' => Reads base parameters r₀ r' es)
      fun _ r' => Stopped base parameters r' := by
  refine .bind (take_scopes l.scope) fun t r₁ ⟨m, _⟩ => ?_
  have read := l.trans m
  split
  · exact .pure read
  · exact .bind (ho r₁ m.scope) fun es r₂ n => .pure (read.trans n)
  · exact reject_scopes m.scope ..

theorem subscripts_scopes {expr : Reading Expr} (he : Scopes base parameters expr fun e => [e])
    (count : Nat) : Scopes base parameters (subscripts expr count) id := by
  induction count with
  | zero =>
    intro r h
    exact .pure (.of_source h rfl rfl h.sound)
  | succ count ih =>
    intro r h
    rw [subscripts_succ]
    refine .bind (peekKind_scopes r h) fun kind r₁ k => ?_
    split
    · exact afterSubscript_scopes ih .empty (k.leaf rfl nofun nofun rfl rfl)
    · exact .bind (he r₁ k.scope) fun e r₂ l => afterSubscript_scopes ih e (k.trans l)

theorem indices_scopes {expr : Reading Expr} (he : Scopes base parameters expr fun e => [e])
    (count : Nat) (e : Expr) (h : Reads base parameters r r' [e]) :
    Outcome (indices expr count e) r' (fun e r'' => Reads base parameters r r'' [e])
      fun _ r'' => Stopped base parameters r'' := by
  induction count generalizing e r' with
  | zero => exact .pure h
  | succ count ih =>
    refine .bind (peekKind_scopes r' h.scope) fun kind r₁ k => ?_
    split
    · refine .bind (discard_scopes k.scope) fun _ r₂ ⟨l, _⟩ => ?_
      refine .bind (remaining_scopes r₂ l.scope) fun n r₃ m => ?_
      refine .bind (subscripts_scopes he n r₃ m.scope) fun es r₄ o => ?_
      have read := h.trans (k.trans (l.trans (m.trans o)))
      exact ih _ (read.wrap (by simp [Expr.nodes, Expr.nodesOf]) nofun nofun
        (by simp [Expr.applied, Expr.words]))
    · exact .pure (by simpa using h.trans k)

theorem primary_scopes {expr : Nat → Reading Expr}
    (he : ∀ toll, Scopes base parameters (expr toll) fun e => [e]) :
    Scopes base parameters (primary expr) fun e => [e] := by
  intro r h
  refine .bind (remaining_scopes r h) fun n r₁ k => ?_
  refine .bind (items_scopes (he 2) n r₁ k.scope) fun es r₂ l => ?_
  have read := k.trans l
  split
  · exact .bind (peek_scopes l.scope) fun t r₃ ⟨m, _⟩ => reject_scopes m.scope ..
  · refine .bind (remaining_scopes r₂ l.scope) fun n r₃ m => ?_
    exact indices_scopes (he 3) n _ (read.trans m)
  · refine .bind (remaining_scopes r₂ l.scope) fun n r₃ m => ?_
    refine indices_scopes (he 3) n _ (.wrap (read.trans m) ?_ nofun nofun
      (by simp [Expr.applied, Expr.words]))
    simp [Expr.nodes]

/-! ## § Expressions -/

/-- What is known of the words that can be applied in a definition. -/
theorem applied_of_peeked (h : Scoped base parameters r) {t : Token}
    (hp : r.source.peeked = some t) (hk : t.kind = .operator) {w : Workspace}
    (hw : w = r.workspace) (hf : r.free.isSome) :
    (isUnary w t.text = true →
      ∀ s ∈ OperatorWord.needs t.text .unary, base.Knows s = true ∧ s.name ∉ parameters) ∧
    (isBinary w t.text = true →
      ∀ s ∈ OperatorWord.needs t.text .binary, base.Knows s = true ∧ s.name ∉ parameters) ∧
    ∀ word ∈ [t.text], '\n' ∉ word.toList := by
  subst hw
  have derivable := (h.sound hf t hp).operator hk
  exact ⟨h.needs_unary derivable, h.needs_binary derivable, by simpa using derivable.no_feed⟩

theorem operand_scopes {expr : Nat → Reading Expr}
    (he : ∀ toll, Scopes base parameters (expr toll) fun e => [e]) :
    Scopes base parameters (operand expr) fun e => [e] := by
  intro r h
  refine .bind (peek_scopes h) fun t r₁ ⟨k, hp⟩ => ?_
  split
  next hk =>
    refine .bind (discard_scopes k.scope) fun _ r₂ ⟨l, _, hw⟩ => .get ?_
    split
    next hu =>
      refine .bind (he 1 r₂ l.scope) fun e r₃ m => .pure ?_
      refine (k.trans (l.trans m)).wrap (by simp [Expr.nodes, Expr.nodesOf]) nofun nofun fun hf => ?_
      obtain ⟨unary, -, line⟩ := applied_of_peeked k.scope hp hk hw (k.defining ▸ hf)
      exact ⟨unary hu, line⟩
    next => exact reject_scopes l.scope ..
  next =>
    refine (primary_scopes he r₁ k.scope).mono (fun e r₂ l => k.trans l) fun _ _ h => h

theorem assignmentTarget_scopes {e : Expr} (h : Reads base parameters r r' [e])
    (hp : r'.source.peeked = none) :
    Outcome (assignmentTarget e) r' (fun e' r'' => Reads base parameters r r'' [e'])
      fun _ r'' => Stopped base parameters r'' := by
  unfold assignmentTarget
  refine .get ?_
  split
  next seen name hf =>
    split
    · exact .pure h
    · obtain ⟨slot, hs⟩ := r'.workspace.exists_slotOf?_declare name
      refine .set (.pure ?_)
      rw [hs]
      exact h.declare hf hp hs
  next => exact .pure h

theorem afterOperand_scopes {expr : Reading Expr} {r₀ : Reader} {left : Expr}
    (he : Scopes base parameters expr fun e => [e]) (k : Reads base parameters r₀ r [left]) :
    Outcome (afterOperand expr left) r (fun e r' => Reads base parameters r₀ r' [e])
      fun _ r' => Stopped base parameters r' := by
  refine .bind (peek_scopes k.scope) fun t r₂ ⟨l, hp⟩ => ?_
  have read := k.trans l
  rw [List.append_nil] at read
  split
  · refine .bind (discard_scopes l.scope) fun _ r₃ ⟨m, hn, _⟩ => ?_
    split
    · refine .bind (assignmentTarget_scopes (by simpa using read.trans m) hn) fun target r₄ n => ?_
      refine .bind (he r₄ n.scope) fun value r₅ o => .pure ?_
      exact (n.trans o).wrap (by simp [Expr.nodes, Expr.nodesOf]) (by simp) (by simp)
        (by simp [Expr.applied, Expr.words])
    · exact reject_scopes m.scope ..
  · split
    next hk =>
      refine .bind (discard_scopes l.scope) fun _ r₃ ⟨m, _, hw⟩ => .get ?_
      split
      next hb =>
        refine .bind (he r₃ m.scope) fun right r₄ n => .pure ?_
        refine (read.trans (m.trans n)).wrap (by simp [Expr.nodes, Expr.nodesOf]) (by simp)
          (by simp) fun hf => ?_
        obtain ⟨-, binary, line⟩ := applied_of_peeked l.scope hp hk hw (read.defining ▸ hf)
        exact ⟨binary hb, line⟩
      next => exact reject_scopes m.scope ..
    next =>
      split
      · exact .pure read
      · exact reject_scopes l.scope ..

theorem takeTokens_scopes (count : Nat) :
    Scopes base parameters (takeTokens count) fun _ => [] := by
  induction count with
  | zero =>
    intro r h
    exact .pure (.of_source h rfl rfl h.sound)
  | succ count ih =>
    intro r h
    refine .bind (peekKind_scopes r h) fun kind r₁ k => ?_
    split
    · exact .pure k
    · refine .bind (discard_scopes k.scope) fun _ r₂ ⟨l, _⟩ => ?_
      exact (ih r₂ l.scope).mono (fun _ _ m => k.trans (l.trans m)) fun _ _ h => h

theorem afterStatement_scopes {others : Reading (List Expr)} {r₀ : Reader}
    (ho : Scopes base parameters others id) (e : Expr) (l : Reads base parameters r₀ r [e]) :
    Outcome (afterStatement others e) r (fun es r' => Reads base parameters r₀ r' es)
      fun _ r' => Stopped base parameters r' := by
  refine .bind (peekKind_scopes r l.scope) fun kind r₁ m => ?_
  have read := l.trans m
  split
  · exact .pure read
  · refine .bind (discard_scopes m.scope) fun _ r₂ ⟨n, _⟩ => ?_
    refine .bind (peekKind_scopes r₂ n.scope) fun kind r₃ o => ?_
    split
    · exact .pure (read.trans (n.trans o))
    · exact .bind (ho r₃ o.scope) fun es r₄ p => .pure (read.trans (n.trans (o.trans p)))

variable [Machine]

theorem giveUp_scopes (missing : Nat) : Scopes base parameters (giveUp missing) fun e => [e] := by
  intro r h
  exact .get (.bind (takeTokens_scopes _ r h) fun _ _ k => .throw k.scope.stopped)

theorem expression_scopes (depth toll : Nat) :
    Scopes base parameters (expression depth toll) fun e => [e] := by
  induction depth generalizing toll with
  | zero => exact giveUp_scopes toll
  | succ depth ih =>
    cases toll with
    | succ toll => exact ih toll
    | zero =>
      intro r h
      exact .bind (operand_scopes ih r h) fun left r₁ k => afterOperand_scopes (ih 0) k

/-! ## § Statements -/

theorem outermost_scopes : Scopes base parameters outermost fun e => [e] :=
  fun r h => .get (expression_scopes _ _ r h)

theorem statement_scopes : Scopes base parameters statement fun e => [e] := by
  intro r h
  refine .bind (outermost_scopes r h) fun e r₁ k => ?_
  refine .bind (peekKind_scopes r₁ k.scope) fun kind r₂ l => ?_
  split
  · refine .bind (discard_scopes l.scope) fun _ r₃ ⟨m, _⟩ => ?_
    refine .bind (outermost_scopes r₃ m.scope) fun result r₄ n => .pure ?_
    exact (k.trans (l.trans (m.trans n))).wrap (by simp [Expr.nodes, Expr.nodesOf]) nofun nofun
      (by simp [Expr.applied, Expr.words])
  · exact .pure (by simpa using k.trans l)

theorem statementsUpTo_scopes (count : Nat) :
    Scopes base parameters (statementsUpTo count) id := by
  induction count with
  | zero =>
    intro r h
    exact .pure (.of_source h rfl rfl h.sound)
  | succ count ih =>
    intro r h
    rw [statementsUpTo_succ]
    refine .bind (peekKind_scopes r h) fun kind r₁ k => ?_
    split
    · exact afterStatement_scopes ih .empty (k.leaf rfl nofun nofun rfl rfl)
    · exact .bind (statement_scopes r₁ k.scope) fun e r₂ l => afterStatement_scopes ih e (k.trans l)

theorem statements_scopes : Scopes base parameters statements id := by
  intro r h
  refine .bind (remaining_scopes r h) fun n r₁ k => ?_
  exact (statementsUpTo_scopes n r₁ k.scope).mono (fun es r₂ l => k.trans l) fun _ _ h => h

end ArrayCalc.Reading
