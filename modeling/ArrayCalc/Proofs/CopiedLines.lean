import ArrayCalc.Proofs.Definitions
import ArrayCalc.Proofs.Mirrors

/-!
# Reading a copied line

What holds of expressions holds of a whole definition on one line.  The names in its head are read
without regard to what they mean, so they may be words of operators in one of the workspaces and not
in the other.
-/

namespace ArrayCalc.Reading

open OperatorWord (Usable)

variable {base base' : Workspace} {tail : List Char} {r r' r₁ r₂ : Reader} {a b : Token}
  {e : Expr} {α β : Type}

/-- A reader that has come to the end of an expression. -/
def AtEnd (r : Reader) : Prop := ∃ t, r.source.peeked = some t ∧ t.kind.endsExpression = true

/-! ## § Statements -/

/-- A statement is an expression, or two with a colon between them. -/
theorem statement_cases [Machine] (hx : statement.run r = .ok e r₁) :
    ∃ first t r₂, outermost.run r = .ok first r₂ ∧ r₂.source.peeked = some t ∧
      ((t.kind = .colon ∧ ∃ result, outermost.run (taken r₂ t) = .ok result r₁ ∧
          e = .conditional first result) ∨
        (t.kind ≠ .colon ∧ e = first ∧ r₁ = r₂)) := by
  obtain ⟨first, r₂, hf, hx⟩ := bind_ok hx
  obtain ⟨t, hp, -⟩ := expression_ends hf
  refine ⟨first, t, r₂, hf, hp, ?_⟩
  rw [run_peekKind_bind (peek_again hp)] at hx
  split at hx
  next hk =>
    rw [run_bind (discard_run hp)] at hx
    obtain ⟨result, r₃, hr, hx⟩ := bind_ok hx
    obtain ⟨rfl, rfl⟩ := pure_ok hx
    exact .inl ⟨hk, result, hr, rfl⟩
  next hk =>
    obtain ⟨rfl, rfl⟩ := pure_ok hx
    exact .inr ⟨hk, rfl, rfl⟩

theorem statement_ends [Machine] (hx : statement.run r = .ok e r₁) : AtEnd r₁ := by
  obtain ⟨first, t, r₂, hf, -, ⟨-, result, hr, -⟩ | ⟨-, -, rfl⟩⟩ := statement_cases hx
  · exact expression_ends hr
  · exact expression_ends hf

theorem statement_mirrored [Machine] (p : base.Poorer base') (h : Twins base base' tail r r')
    (hx : statement.run r = .ok e r₁) (hg : ∀ node ∈ e.nodes, node.Granted base') :
    Mirrored base base' tail statement r' e r₁ ∧ r₁.source.left ≤ r.source.left := by
  have he : Mirrors base base' tail outermost := outermost_mirrors p
  obtain ⟨first, t, r₂, hf, hp, ⟨hk, result, hr, rfl⟩ | ⟨hk, rfl, rfl⟩⟩ := statement_cases hx
  · have ha : t.kind.isLineEnd = false := by rw [hk]; rfl
    obtain ⟨⟨r₂', hf', twins⟩, le⟩ := he.mirrored h hf
      fun node hm => hg node (by simp [Expr.nodes, hm])
    obtain ⟨b, hp', alike⟩ := twins.source.alike hp
    obtain ⟨twins₂, lt⟩ := twins_taken twins hp ha b
    obtain ⟨⟨r₁', hr', twins₁⟩, le₁⟩ := he.mirrored twins₂ hr
      fun node hm => hg node (by simp [Expr.nodes, hm])
    refine ⟨⟨r₁', ?_, twins₁⟩, by omega⟩
    unfold statement
    rw [run_bind hf', run_peekKind_bind (peek_again hp'),
      if_pos ((alike.kind_iff rfl).2 hk), run_bind (discard_run hp'), run_bind hr']
    rfl
  · obtain ⟨⟨r₂', hf', twins⟩, le⟩ := he.mirrored h hf hg
    obtain ⟨b, hp', alike⟩ := twins.source.alike hp
    refine ⟨⟨r₂', ?_, twins⟩, le⟩
    unfold statement
    rw [run_bind hf', run_peekKind_bind (peek_again hp'),
      if_neg fun e => hk ((alike.kind_iff rfl).1 e)]
    rfl

theorem statement_first [Machine] (hp : r.source.peeked = some a) (hk : a.kind = .operator)
    (hx : statement.run r = .ok e r₁) : ∃ right, .unary a.text right ∈ e.nodes := by
  obtain ⟨first, t, r₂, hf, -, cases⟩ := statement_cases hx
  obtain ⟨right, hm⟩ := expression_first hp hk hf
  refine ⟨right, ?_⟩
  obtain ⟨-, result, -, rfl⟩ | ⟨-, rfl, -⟩ := cases
  · simp [Expr.nodes, hm]
  · exact hm

/-- Behind a statement the line ends, at a semicolon or without one, or further statements
follow. -/
theorem afterStatement_cases {others : Reading (List Expr)} {es : List Expr}
    (hx : (afterStatement others e).run r = .ok es r₁) :
    ∃ t r₂, peek.run r = .ok t r₂ ∧
      ((t.kind ≠ .semicolon ∧ es = [e] ∧ r₁ = r₂) ∨
        (t.kind = .semicolon ∧ ∃ u r₃, peek.run (taken r₂ t) = .ok u r₃ ∧
          ((u.kind.isLineEnd = true ∧ es = [e] ∧ r₁ = r₃) ∨
            (u.kind.isLineEnd = false ∧ ∃ rest, others.run r₃ = .ok rest r₁ ∧
              es = e :: rest)))) := by
  obtain ⟨kind, r₂, hkind, hx⟩ := bind_ok hx
  obtain ⟨t, ht, rfl⟩ := peekKind_inv hkind
  refine ⟨t, r₂, ht, ?_⟩
  split at hx
  next hk => exact .inl ⟨hk, pure_ok hx⟩
  next hk =>
    rw [run_bind (discard_run (peeked_of_peek ht))] at hx
    obtain ⟨kind, r₃, hkind, hx⟩ := bind_ok hx
    obtain ⟨u, hu, rfl⟩ := peekKind_inv hkind
    refine .inr ⟨Decidable.not_not.1 hk, u, r₃, hu, ?_⟩
    split at hx
    next ends => exact .inl ⟨ends, pure_ok hx⟩
    next inner =>
      obtain ⟨rest, r₄, hrest, hx⟩ := bind_ok hx
      obtain ⟨rfl, rfl⟩ := pure_ok hx
      exact .inr ⟨Bool.not_eq_true _ ▸ inner, rest, hrest, rfl⟩

theorem afterStatement_head {others : Reading (List Expr)} {es : List Expr}
    (hx : (afterStatement others e).run r = .ok es r₁) : ∃ rest, es = e :: rest := by
  obtain ⟨t, r₂, -, ⟨-, rfl, -⟩ | ⟨-, u, r₃, -, ⟨-, rfl, -⟩ | ⟨-, rest, -, rfl⟩⟩⟩ :=
    afterStatement_cases hx
  · exact ⟨[], rfl⟩
  · exact ⟨[], rfl⟩
  · exact ⟨rest, rfl⟩

/-- An operator that a line starts with is applied in its first statement. -/
theorem statementsUpTo_first [Machine] {count : Nat} {es : List Expr} (hp : r.source.peeked = some a)
    (hk : a.kind = .operator) (hx : (statementsUpTo (count + 1)).run r = .ok es r₁) :
    ∃ right, .unary a.text right ∈ Expr.nodesOf es := by
  rw [statementsUpTo_succ, run_peekKind_bind (peek_again hp), if_neg (by rw [hk]; decide)] at hx
  obtain ⟨e, r₂, he, hx⟩ := bind_ok hx
  obtain ⟨right, hm⟩ := statement_first hp hk he
  obtain ⟨rest, rfl⟩ := afterStatement_head hx
  exact ⟨right, by simp [Expr.nodesOf, hm]⟩

theorem afterStatement_mirrored (p : base.Poorer base') {others others' : Reading (List Expr)}
    {es : List Expr} (h : Twins base base' tail r r') (hend : AtEnd r)
    (hx : (afterStatement others e).run r = .ok es r₁)
    (hg : ∀ node ∈ Expr.nodesOf es, node.Granted base')
    (first : ∀ {r₂ a rest}, r₂.source.left < r.source.left → r₂.source.peeked = some a →
      a.kind = .operator → others.run r₂ = .ok rest r₁ →
      ∃ right, .unary a.text right ∈ Expr.nodesOf rest)
    (ho : ∀ {r₂ r₂' rest}, r₂.source.left < r.source.left → Twins base base' tail r₂ r₂' →
      others.run r₂ = .ok rest r₁ → (∀ node ∈ Expr.nodesOf rest, node.Granted base') →
      Mirrored base base' tail others' r₂' rest r₁ ∧ AtEnd r₁) :
    Mirrored base base' tail (afterStatement others' e) r' es r₁ ∧ AtEnd r₁ := by
  obtain ⟨t, hp, ends⟩ := hend
  obtain ⟨b, hp', alike⟩ := h.source.alike hp
  unfold Mirrored afterStatement
  rw [run_peekKind_bind (peek_again hp')]
  obtain ⟨t', r₂, ht', cases⟩ := afterStatement_cases hx
  obtain ⟨rfl, rfl⟩ := pure_ok ((peek_again hp).symm.trans ht').symm
  obtain ⟨hk, rfl, rfl⟩ | ⟨hk, u, r₃, hu, cases⟩ := cases
  · rw [if_pos fun e => hk ((alike.kind_iff rfl).1 e)]
    exact ⟨⟨r', rfl, h⟩, t, hp, ends⟩
  obtain ⟨twins, lt⟩ := twins_taken h hp (by rw [hk]; rfl) b
  rw [if_neg (Decidable.not_not.2 ((alike.kind_iff rfl).2 hk)), run_bind (discard_run hp')]
  obtain ⟨lineEnd, rfl, rfl⟩ | ⟨inner, rest, hrest, rfl⟩ := cases
  · obtain ⟨c, r₃', hc, alike', twins₃, hpu, -, -⟩ := twins_peek p twins hu
      fun e => by rw [e] at lineEnd; exact nomatch lineEnd
    rw [run_peekKind_bind hc, if_pos (alike'.isLineEnd.trans lineEnd)]
    exact ⟨⟨r₃', rfl, twins₃⟩, u, hpu, TokenKind.endsExpression_of_isLineEnd lineEnd⟩
  · simp only [Expr.nodesOf, List.forall_mem_append] at hg
    have lt₃ : r₃.source.left < r.source.left := Nat.lt_of_le_of_lt (left_peek_le hu) lt
    obtain ⟨c, r₃', hc, alike', twins₃, -, -, -⟩ := twins_peek p twins hu fun hk => by
      obtain ⟨right, hm⟩ := first lt₃ (peeked_of_peek hu) hk hrest
      exact ⟨.unary, (hg.2 _ hm).1⟩
    obtain ⟨⟨r₁', hrest', twins₁⟩, hend⟩ := ho lt₃ twins₃ hrest hg.2
    rw [run_peekKind_bind hc, if_neg (by rw [alike'.isLineEnd, inner]; decide)]
    refine ⟨⟨r₁', ?_, twins₁⟩, hend⟩
    rw [run_bind hrest']
    rfl

theorem statementsUpTo_mirrored [Machine] (p : base.Poorer base') {count count' : Nat}
    (hc : r.source.left < count) (hle : count ≤ count') (h : Twins base base' tail r r')
    {es : List Expr} (hx : (statementsUpTo count).run r = .ok es r₁)
    (hg : ∀ node ∈ Expr.nodesOf es, node.Granted base') :
    Mirrored base base' tail (statementsUpTo count') r' es r₁ ∧ AtEnd r₁ := by
  induction count generalizing count' r r' es r₁ with
  | zero => omega
  | succ count ih =>
    obtain ⟨count', rfl⟩ := Nat.exists_eq_succ_of_ne_zero (show count' ≠ 0 by omega)
    rw [statementsUpTo_succ] at hx
    obtain ⟨kind, r₂, hkind, hx⟩ := bind_ok hx
    obtain ⟨t, ht, rfl⟩ := peekKind_inv hkind
    have hp := peeked_of_peek ht
    have usable (hk : t.kind = .operator) : Usable (fun s => base'.Knows s = true) t.text := by
      rw [hk, if_neg (by decide)] at hx
      obtain ⟨e, r₃, hr, hx⟩ := bind_ok hx
      obtain ⟨rest, rfl⟩ := afterStatement_head hx
      obtain ⟨right, hm⟩ := statement_first hp hk hr
      exact usable_of_first hg ⟨right, by simp [Expr.nodesOf, hm]⟩
    obtain ⟨b, r₂', ht', alike, twins, -, hp', le⟩ := twins_peek p h ht usable
    have run' : (statementsUpTo (count' + 1)).run r' =
        (if t.kind = .semicolon then afterStatement (statementsUpTo count') .empty
        else statement >>= afterStatement (statementsUpTo count')).run r₂' := by
      rw [statementsUpTo_succ, run_peekKind_bind ht']
      simp only [alike.kind_iff (show TokenKind.semicolon.isLineEnd = false from rfl)]
    -- Both ways lead to what is read behind a statement, with less than before left to read.
    have behind {e : Expr} {r₃ r₃' : Reader} (le : r₃.source.left ≤ r.source.left)
        (h : Twins base base' tail r₃ r₃') (hend : AtEnd r₃)
        (hx : (afterStatement (statementsUpTo count) e).run r₃ = .ok es r₁) :
        Mirrored base base' tail (afterStatement (statementsUpTo count') e) r₃' es r₁ ∧
          AtEnd r₁ := by
      refine afterStatement_mirrored p h hend hx hg ?_ ?_
      · intro r₄ a rest lt hp hk hx
        obtain ⟨n, rfl⟩ := Nat.exists_eq_succ_of_ne_zero (show count ≠ 0 by omega)
        exact statementsUpTo_first hp hk hx
      · intro r₄ r₄' rest lt twins hx hg
        exact ih (by omega) (by omega) twins hx hg
    split at hx
    next cond =>
      have hend : AtEnd r₂ := ⟨t, hp, by rw [cond]; rfl⟩
      obtain ⟨⟨r₁', hr', twins'⟩, hend⟩ := behind le twins hend hx
      rw [if_pos cond] at run'
      exact ⟨⟨r₁', run'.trans hr', twins'⟩, hend⟩
    next cond =>
      obtain ⟨e, r₃, hr, hx⟩ := bind_ok hx
      obtain ⟨rest, rfl⟩ := afterStatement_head hx
      obtain ⟨⟨r₃', hr', twins₃⟩, le₃⟩ := statement_mirrored p twins hr
        fun node hm => hg node (by simp [Expr.nodesOf, hm])
      obtain ⟨⟨r₁', hr₁', twins'⟩, hend⟩ := behind (by omega) twins₃ (statement_ends hr) hx
      rw [if_neg cond, run_bind hr'] at run'
      exact ⟨⟨r₁', run'.trans hr₁', twins'⟩, hend⟩

theorem statements_mirrored [Machine] (p : base.Poorer base') (h : Twins base base' tail r r')
    {es : List Expr} (hx : statements.run r = .ok es r₁)
    (hg : ∀ node ∈ Expr.nodesOf es, node.Granted base') :
    Mirrored base base' tail statements r' es r₁ ∧ AtEnd r₁ := by
  unfold statements at hx
  rw [run_bind (remaining_run _)] at hx
  obtain ⟨⟨r₁', hr', twins⟩, hend⟩ := statementsUpTo_mirrored p (Source.left_lt_remaining _)
    h.source.remaining_le h hx hg
  refine ⟨⟨r₁', ?_, twins⟩, hend⟩
  unfold statements
  rw [run_bind (remaining_run _)]
  exact hr'

theorem statements_first [Machine] {es : List Expr} (hp : r.source.peeked = some a)
    (hk : a.kind = .operator) (hx : statements.run r = .ok es r₁) :
    ∃ right, .unary a.text right ∈ Expr.nodesOf es := by
  unfold statements at hx
  rw [run_bind (remaining_run _)] at hx
  exact statementsUpTo_first hp hk hx

/-! ## § Lines -/

/-- Where the copied line ends, the copy goes on with the next one. -/
theorem endOfLine_mirrored (h : Twins base base' tail r r') (hend : AtEnd r)
    (hx : endOfLine.run r = .ok a r₁) :
    ∃ b r₁', endOfLine.run r' = .ok b r₁' ∧ r₁'.source.StartsLine tail ∧
      r₁'.workspace = r'.workspace ∧ r₁'.free = r'.free ∧
      r₁.workspace = r.workspace ∧ r₁.free = r.free := by
  obtain ⟨t, hp, -⟩ := hend
  unfold endOfLine at hx
  rw [run_bind (take_run hp)] at hx
  split at hx
  next ha =>
    obtain ⟨rfl, rfl⟩ := pure_ok hx
    cases h.source with
    | fresh _ hs => exact nomatch hs.symm.trans hp
    | inner _ hs _ ha' =>
      obtain rfl := Option.some.inj (hs.symm.trans hp)
      rw [ha] at ha'
      exact nomatch ha'
    | @lineEnd _ b passed hs hp' _ hb =>
      refine ⟨b, taken r' b, ?_, ⟨passed.rest, passed.previous, rfl⟩, rfl, rfl, rfl, rfl⟩
      unfold endOfLine
      rw [run_bind (take_run hp'), if_pos hb]
      rfl
  next => exact (reject_ne_ok hx).elim

/-- Where the scanner is at its end, no lines of a body follow. -/
theorem bodyLines_finished [Machine] {count : Nat} {es : List Expr} (hr : r.source.scanner.rest = [])
    (hp : r.source.peeked = none) (hx : (bodyLines count).run r = .ok es r₁) : es = [] := by
  cases count with
  | zero => exact (pure_ok hx).1
  | succ count =>
    obtain ⟨kind, r₂, hkind, hx⟩ := bind_ok hx
    obtain ⟨t, ht, rfl⟩ := peekKind_inv hkind
    have ends : t.kind = .endOfInput := by
      obtain ⟨s, hs, -⟩ := peek_inv ht
      rcases Source.peek_cases hs with ⟨hpeeked, -⟩ | ⟨-, scanner, hn, -⟩
      · exact nomatch hp.symm.trans hpeeked
      · have le := r.source.scanner.length_skipBlanks_le
        rw [hr, List.length_nil, Nat.le_zero, List.length_eq_zero_iff] at le
        rcases Scanner.next_cases hn with ⟨-, hk, -⟩ | ⟨c, rest, n, hc, -⟩
        · exact hk
        · exact nomatch le.symm.trans hc
    rw [if_pos (by rw [ends]; rfl)] at hx
    obtain ⟨-, r₃, -, hx⟩ := bind_ok hx
    exact (pure_ok hx).1

/-- A body that has been read from the rest of a line. -/
theorem body_mirrored [Machine] (p : base.Poorer base') (h : Twins base base' tail r r')
    {es : List Expr} (hx : body.run r = .ok es r₁) (hg : ∀ node ∈ Expr.nodesOf es, node.Granted base') :
    ∃ r₁', body.run r' = .ok es r₁' ∧ r₁'.source.StartsLine tail ∧
      base.SameBase r₁.workspace ∧ base'.SameBase r₁'.workspace ∧
      r₁'.workspace.declared = r₁.workspace.declared ∧ r₁'.free = r₁.free := by
  obtain ⟨kind, r₂, hkind, hx⟩ := bind_ok hx
  obtain ⟨t, ht, rfl⟩ := peekKind_inv hkind
  have hp := peeked_of_peek ht
  by_cases ha : t.kind.isLineEnd = true
  · -- Nothing is left on the line, so the body would be empty.
    obtain ⟨b, r₂', -, -, twins, -, -, -⟩ := twins_peek p h ht fun e => by
      rw [e] at ha
      exact nomatch ha
    rw [if_pos ha, run_bind (discard_run hp), run_bind (remaining_run _)] at hx
    have finished : r₂.source.scanner.rest = [] := by
      cases twins.source with
      | fresh _ hs => exact nomatch hs.symm.trans hp
      | inner _ hs _ ha' =>
        obtain rfl := Option.some.inj (hs.symm.trans hp)
        rw [ha] at ha'
        exact nomatch ha'
      | lineEnd passed => exact passed.finished
    obtain ⟨es', r₃, hes, hx⟩ := bind_ok hx
    obtain rfl := bodyLines_finished (r := taken r₂ t) finished rfl hes
    exact nomatch hx
  · rw [if_neg ha] at hx
    obtain ⟨es', r₃, hes, hx⟩ := bind_ok hx
    obtain ⟨u, r₄, hu, hx⟩ := bind_ok hx
    obtain ⟨rfl, rfl⟩ := pure_ok hx
    obtain ⟨b, r₂', ht', alike, twins, -⟩ := twins_peek p h ht fun hk =>
      usable_of_first hg (statements_first hp hk hes)
    obtain ⟨⟨r₃', hes', twins₃⟩, hend⟩ := statements_mirrored p twins hes hg
    obtain ⟨c, r₄', hu', starts, hw', hf', hw, hf⟩ := endOfLine_mirrored twins₃ hend hu
    have inner : ¬b.kind.isLineEnd = true := by
      rw [(alike.inner_eq (Bool.eq_false_iff.2 ha)).1]
      exact ha
    refine ⟨r₄', ?_, starts, hw ▸ twins₃.left, hw' ▸ twins₃.right, ?_, ?_⟩
    · unfold body
      rw [run_peekKind_bind ht', if_neg inner, run_bind hes', run_bind hu']
      rfl
    · rw [hw, hw', twins₃.declared]
    · rw [hf, hf', twins₃.free]

/-! ## § Heads of definitions -/

/-- An operator that has been lost is no number now. -/
def LostWords (base base' : Workspace) : Prop :=
  ∀ name, name ≠ "o" → base.knowsName name = true → base'.knowsName name = false →
    Radix.isAllDigits name.toList base.settings.inputBase = false

/-- To look at a name and to take it. -/
theorem twins_name (p : base.Poorer base') (lost : LostWords base base')
    (h : Twins base base' tail r r') (hf : r.source.peeked = none) (hx : peek.run r = .ok a r₁)
    (hk : Lexeme.IsName a.kind) (hi : Text.isIdentifier a.text = true) :
    ∃ b r₁', peek.run r' = .ok b r₁' ∧ Lexeme.IsName b.kind ∧ b.text = a.text ∧
      r₁'.source.peeked = some b ∧ Twins base base' tail (taken r₁ a) (taken r₁' b) ∧
      (taken r₁ a).source.left < r.source.left := by
  have ha : a.kind.isLineEnd = false := by rcases hk with e | e <;> rw [e] <;> rfl
  have le := left_peek_le hx
  obtain ⟨s, hs, rfl⟩ := peek_inv hx
  have shorter : (taken { r with source := s } a).source.left < s.left := by
    simp [taken, Source.left, (Source.peek_ok hs).1, ha]
  rcases Source.peek_cases hs with ⟨hp, -⟩ | ⟨-, scanner, hn, rfl⟩
  · cases hf.symm.trans hp
  cases h.source with
  | inner _ hp | lineEnd _ hp => cases hf.symm.trans hp
  | fresh copy _ hf' =>
    have narrows := p.narrows h.left h.right h.declared
    have digits (name : String) (ho : name ≠ "o")
        (hv : r.workspace.vocabulary.isOperator name = true)
        (hw : r'.workspace.vocabulary.isOperator name = false) :
        Radix.isAllDigits name.toList r.workspace.vocabulary.inputBase = false := by
      obtain ⟨undeclared, known⟩ := Workspace.isOperator_vocabulary.1 hv
      have inputBase : r.workspace.vocabulary.inputBase = base.settings.inputBase := by
        rw [h.left]
        rfl
      rw [inputBase]
      refine lost name ho (h.left.knowsName name ▸ known) (Bool.eq_false_iff.2 fun known' => ?_)
      rw [← h.right.knowsName] at known'
      rw [Workspace.isOperator_vocabulary.2 ⟨h.declared ▸ undeclared, known'⟩] at hw
      cases hw
    obtain ⟨b, scanner', hn', hb, text, copy'⟩ :=
      Scanner.next_of_lexeme (w := r'.workspace.vocabulary) (P := Lexeme.IsName) copy hn ha
        fun c rest n hl htext => Lexeme.ofText_name narrows digits hl hk (htext ▸ hi)
    refine ⟨b, _, peek_run (Source.peek_of_next hf' hn'), hb, text, rfl, ?_,
      Nat.lt_of_lt_of_le shorter le⟩
    exact ⟨.fresh copy' rfl rfl, h.left, h.right, h.declared, h.free⟩

theorem headerWords_mirrored (p : base.Poorer base') (lost : LostWords base base')
    {count count' : Nat} (hc : r.source.left < count) (hle : count ≤ count')
    (h : Twins base base' tail r r') (hf : r.source.peeked = none) {words : List Token}
    (hx : (headerWords count).run r = .ok words r₁) :
    ∃ words' r₁', (headerWords count').run r' = .ok words' r₁' ∧
      words'.map Token.text = words.map Token.text ∧ Twins base base' tail r₁ r₁' ∧
      ∃ t, r₁.source.peeked = some t := by
  induction count generalizing count' r r' words with
  | zero => omega
  | succ count ih =>
    obtain ⟨count', rfl⟩ := Nat.exists_eq_succ_of_ne_zero (show count' ≠ 0 by omega)
    obtain ⟨kind, r₂, hkind, hx⟩ := bind_ok hx
    obtain ⟨t, ht, rfl⟩ := peekKind_inv hkind
    have hp := peeked_of_peek ht
    split at hx
    next hk =>
      obtain ⟨rfl, rfl⟩ := pure_ok hx
      obtain ⟨b, r₂', ht', alike, twins, -⟩ := twins_peek p h ht fun e =>
        absurd (hk.symm.trans e) nofun
      refine ⟨[], r₂', ?_, rfl, twins, t, hp⟩
      rw [headerWords, run_peekKind_bind ht', if_pos ((alike.kind_iff rfl).2 hk)]
      rfl
    next =>
      rw [run_bind (take_run hp)] at hx
      split at hx
      next name =>
        obtain ⟨words, r₃, hw, hx⟩ := bind_ok hx
        obtain ⟨rfl, rfl⟩ := pure_ok hx
        obtain ⟨b, r₂', ht', hk', text, hp', twins, lt⟩ := twins_name p lost h hf ht name.1 name.2
        obtain ⟨words', r₃', hw', texts, twins', hpeeked⟩ := ih (by omega)
          (show count ≤ count' by omega) twins rfl hw
        refine ⟨b :: words', r₃', ?_, by rw [List.map_cons, List.map_cons, text, texts], twins',
          hpeeked⟩
        have notAssign : b.kind ≠ .assign := by rcases hk' with e | e <;> rw [e] <;> decide
        rw [headerWords, run_peekKind_bind ht', if_neg notAssign, run_bind (take_run hp'),
          if_pos ⟨hk', text ▸ name.2⟩, run_bind hw']
        rfl
      next => exact (reject_ne_ok hx).elim

theorem checked_mirrored {head head' : Header} (r' : Reader)
    (hx : (checked a head').run r = .ok head r₁) :
    head' = head ∧ r₁ = r ∧ (checked b head').run r' = .ok head r' := by
  unfold checked at hx ⊢
  split at hx
  · exact (reject_ne_ok hx).elim
  · obtain ⟨rfl, rfl⟩ := pure_ok hx
    exact ⟨rfl, rfl, rfl⟩

/-- Only the texts of the words are looked at. -/
theorem headerOf_mirrored {words words' : List Token} {head : Header} (r' : Reader)
    (texts : words'.map Token.text = words.map Token.text)
    (hx : (headerOf words).run r = .ok head r₁) :
    r₁ = r ∧ (headerOf words').run r' = .ok head r' := by
  unfold headerOf at hx
  split at hx
  next name right =>
    obtain ⟨name', rest, rfl, hname, texts⟩ := List.map_eq_cons_iff.1 texts
    obtain ⟨right', rest, rfl, hright, texts⟩ := List.map_eq_cons_iff.1 texts
    obtain rfl := List.map_eq_nil_iff.1 texts
    rw [← hname, ← hright] at hx
    exact (checked_mirrored r' hx).2
  next left name right =>
    obtain ⟨left', rest, rfl, hleft, texts⟩ := List.map_eq_cons_iff.1 texts
    obtain ⟨name', rest, rfl, hname, texts⟩ := List.map_eq_cons_iff.1 texts
    obtain ⟨right', rest, rfl, hright, texts⟩ := List.map_eq_cons_iff.1 texts
    obtain rfl := List.map_eq_nil_iff.1 texts
    rw [← hleft, ← hname, ← hright] at hx
    exact (checked_mirrored r' hx).2
  next =>
    obtain ⟨t, r₃, -, hx⟩ := bind_ok hx
    exact (reject_ne_ok hx).elim

theorem header_mirrored (p : base.Poorer base') (lost : LostWords base base')
    (h : Twins base base' tail r r') (hf : r.source.peeked = none) {head : Header}
    (hx : header.run r = .ok head r₁) :
    Mirrored base base' tail header r' head r₁ ∧ ∃ t, r₁.source.peeked = some t := by
  rw [header_eq, run_bind (remaining_run _)] at hx
  obtain ⟨words, r₂, hw, hx⟩ := bind_ok hx
  obtain ⟨words', r₂', hw', texts, twins, hp⟩ := headerWords_mirrored p lost
    (Source.left_lt_remaining _) h.source.remaining_le h hf hw
  obtain ⟨rfl, hx'⟩ := headerOf_mirrored r₂' texts hx
  refine ⟨⟨r₂', ?_, twins⟩, hp⟩
  rw [header_eq, run_bind (remaining_run _), run_bind hw']
  exact hx'

/-! ## § Definitions -/

theorem update_inv {g : Workspace → Except ParseError.Cause Workspace} {u : Unit}
    (hx : (update g).run r = .ok u r₁) :
    ∃ w, g r.workspace = .ok w ∧ r₁ = { r with workspace := w } := by
  unfold update at hx
  rw [run_get_bind] at hx
  cases hg : g r.workspace with
  | ok w =>
    rw [hg] at hx
    injection hx with _ hr
    exact ⟨w, rfl, hr.symm⟩
  | error =>
    rw [hg] at hx
    cases hx

theorem update_run {g : Workspace → Except ParseError.Cause Workspace} {w : Workspace}
    (h : g r.workspace = .ok w) : (update g).run r = .ok ⟨⟩ { r with workspace := w } := by
  unfold update
  rw [run_get_bind, h]
  rfl

/-- To declare the same names on both sides. -/
theorem twins_declare (names : List String) {w w' : Workspace} (hw : base.SameBase w)
    (hw' : base'.SameBase w') (hd : w'.declared = w.declared) :
    base.SameBase (names.foldl Workspace.declare w) ∧
      base'.SameBase (names.foldl Workspace.declare w') ∧
      (names.foldl Workspace.declare w').declared
        = (names.foldl Workspace.declare w).declared := by
  induction names generalizing w w' with
  | nil => exact ⟨hw, hw', hd⟩
  | cons name names ih =>
    refine ih ?_ ?_ ?_
    · rw [Workspace.declare_eq]
      exact hw.declaring _
    · rw [Workspace.declare_eq]
      exact hw'.declaring _
    · rw [Workspace.declare_declared, Workspace.declare_declared, hd]

theorem definitionBody_mirrored [Machine] (p : base.Poorer base') (h : Twins base base' tail r r')
    (hp : ∃ t, r.source.peeked = some t) {head : Header} {f : UserOperator}
    (hn : base'.global? head.name = none) (hx : (definitionBody head).run r = .ok f r₁)
    (hg : ∀ node ∈ f.nodes, node.Granted base') :
    ∃ r₁', (definitionBody head).run r' = .ok f r₁' ∧ r₁'.source.StartsLine tail := by
  obtain ⟨t, hp⟩ := hp
  obtain ⟨u, r₂, hdeclare, hx⟩ := bind_ok hx
  obtain ⟨w, hw, rfl⟩ := update_inv hdeclare
  obtain rfl := Except.ok.inj hw
  obtain ⟨left, right, declared⟩ :=
    twins_declare (head.left.toList ++ [head.right]) h.left h.right h.declared
  obtain ⟨u, r₃, hassign, hx⟩ := bind_ok hx
  obtain ⟨hk, rfl⟩ := expect_inv (a := t) (by exact hp) hassign
  have ha : t.kind.isLineEnd = false := by rw [hk]; rfl
  obtain ⟨b, hp', alike⟩ := h.source.alike hp
  have declaring : Twins base base' tail
      { r with workspace := (head.left.toList ++ [head.right]).foldl .declare r.workspace }
      { r' with workspace := (head.left.toList ++ [head.right]).foldl .declare r'.workspace } :=
    ⟨h.source, left, right, declared, h.free⟩
  obtain ⟨twins, -⟩ := twins_taken declaring (a := t) (by exact hp) ha b
  obtain ⟨es, r₄, hes, hx⟩ := bind_ok hx
  rw [run_get_bind] at hx
  obtain ⟨u, r₅, hdefine, hx⟩ := bind_ok hx
  obtain ⟨rfl, rfl⟩ := pure_ok hx
  obtain ⟨r₄', hes', starts, left₄, right₄, declared₄, free₄⟩ := body_mirrored p twins hes hg
  obtain ⟨w, hw, rfl⟩ := update_inv hdefine
  rw [← declared₄, ← free₄] at hw ⊢
  obtain ⟨w₁, claimed, -⟩ := Workspace.define_iff.1 hw
  have claimed' := Workspace.claimName_of_unbound claimed
    (show r₄'.workspace.global? head.name = none by rw [right₄]; exact hn)
  have declare' := update_run (r := r')
    (g := fun w => .ok ((head.left.toList ++ [head.right]).foldl Workspace.declare w)) rfl
  have assign' := expect_run "=" (r := { r' with
    workspace := (head.left.toList ++ [head.right]).foldl Workspace.declare r'.workspace })
    (by exact hp') ((alike.inner_eq ha).1.trans hk)
  obtain ⟨w', defined⟩ : ∃ w', r₄'.workspace.define _ = .ok w' :=
    ⟨_, Workspace.define_iff.2 ⟨_, claimed', rfl⟩⟩
  refine ⟨{ r₄' with workspace := w' }, ?_, ⟨starts.rest, starts.previous, starts.peeked⟩⟩
  unfold definitionBody
  rw [run_bind declare', run_bind assign', run_bind hes', run_get_bind]
  exact run_bind (update_run defined)

/-- Both sides have begun the same definition. -/
theorem begin_poorer {w w' : Workspace} (p : w.Poorer w') {head : Header}
    (hid : Text.isIdentifier head.name = true)
    (hb : w.beginDefinition head.name head.left head.right = .ok base)
    (hb' : w'.beginDefinition head.name head.left head.right = .ok base') :
    base.Poorer base' := by
  have knows := Workspace.beginDefinition_knows hb
  have knows' := Workspace.beginDefinition_knows hb'
  have global := Workspace.beginDefinition_global? hb
  have global' := Workspace.beginDefinition_global? hb'
  refine ⟨?_, fun s hs => ?_, fun name hn => ?_, fun s hs => ?_⟩
  · rw [(Workspace.beginDefinition_ok hb').1.settings, (Workspace.beginDefinition_ok hb).1.settings,
      p.settings]
  · exact (knows s).2 (((knows' s).1 hs).imp_right (p.knows s))
  · rw [global']
    rw [global] at hn
    split
    · rfl
    next other =>
      rw [if_neg other] at hn
      exact p.unbound name hn
  · rcases (knows s).1 hs with rfl | hs
    · exact Lexeme.simple_of_isIdentifier hid
    · exact p.simple s hs

/-- What happens to a reader that leaves a definition. -/
def leaving (restore : Workspace → Workspace) (r : Reader) : Reader :=
  { r with workspace := restore r.workspace.forgetDeclarations, free := none }

theorem definition_eq [Machine] : definition = (do
    let h ← header
    let r ← get
    update (·.beginDefinition h.name h.left h.right)
    modify fun r => { r with free := some [] }
    closing (definitionBody h) (leaving id) (leaving
      (·.abandonDefinition h.name h.arity (r.workspace.userOperator? h.arity h.name)))) := rfl

theorem closing_inv {x : Reading α} {done undone : Reader → Reader} {c : α}
    (hx : (closing x done undone).run r = .ok c r₁) :
    ∃ r₂, x.run r = .ok c r₂ ∧ r₁ = done r₂ := by
  rw [run_closing] at hx
  split at hx
  next a r₂ hr =>
    injection hx with hc hr₁
    exact ⟨r₂, hc ▸ hr, hr₁.symm⟩
  next => exact nomatch hx

theorem closing_run {x : Reading α} {done undone : Reader → Reader} {c : α}
    (hx : x.run r = .ok c r₁) : (closing x done undone).run r = .ok c (done r₁) := by
  rw [run_closing, hx]

/-- The operator that a definition gives has the names of its head. -/
theorem definitionBody_head [Machine] {head : Header} {f : UserOperator}
    (hx : (definitionBody head).run r = .ok f r₁) :
    f.name = head.name ∧ f.left = head.left ∧ f.right = head.right := by
  obtain ⟨-, r₂, -, hx⟩ := bind_ok hx
  obtain ⟨-, r₃, -, hx⟩ := bind_ok hx
  obtain ⟨es, r₄, -, hx⟩ := bind_ok hx
  rw [run_get_bind] at hx
  obtain ⟨-, r₅, -, hx⟩ := bind_ok hx
  obtain ⟨rfl, -⟩ := pure_ok hx
  exact ⟨rfl, rfl, rfl⟩

theorem eq_of_sameBase {w : Workspace} (h : base.SameBase w) (hb : base.declared = [])
    (hw : w.declared = []) : w = base := by
  rw [h, hw, ← hb]

/-- **A definition is read from the copy of its line**, where no variable is in its way and the
operators and variables are there that its body needs. -/
theorem definition_mirrored [Machine] (p : base.Poorer base') (lost : LostWords base base')
    (free : ∀ name ∉ Workspace.reservedNames, base'.global? name = none)
    (h : Twins base base' tail r r') (hd : base.declared = []) (hd' : base'.declared = [])
    (hw : r.workspace = base) (hf : r.source.peeked = none) {f : UserOperator}
    (hx : definition.run r = .ok f r₁)
    (hg : ∀ begun, base'.beginDefinition f.name f.left f.right = .ok begun →
      ∀ node ∈ f.nodes, node.Granted begun) :
    ∃ r₁', definition.run r' = .ok f r₁' ∧ r₁'.source.StartsLine tail := by
  rw [definition_eq] at hx
  obtain ⟨head, r₂, hhead, hx⟩ := bind_ok hx
  obtain ⟨⟨hw₂, -⟩, sound⟩ :=
    (header_quiet r rfl fun t ht => nomatch hf.symm.trans ht).of_ok hhead
  obtain ⟨⟨r₂', hhead', twins⟩, peeked⟩ := header_mirrored p lost h hf hhead
  rw [run_get_bind] at hx
  obtain ⟨u, r₃, hbegin, hx⟩ := bind_ok hx
  obtain ⟨begun, hb, rfl⟩ := update_inv hbegin
  rw [hw₂, hw] at hb
  have hw₂' : r₂'.workspace = base' := by
    refine eq_of_sameBase twins.right hd' ?_
    rw [twins.declared, hw₂, hw, hd]
  obtain ⟨w₁, claimed, -⟩ := Workspace.beginDefinition_iff.1 hb
  obtain ⟨unreserved, -⟩ := Workspace.claimName_cases claimed
  obtain ⟨begun', hb'⟩ : ∃ begun',
      base'.beginDefinition head.name head.left head.right = .ok begun' :=
    ⟨_, Workspace.beginDefinition_iff.2
      ⟨_, Workspace.claimName_of_unbound claimed (free _ unreserved), rfl⟩⟩
  obtain ⟨u, r₄, hmodify, hx⟩ := bind_ok hx
  injection hmodify with _ hr₄
  subst hr₄
  obtain ⟨r₅, hbody, rfl⟩ := closing_inv hx
  obtain ⟨hname, hleft, hright⟩ := definitionBody_head hbody
  have declared : begun'.declared = begun.declared := by
    rw [(Workspace.beginDefinition_ok hb').2.1, (Workspace.beginDefinition_ok hb).2.1, hd, hd']
  have begin' : (update (·.beginDefinition head.name head.left head.right)).run r₂'
      = .ok ⟨⟩ { r₂' with workspace := begun' } := update_run (by rw [hw₂']; exact hb')
  have twins' : Twins begun begun' tail ⟨r₂.source, begun, some []⟩ ⟨r₂'.source, begun', some []⟩ :=
    ⟨twins.source, .refl _, .refl _, declared, rfl⟩
  obtain ⟨r₅', hbody', starts⟩ := definitionBody_mirrored (begin_poorer p sound.name hb hb') twins'
    peeked ((Workspace.beginDefinition_global? hb' _).trans (if_pos rfl)) hbody
    (hg begun' (by rwa [hname, hleft, hright]))
  refine ⟨leaving id r₅', ?_, ⟨starts.rest, starts.previous, starts.peeked⟩⟩
  rw [definition_eq, run_bind hhead', run_get_bind, run_bind begin']
  exact closing_run hbody'

end ArrayCalc.Reading

namespace ArrayCalc.Line

open Reading

variable {base base' : Workspace} {s t : Source} {line tail : List Char} {f : UserOperator}
  {r r₁ : Reader}

/-- A line gives a definition only after the keyword of definitions. -/
theorem reading_definition_inv [Machine] (hx : reading.run r = .ok (.definition f) r₁) :
    ∃ t r₂, peek.run r = .ok t r₂ ∧ t.kind = .opKeyword ∧
      Reading.definition.run (taken r₂ t) = .ok f r₁ := by
  obtain ⟨kind, r₂, hkind, hx⟩ := bind_ok hx
  obtain ⟨t, ht, rfl⟩ := peekKind_inv hkind
  have hp := peeked_of_peek ht
  split at hx
  · rw [run_bind (discard_run hp)] at hx
    exact nomatch (pure_ok hx).1
  · rw [run_bind (discard_run hp)] at hx
    exact nomatch (pure_ok hx).1
  · rw [run_bind (discard_run hp)] at hx
    exact nomatch hx
  next hk =>
    rw [run_bind (discard_run hp)] at hx
    obtain ⟨g, r₃, hg, hx⟩ := bind_ok hx
    obtain ⟨heq, rfl⟩ := pure_ok hx
    injection heq with heq
    subst heq
    exact ⟨t, r₂, ht, hk, hg⟩
  · obtain ⟨es, r₃, -, hx⟩ := bind_ok hx
    obtain ⟨u, r₄, -, hx⟩ := bind_ok hx
    exact nomatch (pure_ok hx).1

/-- **A line that defines an operator defines the same one in a poorer workspace**, if more text
follows there. -/
theorem read_copied [Machine] (p : base.Poorer base') (lost : LostWords base base')
    (free : ∀ name ∉ Workspace.reservedNames, base'.global? name = none)
    (hd : base.declared = []) (hd' : base'.declared = []) (hs : s.StartsLine line)
    (ht : t.StartsLine (line ++ '\n' :: tail)) (feed : '\n' ∉ line)
    (h : (read s base).1 = .ok (.definition f))
    (hg : ∀ begun, base'.beginDefinition f.name f.left f.right = .ok begun →
      ∀ node ∈ f.nodes, node.Granted begun) :
    ∃ t' w', read t base' = (.ok (.definition f), t', w') ∧ t'.StartsLine tail := by
  have hs : ({ s with atLineEnd := false } : Source).StartsLine line :=
    ⟨hs.rest, hs.previous, hs.peeked⟩
  have ht : ({ t with atLineEnd := false } : Source).StartsLine (line ++ '\n' :: tail) :=
    ⟨ht.rest, ht.previous, ht.peeked⟩
  have twins : Twins base base' tail ⟨{ s with atLineEnd := false }, base, none⟩
      ⟨{ t with atLineEnd := false }, base', none⟩ :=
    ⟨hs.copy ht feed, .refl _, .refl _, hd'.trans hd.symm, rfl⟩
  unfold read at h
  split at h
  next line' r₁ hr =>
    obtain rfl := Except.ok.inj h
    obtain ⟨a, r₂, ha, hk, hdef⟩ := reading_definition_inv hr
    have inner : a.kind.isLineEnd = false := by rw [hk]; rfl
    obtain ⟨b, r₂', hb, alike, twins₂, hp, hp', -⟩ := twins_peek p twins ha
      fun e => absurd (hk.symm.trans e) nofun
    have hw : r₂.workspace = base := by
      obtain ⟨source, -, rfl⟩ := peek_inv ha
      rfl
    obtain ⟨r₁', hdef', starts⟩ := definition_mirrored p lost free (twins_taken twins₂ hp inner b).1
      hd hd' hw rfl hdef hg
    refine ⟨r₁'.source, r₁'.workspace, ?_, starts⟩
    have run' : reading.run ⟨{ t with atLineEnd := false }, base', none⟩
        = .ok (.definition f) r₁' := by
      unfold reading
      rw [run_peekKind_bind hb, (alike.inner_eq inner).1, hk]
      dsimp only
      rw [run_bind (discard_run hp'), run_bind hdef']
      rfl
    unfold read
    rw [run']
  next => exact nomatch h

end ArrayCalc.Line
