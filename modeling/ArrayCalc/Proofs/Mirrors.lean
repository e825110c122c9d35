import ArrayCalc.Proofs.Outcome
import ArrayCalc.Proofs.Copies
import ArrayCalc.Proofs.ReadingParts
import ArrayCalc.Proofs.Reads

/-!
# Reading a copy

A line that has been read in one workspace is read from a copy of its source in another one.  The
other workspace may know fewer operators, as long as it knows those that the trees apply, and it may
have fewer variables, as long as it has those that the trees assign.  Then both readers come to the
same trees.

Whether an operator is known is asked when its token is scanned, and it is known only later that the
token is applied.  So the statements run backwards: they suppose what the trees need that have been
read in the end.
-/

namespace ArrayCalc

namespace Workspace

/-- A workspace `base'` that may know fewer operators and variables than `base`; all operators have
simple names. -/
structure Poorer (base base' : Workspace) : Prop where
  settings : base'.settings = base.settings
  knows : ∀ s, base'.Knows s = true → base.Knows s = true
  unbound : ∀ name, base.global? name = none → base'.global? name = none
  simple : ∀ s, base.Knows s = true →
    OperatorWord.isProduct s.name = false ∧ OperatorWord.splitMark? s.name = none

/-- What is left of the vocabulary while both have declared the same. -/
theorem Poorer.narrows {base base' w w' : Workspace} (p : base.Poorer base')
    (hw : base.SameBase w) (hw' : base'.SameBase w') (hd : w'.declared = w.declared) :
    w.vocabulary.Narrows (fun s => base'.Knows s = true) w'.vocabulary where
  inputBase := by
    show w'.settings.inputBase = w.settings.inputBase
    rw [hw, hw']
    show base'.settings.inputBase = base.settings.inputBase
    rw [p.settings]
  unary name h := by
    obtain ⟨hn, hk⟩ := definedUnary_iff.1 h
    rw [hw'.knows] at hk
    exact definedUnary_iff.2 ⟨hd ▸ hn, (hw.knows _).trans (p.knows _ hk)⟩
  binary name h := by
    obtain ⟨hn, hk⟩ := definedBinary_iff.1 h
    rw [hw'.knows] at hk
    exact definedBinary_iff.2 ⟨hd ▸ hn, (hw.knows _).trans (p.knows _ hk)⟩
  kept_unary name h hk :=
    definedUnary_iff.2 ⟨hd ▸ (isOperator_vocabulary.1 h).1, (hw'.knows _).trans hk⟩
  kept_binary name h hk :=
    definedBinary_iff.2 ⟨hd ▸ (isOperator_vocabulary.1 h).1, (hw'.knows _).trans hk⟩

theorem Poorer.marks {base base' : Workspace} (p : base.Poorer base') (s : Signature)
    (h : base'.Knows s = true) : OperatorWord.splitMark? s.name = none :=
  (p.simple s (p.knows s h)).2

end Workspace

/-- Whether a workspace has the operators that a tree applies and the variable that it assigns. -/
def Expr.Granted (base : Workspace) (e : Expr) : Prop :=
  (∀ s ∈ e.applied, base.Knows s = true) ∧ ∀ name ∈ e.assigned, (base.global? name).isSome

namespace Reading

open OperatorWord (Usable)

variable {base base' : Workspace} {tail : List Char} {r r' r₁ r₂ : Reader} {a b : Token}
  {e : Expr} {α β : Type}

/-- A reader and one that reads a copy of its source in a poorer workspace. -/
structure Twins (base base' : Workspace) (tail : List Char) (r r' : Reader) : Prop where
  source : r.source.Copy tail r'.source
  left : base.SameBase r.workspace
  right : base'.SameBase r'.workspace
  declared : r'.workspace.declared = r.workspace.declared
  free : r'.free = r.free

/-- The twin of a reader does what the reader has done. -/
def Mirrored (base base' : Workspace) (tail : List Char) (x : Reading α) (r' : Reader) (a : α)
    (r₁ : Reader) : Prop :=
  ∃ r₁', x.run r' = .ok a r₁' ∧ Twins base base' tail r₁ r₁'

/-- Whether the operators of the next token are known, if it has been looked at. -/
def NextUsable (base' : Workspace) (r : Reader) : Prop :=
  ∀ a, r.source.peeked = some a → a.kind = .operator →
    Usable (fun s => base'.Knows s = true) a.text

/-! ## § Steps -/

theorem run_bind {x : Reading α} {f : α → Reading β} {a : α} (h : x.run r = .ok a r₁) :
    (x >>= f).run r = (f a).run r₁ := by
  rw [EStateM.run_bind, h]

theorem run_get_bind {f : Reader → Reading α} :
    ((get : Reading Reader) >>= f).run r = (f r).run r := rfl

theorem pure_ok {a c : α} (h : (pure a : Reading α).run r = .ok c r₂) : c = a ∧ r₂ = r := by
  injection h with ha hr
  exact ⟨ha.symm, hr.symm⟩

theorem reject_ne_ok {t : Token} {cause : ParseError.Cause} {expected : List String} {c : α}
    (h : (reject t cause expected : Reading α).run r = .ok c r₂) : False := nomatch h

theorem peek_inv (h : peek.run r = .ok a r₁) :
    ∃ s, r.source.peek r.workspace.vocabulary = (.ok a, s) ∧ r₁ = { r with source := s } := by
  unfold peek onSource EStateM.run at h
  dsimp only at h
  split at h
  next a' s hs =>
    injection h with ha hr
    subst ha
    exact ⟨s, hs, hr.symm⟩
  next => exact nomatch h

theorem peek_run {s : Source} (h : r.source.peek r.workspace.vocabulary = (.ok a, s)) :
    peek.run r = .ok a { r with source := s } := by
  unfold peek onSource EStateM.run
  dsimp only
  rw [h]

/-- A reader that has taken the token it has looked at. -/
def taken (r : Reader) (a : Token) : Reader :=
  { r with source := { r.source with peeked := none, atLineEnd := a.kind.isLineEnd } }

theorem take_run (h : r.source.peeked = some a) : take.run r = .ok a (taken r a) := by
  unfold take onSource EStateM.run
  dsimp only
  rw [Source.take_of_peeked h]
  rfl

theorem discard_run (h : r.source.peeked = some a) : discard.run r = .ok ⟨⟩ (taken r a) := by
  unfold discard
  rw [run_bind (take_run h)]
  rfl

/-! ## § Tokens -/

theorem twins_peek (p : base.Poorer base') (h : Twins base base' tail r r')
    (hx : peek.run r = .ok a r₁)
    (hu : a.kind = .operator → Usable (fun s => base'.Knows s = true) a.text) :
    ∃ b r₁', peek.run r' = .ok b r₁' ∧ a.Alike b ∧ Twins base base' tail r₁ r₁' ∧
      r₁.source.peeked = some a ∧ r₁'.source.peeked = some b ∧
      r₁.source.left ≤ r.source.left := by
  obtain ⟨s, hs, rfl⟩ := peek_inv hx
  obtain ⟨b, s', hs', alike, copy, hp, hp'⟩ :=
    h.source.peek (p.narrows h.left h.right h.declared) p.marks hs hu
  exact ⟨b, _, peek_run hs', alike, ⟨copy, h.left, h.right, h.declared, h.free⟩, hp, hp',
    Source.left_peek_le hs⟩

theorem peekKind_inv {kind : TokenKind} (h : peekKind.run r = .ok kind r₁) :
    ∃ t, peek.run r = .ok t r₁ ∧ kind = t.kind := by
  obtain ⟨t, r₂, ht, h⟩ := bind_ok h
  obtain ⟨rfl, rfl⟩ := pure_ok h
  exact ⟨t, ht, rfl⟩

theorem run_peekKind_bind {f : TokenKind → Reading α} (h : peek.run r = .ok a r₁) :
    (peekKind >>= f).run r = (f a.kind).run r₁ := by
  unfold peekKind
  rw [bind_assoc, run_bind h, pure_bind]

/-- To take a token that does not end the line. -/
theorem twins_taken (h : Twins base base' tail r r') (hp : r.source.peeked = some a)
    (ha : a.kind.isLineEnd = false) (b : Token) :
    Twins base base' tail (taken r a) (taken r' b) ∧
      (taken r a).source.left < r.source.left := by
  obtain ⟨copy, lt⟩ := h.source.take hp ha a.kind.isLineEnd b.kind.isLineEnd
  exact ⟨⟨copy, h.left, h.right, h.declared, h.free⟩, lt⟩

theorem peeked_of_peek (h : peek.run r = .ok a r₁) : r₁.source.peeked = some a := by
  obtain ⟨s, hs, rfl⟩ := peek_inv h
  exact (Source.peek_ok hs).1

theorem left_peek_le (h : peek.run r = .ok a r₁) : r₁.source.left ≤ r.source.left := by
  obtain ⟨s, hs, rfl⟩ := peek_inv h
  exact Source.left_peek_le hs

/-- A token that has been looked at is seen again. -/
theorem peek_again (h : r.source.peeked = some a) : peek.run r = .ok a r :=
  peek_run (Source.peek_of_peeked h _)

/-! ## § Operands -/

theorem numeral_mirrored (h : Twins base base' tail r r') (p : base.Poorer base')
    (htext : b.text = a.text) (hx : (numeral a).run r = .ok e r₁) :
    Mirrored base base' tail (numeral b) r' e r₁ ∧ r₁ = r := by
  have inputBase : r'.workspace.settings.inputBase = r.workspace.settings.inputBase :=
    (p.narrows h.left h.right h.declared).inputBase
  unfold numeral at hx
  rw [run_get_bind] at hx
  cases hc : Numeral.read a.text r.workspace.settings.inputBase with
  | ok c =>
    rw [hc] at hx
    obtain ⟨rfl, rfl⟩ := pure_ok hx
    refine ⟨⟨r', ?_, h⟩, rfl⟩
    unfold numeral
    rw [run_get_bind, htext, inputBase, hc]
    rfl
  | error failure =>
    rw [hc] at hx
    cases failure <;> cases hx

theorem quoted_mirrored (h : Twins base base' tail r r') (htext : b.text = a.text)
    (hx : (quoted a).run r = .ok e r₁) :
    Mirrored base base' tail (quoted b) r' e r₁ ∧ r₁ = r := by
  unfold quoted at hx
  unfold Mirrored quoted
  rw [htext]
  split at hx
  · obtain ⟨rfl, rfl⟩ := pure_ok hx
    exact ⟨⟨r', rfl, h⟩, rfl⟩
  · obtain ⟨rfl, rfl⟩ := pure_ok hx
    exact ⟨⟨r', rfl, h⟩, rfl⟩
  · exact nomatch hx
  · exact nomatch hx

theorem slotOf?_eq (h : Twins base base' tail r r') (name : String) :
    r'.workspace.slotOf? name = r.workspace.slotOf? name := by
  unfold Workspace.slotOf?
  rw [h.declared]

theorem nameUse_mirrored (h : Twins base base' tail r r') {name : String}
    (hx : (nameUse name).run r = .ok e r₁) :
    Mirrored base base' tail (nameUse name) r' e r₁ ∧ r₁.source = r.source := by
  unfold nameUse at hx
  rw [run_get_bind] at hx
  cases hs : r.workspace.slotOf? name with
  | some slot =>
    rw [hs] at hx
    obtain ⟨rfl, rfl⟩ := pure_ok hx
    refine ⟨⟨r', ?_, h⟩, rfl⟩
    unfold nameUse
    rw [run_get_bind, slotOf?_eq h, hs]
    rfl
  | none =>
    rw [hs] at hx
    injection hx with he hr
    subst he hr
    refine ⟨⟨{ r' with free := r'.free.map (· ++ [name]) }, ?_, ?_⟩, rfl⟩
    · unfold nameUse
      rw [run_get_bind, slotOf?_eq h, hs]
      rfl
    · exact ⟨h.source, h.left, h.right, h.declared, by rw [h.free]⟩

/-- What is supposed of the reader for the expressions within. -/
structure Mirrors (base base' : Workspace) (tail : List Char) (expr : Reading Expr) : Prop where
  mirrored : ∀ {r r' r₁ e}, Twins base base' tail r r' → expr.run r = .ok e r₁ →
    (∀ node ∈ e.nodes, node.Granted base') →
    Mirrored base base' tail expr r' e r₁ ∧ r₁.source.left ≤ r.source.left
  ends : ∀ {r r₁ e}, expr.run r = .ok e r₁ →
    ∃ t, r₁.source.peeked = some t ∧ t.kind.endsExpression = true
  first : ∀ {r r₁ e t}, r.source.peeked = some t → t.kind = .operator → expr.run r = .ok e r₁ →
    ∃ right, .unary t.text right ∈ e.nodes

theorem expect_inv {kind : TokenKind} {what : String} {u : Unit}
    (hp : r.source.peeked = some a) (hx : (expect kind what).run r = .ok u r₁) :
    a.kind = kind ∧ r₁ = taken r a := by
  unfold expect at hx
  rw [run_bind (take_run hp)] at hx
  by_cases hk : a.kind ≠ kind
  · rw [if_pos hk] at hx
    exact nomatch hx
  · rw [if_neg hk] at hx
    exact ⟨Decidable.not_not.1 hk, (pure_ok hx).2⟩

theorem expect_run {kind : TokenKind} (what : String) (hp : r.source.peeked = some a)
    (hk : a.kind = kind) : (expect kind what).run r = .ok ⟨⟩ (taken r a) := by
  unfold expect
  rw [run_bind (take_run hp), if_neg (Decidable.not_not.2 hk)]
  rfl

/-- An operand that is read off its token once the token has been taken. -/
theorem literal_mirrored {x y : Reading Expr} {item : Option Expr}
    (h : Twins base base' tail r r') (hp : r.source.peeked = some a)
    (hp' : r'.source.peeked = some b) (ha : a.kind.isLineEnd = false)
    (hx : (do discard; return some (← x)).run r = .ok item r₁)
    (hxy : ∀ e r₂, x.run (taken r a) = .ok e r₂ →
      Mirrored base base' tail y (taken r' b) e r₂ ∧ r₂.source = (taken r a).source) :
    Mirrored base base' tail (do discard; return some (← y)) r' item r₁ ∧
      r₁.source.left < r.source.left := by
  rw [run_bind (discard_run hp)] at hx
  obtain ⟨e, r₂, hr, hx⟩ := bind_ok hx
  obtain ⟨⟨r₂', hr', twins⟩, source⟩ := hxy e r₂ hr
  obtain ⟨rfl, rfl⟩ := pure_ok hx
  refine ⟨⟨r₂', ?_, twins⟩, ?_⟩
  · rw [run_bind (discard_run hp'), run_bind hr']
    rfl
  · rw [source]
    exact (twins_taken h hp ha b).2

theorem inParens_mirrored {expr : Reading Expr} (he : Mirrors base base' tail expr)
    {item : Option Expr} (h : Twins base base' tail r r') (hp : r.source.peeked = some a)
    (hp' : r'.source.peeked = some b) (ha : a.kind.isLineEnd = false)
    (hx : (inParens expr).run r = .ok item r₁)
    (hg : ∀ node ∈ Expr.nodesOf item.toList, node.Granted base') :
    Mirrored base base' tail (inParens expr) r' item r₁ ∧ r₁.source.left < r.source.left := by
  unfold inParens at hx
  rw [run_bind (discard_run hp)] at hx
  obtain ⟨e, r₂, hr₂, hx⟩ := bind_ok hx
  obtain ⟨u, r₃, hr₃, hx⟩ := bind_ok hx
  obtain ⟨rfl, rfl⟩ := pure_ok hx
  obtain ⟨opened, lt⟩ := twins_taken h hp ha b
  rw [Option.toList_some, Expr.nodesOf_singleton] at hg
  obtain ⟨⟨r₂', hr₂', inside⟩, le⟩ := he.mirrored opened hr₂ hg
  -- An expression stops at a token that it has looked at, and that is the parenthesis.
  obtain ⟨c, hc, -⟩ := he.ends hr₂
  obtain ⟨closes, rfl⟩ := expect_inv hc hr₃
  have inner : c.kind.isLineEnd = false := by rw [closes]; rfl
  obtain ⟨c', hc', alike⟩ := inside.source.alike hc
  obtain ⟨closed, lt'⟩ := twins_taken inside hc inner c'
  refine ⟨⟨taken r₂' c', ?_, closed⟩, by omega⟩
  unfold inParens
  rw [run_bind (discard_run hp'), run_bind hr₂',
    run_bind (expect_run _ hc' ((alike.inner_eq inner).1.trans closes))]
  rfl

theorem operandFrom_of_isLineEnd (expr : Reading Expr) (ha : a.kind.isLineEnd = true) :
    operandFrom expr a = return none := by
  obtain ⟨kind, text, line⟩ := a
  cases kind <;> first | rfl | exact nomatch ha

theorem operandFrom_mirrored {expr : Reading Expr} (he : Mirrors base base' tail expr)
    (p : base.Poorer base') (h : Twins base base' tail r r') (hp : r.source.peeked = some a)
    (hp' : r'.source.peeked = some b) (alike : a.Alike b) {item : Option Expr}
    (hx : (operandFrom expr a).run r = .ok item r₁)
    (hg : ∀ node ∈ Expr.nodesOf item.toList, node.Granted base') :
    Mirrored base base' tail (operandFrom expr b) r' item r₁ ∧
      r₁.source.left ≤ r.source.left ∧ (item.isSome → r₁.source.left < r.source.left) := by
  cases alike with
  | lineEnd ha hb =>
    rw [operandFrom_of_isLineEnd expr ha] at hx
    rw [operandFrom_of_isLineEnd expr hb]
    obtain ⟨rfl, rfl⟩ := pure_ok hx
    exact ⟨⟨r', rfl, h⟩, Nat.le_refl _, nofun⟩
  | inner ha same text =>
    have shrinks {y : Reading (Option Expr)}
        (h : Mirrored base base' tail y r' item r₁ ∧ r₁.source.left < r.source.left) :
        Mirrored base base' tail y r' item r₁ ∧ r₁.source.left ≤ r.source.left ∧
          (item.isSome → r₁.source.left < r.source.left) :=
      ⟨h.1, Nat.le_of_lt h.2, fun _ => h.2⟩
    obtain ⟨twins, -⟩ := twins_taken h hp ha b
    obtain ⟨_, word, line⟩ := a
    obtain ⟨kind, word', line'⟩ := b
    dsimp only at same text
    subst same
    cases kind
    case number | rational | complex =>
      exact shrinks (literal_mirrored h hp hp' ha hx fun e r₂ hr =>
        And.imp_right (congrArg Reader.source) (numeral_mirrored twins p text hr))
    case string =>
      exact shrinks (literal_mirrored h hp hp' ha hx fun e r₂ hr =>
        And.imp_right (congrArg Reader.source) (quoted_mirrored twins text hr))
    case identifier =>
      subst text
      exact shrinks (literal_mirrored h hp hp' ha hx fun e r₂ hr => nameUse_mirrored twins hr)
    case leftParen => exact shrinks (inParens_mirrored he h hp hp' ha hx hg)
    all_goals
      obtain ⟨rfl, rfl⟩ := pure_ok hx
      exact ⟨⟨r', rfl, h⟩, Nat.le_refl _, nofun⟩

theorem item?_mirrored {expr : Reading Expr} (he : Mirrors base base' tail expr)
    (p : base.Poorer base') (h : Twins base base' tail r r') {item : Option Expr}
    (hx : (item? expr).run r = .ok item r₁)
    (hg : ∀ node ∈ Expr.nodesOf item.toList, node.Granted base')
    (hn : item = none → NextUsable base' r₁) :
    Mirrored base base' tail (item? expr) r' item r₁ ∧ r₁.source.left ≤ r.source.left ∧
      (item.isSome → r₁.source.left < r.source.left) := by
  rw [item?_eq] at hx ⊢
  obtain ⟨t, r₂, ht, hx⟩ := bind_ok hx
  have hp := peeked_of_peek ht
  -- An operator is no item, so it is the next token in the end.
  have usable (hk : t.kind = .operator) : Usable (fun s => base'.Knows s = true) t.text := by
    rw [operandFrom, hk] at hx
    obtain ⟨rfl, rfl⟩ := pure_ok hx
    exact hn rfl t hp hk
  obtain ⟨b, r₂', ht', alike, twins, -, hp', le⟩ := twins_peek p h ht usable
  obtain ⟨⟨r₁', hr', twins'⟩, le', lt⟩ := operandFrom_mirrored he p twins hp hp' alike hx hg
  exact ⟨⟨r₁', (run_bind ht').trans hr', twins'⟩, by omega, fun hi => by have := lt hi; omega⟩

theorem items_mirrored {expr : Reading Expr} (he : Mirrors base base' tail expr)
    (p : base.Poorer base') {count count' : Nat} (hc : r.source.left < count)
    (hle : count ≤ count') (h : Twins base base' tail r r') {es : List Expr}
    (hx : (items expr count).run r = .ok es r₁)
    (hg : ∀ node ∈ Expr.nodesOf es, node.Granted base') (hn : NextUsable base' r₁) :
    Mirrored base base' tail (items expr count') r' es r₁ ∧ r₁.source.left ≤ r.source.left := by
  induction count generalizing count' r r' es with
  | zero => omega
  | succ count ih =>
    obtain ⟨count', rfl⟩ := Nat.exists_eq_succ_of_ne_zero (show count' ≠ 0 by omega)
    obtain ⟨item, r₂, hi, hx⟩ := bind_ok hx
    cases item with
    | none =>
      obtain ⟨rfl, rfl⟩ := pure_ok hx
      obtain ⟨⟨r₂', hi', twins⟩, le, -⟩ := item?_mirrored he p h hi hg fun _ => hn
      refine ⟨⟨r₂', ?_, twins⟩, le⟩
      rw [items, run_bind hi']
      rfl
    | some e =>
      obtain ⟨others, r₃, ho, hx⟩ := bind_ok hx
      obtain ⟨rfl, rfl⟩ := pure_ok hx
      simp only [Expr.nodesOf, List.forall_mem_append] at hg
      obtain ⟨⟨r₂', hi', twins⟩, -, lt⟩ := item?_mirrored he p h hi
        (by simpa [Expr.nodesOf_singleton] using hg.1) (by simp)
      have lt := lt rfl
      obtain ⟨⟨r₃', ho', twins'⟩, le⟩ := ih (by omega) (show count ≤ count' by omega) twins ho hg.2
      refine ⟨⟨r₃', ?_, twins'⟩, by omega⟩
      rw [items, run_bind hi']
      show (items expr count' >>= fun others => pure (e :: others)).run r₂' = _
      rw [run_bind ho']
      rfl

/-! ## § Subscripts -/

theorem afterSubscript_head {others : Reading (List Expr)} {es : List Expr}
    (hx : (afterSubscript others e).run r = .ok es r₁) : ∃ rest, es = e :: rest := by
  obtain ⟨t, r₂, -, hx⟩ := bind_ok hx
  split at hx
  · exact ⟨[], (pure_ok hx).1⟩
  · obtain ⟨rest, r₃, -, hx⟩ := bind_ok hx
    exact ⟨rest, (pure_ok hx).1⟩
  · exact (reject_ne_ok hx).elim

theorem afterSubscript_mirrored {others others' : Reading (List Expr)} {es : List Expr}
    (h : Twins base base' tail r r') (hp : r.source.peeked = some a)
    (hx : (afterSubscript others e).run r = .ok es r₁)
    (hg : ∀ node ∈ Expr.nodesOf es, node.Granted base')
    (ho : ∀ {r₂ r₂' r₃ rest}, r₂.source.left < r.source.left → Twins base base' tail r₂ r₂' →
      others.run r₂ = .ok rest r₃ → (∀ node ∈ Expr.nodesOf rest, node.Granted base') →
      Mirrored base base' tail others' r₂' rest r₃ ∧ r₃.source.left ≤ r₂.source.left) :
    Mirrored base base' tail (afterSubscript others' e) r' es r₁ ∧
      r₁.source.left < r.source.left := by
  obtain ⟨b, hp', alike⟩ := h.source.alike hp
  unfold afterSubscript at hx ⊢
  rw [run_bind (take_run hp)] at hx
  split at hx
  next hk =>
    have ha : a.kind.isLineEnd = false := by rw [hk]; rfl
    obtain ⟨twins, lt⟩ := twins_taken h hp ha b
    obtain ⟨rfl, rfl⟩ := pure_ok hx
    refine ⟨⟨_, ?_, twins⟩, lt⟩
    rw [run_bind (take_run hp'), (alike.inner_eq ha).1, hk]
    rfl
  next hk =>
    have ha : a.kind.isLineEnd = false := by rw [hk]; rfl
    obtain ⟨twins, lt⟩ := twins_taken h hp ha b
    obtain ⟨rest, r₃, hrest, hx⟩ := bind_ok hx
    obtain ⟨rfl, rfl⟩ := pure_ok hx
    simp only [Expr.nodesOf, List.forall_mem_append] at hg
    obtain ⟨⟨r₃', hrest', twins'⟩, le⟩ := ho lt twins hrest hg.2
    refine ⟨⟨r₃', ?_, twins'⟩, by omega⟩
    rw [run_bind (take_run hp'), (alike.inner_eq ha).1, hk]
    dsimp only
    rw [run_bind hrest']
    rfl
  next => exact (reject_ne_ok hx).elim

/-- The operator that a tree starts with can be used, once the tree is granted. -/
theorem usable_of_first {es : List Expr} (hg : ∀ node ∈ Expr.nodesOf es, node.Granted base')
    (h : ∃ right, .unary a.text right ∈ Expr.nodesOf es) :
    Usable (fun s => base'.Knows s = true) a.text := by
  obtain ⟨right, hm⟩ := h
  exact ⟨.unary, (hg _ hm).1⟩

theorem subscripts_mirrored {expr : Reading Expr} (he : Mirrors base base' tail expr)
    (p : base.Poorer base') {count count' : Nat} (hc : r.source.left < count)
    (hle : count ≤ count') (h : Twins base base' tail r r') {es : List Expr}
    (hx : (subscripts expr count).run r = .ok es r₁)
    (hg : ∀ node ∈ Expr.nodesOf es, node.Granted base') :
    Mirrored base base' tail (subscripts expr count') r' es r₁ ∧
      r₁.source.left ≤ r.source.left := by
  induction count generalizing count' r r' es r₁ with
  | zero => omega
  | succ count ih =>
    obtain ⟨count', rfl⟩ := Nat.exists_eq_succ_of_ne_zero (show count' ≠ 0 by omega)
    rw [subscripts_succ] at hx
    obtain ⟨kind, r₂, hkind, hx⟩ := bind_ok hx
    obtain ⟨t, ht, rfl⟩ := peekKind_inv hkind
    have hp := peeked_of_peek ht
    have usable (hk : t.kind = .operator) : Usable (fun s => base'.Knows s = true) t.text := by
      rw [hk, if_neg (by decide)] at hx
      obtain ⟨e, r₃, hr, hx⟩ := bind_ok hx
      obtain ⟨rest, rfl⟩ := afterSubscript_head hx
      obtain ⟨right, hm⟩ := he.first hp hk hr
      exact usable_of_first hg ⟨right, by simp [Expr.nodesOf, hm]⟩
    obtain ⟨b, r₂', ht', alike, twins, -, hp', le⟩ := twins_peek p h ht usable
    have same : (b.kind = .semicolon ∨ b.kind = .rightBracket) ↔
        (t.kind = .semicolon ∨ t.kind = .rightBracket) := by
      rw [alike.kind_iff rfl, alike.kind_iff rfl]
    have run' : (subscripts expr (count' + 1)).run r' =
        (if t.kind = .semicolon ∨ t.kind = .rightBracket then
          afterSubscript (subscripts expr count') .empty
        else expr >>= afterSubscript (subscripts expr count')).run r₂' := by
      rw [subscripts_succ, run_peekKind_bind ht']
      simp only [same]
    have others {r₃ r₃' r₄ rest} (lt : r₃.source.left < r.source.left)
        (h : Twins base base' tail r₃ r₃') (hx : (subscripts expr count).run r₃ = .ok rest r₄)
        (hg : ∀ node ∈ Expr.nodesOf rest, node.Granted base') :
        Mirrored base base' tail (subscripts expr count') r₃' rest r₄ ∧
          r₄.source.left ≤ r₃.source.left :=
      ih (by omega) (by omega) h hx hg
    split at hx
    next cond =>
      obtain ⟨⟨r₁', hr', twins'⟩, lt⟩ := afterSubscript_mirrored twins hp hx hg
        fun lt => others (by omega)
      rw [if_pos cond] at run'
      exact ⟨⟨r₁', run'.trans hr', twins'⟩, by omega⟩
    next cond =>
      obtain ⟨e, r₃, hr, hx⟩ := bind_ok hx
      obtain ⟨rest, rfl⟩ := afterSubscript_head hx
      obtain ⟨⟨r₃', hr', twins₃⟩, le₃⟩ := he.mirrored twins hr
        fun node hm => hg node (by simp [Expr.nodesOf, hm])
      obtain ⟨c, hc, -⟩ := he.ends hr
      obtain ⟨⟨r₁', hr₁', twins'⟩, lt⟩ := afterSubscript_mirrored twins₃ hc hx hg
        fun lt => others (by omega)
      rw [if_neg cond, run_bind hr'] at run'
      exact ⟨⟨r₁', run'.trans hr₁', twins'⟩, by omega⟩

/-! ## § Strands -/

/-- A base is part of the tree that its subscripts make of it. -/
theorem nodes_subset_indices {expr : Reading Expr} {count : Nat} {base result : Expr}
    (hx : (indices expr count base).run r = .ok result r₁) : base.nodes ⊆ result.nodes := by
  induction count generalizing base r with
  | zero =>
    obtain ⟨rfl, -⟩ := pure_ok hx
    exact List.Subset.refl _
  | succ count ih =>
    obtain ⟨kind, r₂, -, hx⟩ := bind_ok hx
    split at hx
    · obtain ⟨-, r₃, -, hx⟩ := bind_ok hx
      obtain ⟨n, r₄, -, hx⟩ := bind_ok hx
      obtain ⟨subs, r₅, -, hx⟩ := bind_ok hx
      refine List.Subset.trans ?_ (ih hx)
      intro node hm
      simp [Expr.nodes, hm]
    · obtain ⟨rfl, -⟩ := pure_ok hx
      exact List.Subset.refl _

theorem remaining_run (r : Reader) : remaining.run r = .ok r.source.remaining r := rfl

theorem indices_mirrored {expr : Reading Expr} (he : Mirrors base base' tail expr)
    (p : base.Poorer base') {count count' : Nat} (hc : r.source.left < count)
    (hle : count ≤ count') (h : Twins base base' tail r r') {inner result : Expr}
    (hx : (indices expr count inner).run r = .ok result r₁)
    (hg : ∀ node ∈ result.nodes, node.Granted base') (hn : NextUsable base' r₁) :
    Mirrored base base' tail (indices expr count' inner) r' result r₁ ∧
      r₁.source.left ≤ r.source.left := by
  induction count generalizing count' r r' inner with
  | zero => omega
  | succ count ih =>
    obtain ⟨count', rfl⟩ := Nat.exists_eq_succ_of_ne_zero (show count' ≠ 0 by omega)
    obtain ⟨kind, r₂, hkind, hx⟩ := bind_ok hx
    obtain ⟨t, ht, rfl⟩ := peekKind_inv hkind
    have hp := peeked_of_peek ht
    have usable (hk : t.kind = .operator) : Usable (fun s => base'.Knows s = true) t.text := by
      rw [if_neg (by rw [hk]; decide)] at hx
      obtain ⟨-, rfl⟩ := pure_ok hx
      exact hn t hp hk
    obtain ⟨b, r₂', ht', alike, twins, -, hp', le⟩ := twins_peek p h ht usable
    have run' : (indices expr (count' + 1) inner).run r' =
        (if t.kind = .leftBracket then do
          discard
          indices expr count' (.index inner (← subscripts expr (← remaining)))
        else return inner : Reading Expr).run r₂' := by
      rw [indices, run_peekKind_bind ht']
      simp only [alike.kind_iff (show TokenKind.leftBracket.isLineEnd = false from rfl)]
    split at hx
    next hk =>
      have ha : t.kind.isLineEnd = false := by rw [hk]; rfl
      obtain ⟨twins₃, lt⟩ := twins_taken twins hp ha b
      rw [run_bind (discard_run hp), run_bind (remaining_run _)] at hx
      obtain ⟨subs, r₄, hsubs, hx⟩ := bind_ok hx
      have inside := nodes_subset_indices hx
      obtain ⟨⟨r₄', hsubs', twins₄⟩, le₄⟩ := subscripts_mirrored he p
        (Source.left_lt_remaining _) twins₃.source.remaining_le twins₃ hsubs
        fun node hm => hg node (inside (by simp [Expr.nodes, hm]))
      obtain ⟨⟨r₅', hx', twins₅⟩, le₅⟩ := ih (by omega) (show count ≤ count' by omega) twins₄ hx
      refine ⟨⟨r₅', run'.trans ?_, twins₅⟩, by omega⟩
      rw [if_pos hk, run_bind (discard_run hp'), run_bind (remaining_run _), run_bind hsubs']
      exact hx'
    next hk =>
      obtain ⟨rfl, rfl⟩ := pure_ok hx
      rw [if_neg hk] at run'
      exact ⟨⟨r₂', run', twins⟩, le⟩

/-- Behind a strand its subscripts are looked for, and an operator is none. -/
theorem nextUsable_of_indices {expr : Reading Expr} {count : Nat} {inner result : Expr}
    (hn : NextUsable base' r₁)
    (hx : (indices expr (count + 1) inner).run r = .ok result r₁) : NextUsable base' r := by
  intro a ha hk
  rw [indices, run_peekKind_bind (peek_again ha), if_neg (by rw [hk]; decide)] at hx
  obtain ⟨-, rfl⟩ := pure_ok hx
  exact hn a ha hk

theorem primary_mirrored {exprs : Nat → Reading Expr}
    (he : ∀ toll, Mirrors base base' tail (exprs toll))
    (p : base.Poorer base') (h : Twins base base' tail r r')
    (hx : (primary exprs).run r = .ok e r₁) (hg : ∀ node ∈ e.nodes, node.Granted base')
    (hn : NextUsable base' r₁) :
    Mirrored base base' tail (primary exprs) r' e r₁ ∧ r₁.source.left ≤ r.source.left := by
  unfold primary at hx
  rw [run_bind (remaining_run _)] at hx
  obtain ⟨es, r₂, hi, hx⟩ := bind_ok hx
  have follow {inner : Expr} (hsub : Expr.nodesOf es ⊆ inner.nodes)
      (hx : (indices (exprs 3) r₂.source.remaining inner).run r₂ = .ok e r₁) :
      ∃ r₂' r₁', (items (exprs 2) r'.source.remaining).run r' = .ok es r₂' ∧
        (indices (exprs 3) r₂'.source.remaining inner).run r₂' = .ok e r₁' ∧
        Twins base base' tail r₁ r₁' ∧ r₁.source.left ≤ r.source.left := by
    have inside := nodes_subset_indices hx
    obtain ⟨⟨r₂', hi', twins⟩, le⟩ := items_mirrored (he 2) p (Source.left_lt_remaining _)
      h.source.remaining_le h hi (fun node hm => hg node (inside (hsub hm)))
      (nextUsable_of_indices hn hx)
    obtain ⟨⟨r₁', hx', twins'⟩, le'⟩ := indices_mirrored (he 3) p (Source.left_lt_remaining _)
      twins.source.remaining_le twins hx hg hn
    exact ⟨r₂', r₁', hi', hx', twins', by omega⟩
  split at hx
  next =>
    obtain ⟨t, r₃, -, hx⟩ := bind_ok hx
    exact (reject_ne_ok hx).elim
  next inner =>
    rw [run_bind (remaining_run _)] at hx
    obtain ⟨r₂', r₁', hi', hx', twins, le⟩ := follow (by simp [Expr.nodesOf_singleton]) hx
    refine ⟨⟨r₁', ?_, twins⟩, le⟩
    unfold primary
    rw [run_bind (remaining_run _), run_bind hi']
    exact hx'
  next hnil hsingle =>
    rw [run_bind (remaining_run _)] at hx
    obtain ⟨r₂', r₁', hi', hx', twins, le⟩ := follow (by simp [Expr.nodes]) hx
    refine ⟨⟨r₁', ?_, twins⟩, le⟩
    unfold primary
    rw [run_bind (remaining_run _), run_bind hi']
    split
    next => exact absurd rfl hnil
    next => exact absurd rfl (hsingle _)
    next => exact hx'

/-! ## § Operators -/

theorem isUnary_mirrored (p : base.Poorer base') (h : Twins base base' tail r r') {word : String}
    (hu : isUnary r.workspace word = true)
    (hk : ∀ s ∈ OperatorWord.needs word .unary, base'.Knows s = true) :
    isUnary r'.workspace word = true := by
  unfold isUnary at hu ⊢
  rw [Bool.or_eq_true] at hu ⊢
  refine hu.imp_right fun hd => ?_
  obtain ⟨hn, known⟩ := Workspace.definedUnary_iff.1 hd
  rw [h.left.knows] at known
  obtain ⟨product, mark⟩ := p.simple _ known
  dsimp only at product mark
  refine Workspace.definedUnary_iff.2 ⟨h.declared ▸ hn, (h.right.knows _).trans (hk _ ?_)⟩
  simp [OperatorWord.needs, product, mark]

theorem isBinary_mirrored (p : base.Poorer base') (h : Twins base base' tail r r') {word : String}
    (hb : isBinary r.workspace word = true)
    (hk : ∀ s ∈ OperatorWord.needs word .binary, base'.Knows s = true) :
    isBinary r'.workspace word = true := by
  unfold isBinary at hb ⊢
  rw [Bool.or_eq_true] at hb ⊢
  refine hb.imp_right fun hd => ?_
  obtain ⟨hn, known⟩ := Workspace.definedBinary_iff.1 hd
  rw [h.left.knows] at known
  obtain ⟨product, mark⟩ := p.simple _ known
  dsimp only at product mark
  refine Workspace.definedBinary_iff.2 ⟨h.declared ▸ hn, (h.right.knows _).trans (hk _ ?_)⟩
  simp [OperatorWord.needs, product]

/-- An operand starts with a unary operator or is a strand. -/
theorem operand_cases {exprs : Nat → Reading Expr} (hx : (operand exprs).run r = .ok e r₁) :
    ∃ t r₂, peek.run r = .ok t r₂ ∧
      ((t.kind = .operator ∧ isUnary r₂.workspace t.text = true ∧
          ∃ right, (exprs 1).run (taken r₂ t) = .ok right r₁ ∧ e = .unary t.text right) ∨
        (t.kind ≠ .operator ∧ (primary exprs).run r₂ = .ok e r₁)) := by
  obtain ⟨t, r₂, ht, hx⟩ := bind_ok hx
  refine ⟨t, r₂, ht, ?_⟩
  split at hx
  next hk =>
    rw [run_bind (discard_run (peeked_of_peek ht)), run_get_bind] at hx
    split at hx
    next unary =>
      obtain ⟨right, r₃, hr, hx⟩ := bind_ok hx
      obtain ⟨rfl, rfl⟩ := pure_ok hx
      exact .inl ⟨hk, unary, right, hr, rfl⟩
    next => exact (reject_ne_ok hx).elim
  next hk => exact .inr ⟨hk, hx⟩

theorem operand_mirrored {exprs : Nat → Reading Expr}
    (he : ∀ toll, Mirrors base base' tail (exprs toll))
    (p : base.Poorer base') (h : Twins base base' tail r r')
    (hx : (operand exprs).run r = .ok e r₁) (hg : ∀ node ∈ e.nodes, node.Granted base')
    (hn : NextUsable base' r₁) :
    Mirrored base base' tail (operand exprs) r' e r₁ ∧ r₁.source.left ≤ r.source.left := by
  obtain ⟨t, r₂, ht, ⟨hk, unary, right, hr, rfl⟩ | ⟨hk, hx⟩⟩ := operand_cases hx
  · have needs := (hg _ (Expr.self_mem_nodes _)).1
    obtain ⟨b, r₂', ht', alike, twins, hp, hp', le⟩ := twins_peek p h ht fun _ => ⟨.unary, needs⟩
    have ha : t.kind.isLineEnd = false := by rw [hk]; rfl
    obtain ⟨kind, text⟩ := alike.inner_eq ha
    obtain ⟨twins₂, lt⟩ := twins_taken twins hp ha b
    obtain ⟨⟨r₁', hr', twins₁⟩, le₁⟩ := (he 1).mirrored twins₂ hr
      fun node hm => hg node (by simp [Expr.nodes, hm])
    refine ⟨⟨r₁', ?_, twins₁⟩, by omega⟩
    unfold operand
    rw [run_bind ht', if_pos (kind.trans hk), run_bind (discard_run hp'), run_get_bind, text,
      if_pos (isUnary_mirrored p twins₂ unary needs), run_bind hr']
    rfl
  · obtain ⟨b, r₂', ht', alike, twins, -, -, le⟩ := twins_peek p h ht fun e => absurd e hk
    obtain ⟨⟨r₁', hr', twins₁⟩, le₁⟩ := primary_mirrored he p twins hx hg hn
    refine ⟨⟨r₁', ?_, twins₁⟩, by omega⟩
    unfold operand
    rw [run_bind ht', if_neg fun e => hk ((alike.kind_iff rfl).1 e)]
    exact hr'

/-! ## § Assignments -/

theorem assignmentTarget_cases {target : Expr}
    (hx : (assignmentTarget e).run r = .ok target r₁) :
    target = e ∨ ∃ name, e = .sessionVar name := by
  cases e
  case sessionVar name => exact .inr ⟨name, rfl⟩
  all_goals
    refine .inl ?_
    unfold assignmentTarget at hx
    rw [run_get_bind] at hx
    split at hx
    · rename_i he
      exact nomatch he
    · exact (pure_ok hx).1

theorem assignmentTarget_mirrored (p : base.Poorer base') (h : Twins base base' tail r r')
    {target value : Expr} (hx : (assignmentTarget e).run r = .ok target r₁)
    (hg : (Expr.assign target value).Granted base') :
    Mirrored base base' tail (assignmentTarget e) r' target r₁ ∧ r₁.source = r.source := by
  have global (name : String) : r.workspace.global? name = base.global? name ∧
      r'.workspace.global? name = base'.global? name := by
    rw [h.left, h.right]
    exact ⟨rfl, rfl⟩
  unfold assignmentTarget at hx
  unfold Mirrored assignmentTarget
  rw [run_get_bind] at hx ⊢
  rw [h.free]
  split at hx
  next seen name hf =>
    dsimp only at hx ⊢
    rw [(global name).1] at hx
    rw [(global name).2]
    split at hx
    next bound =>
      obtain ⟨rfl, rfl⟩ := pure_ok hx
      rw [if_pos (hg.2 name (by simp [Expr.assigned]))]
      exact ⟨⟨r', rfl, h⟩, rfl⟩
    next free =>
      rw [Bool.not_eq_true, Option.isSome_eq_false_iff, Option.isNone_iff_eq_none] at free
      have declared : (r'.workspace.declare name).declared
          = (r.workspace.declare name).declared := by
        rw [Workspace.declare_declared, Workspace.declare_declared, h.declared]
      have slot : (r'.workspace.declare name).slotOf? name
          = (r.workspace.declare name).slotOf? name := by
        unfold Workspace.slotOf?
        rw [declared]
      injection hx with htarget hr
      subst hr htarget
      rw [p.unbound name free, if_neg (by simp), slot]
      refine ⟨⟨_, rfl, h.source, ?_, ?_, declared, rfl⟩, rfl⟩
      · show base.SameBase (r.workspace.declare name)
        rw [Workspace.declare_eq]
        exact h.left.declaring _
      · show base'.SameBase (r'.workspace.declare name)
        rw [Workspace.declare_eq]
        exact h.right.declaring _
  next =>
    obtain ⟨rfl, rfl⟩ := pure_ok hx
    exact ⟨⟨r', rfl, h⟩, rfl⟩

/-! ## § Expressions -/

/-- Behind its first operand an expression is an assignment, applies an operator or ends. -/
theorem afterOperand_cases {expr : Reading Expr} {left : Expr}
    (hx : (afterOperand expr left).run r = .ok e r₁) :
    ∃ t r₂, peek.run r = .ok t r₂ ∧
      ((t.kind = .assign ∧ left.isAssignable = true ∧ ∃ target value r₃,
          (assignmentTarget left).run (taken r₂ t) = .ok target r₃ ∧
          expr.run r₃ = .ok value r₁ ∧ e = .assign target value) ∨
        (t.kind = .operator ∧ isBinary r₂.workspace t.text = true ∧ ∃ right,
          expr.run (taken r₂ t) = .ok right r₁ ∧ e = .binary t.text left right) ∨
        (t.kind ≠ .assign ∧ t.kind ≠ .operator ∧ t.kind.endsExpression = true ∧ e = left ∧
          r₁ = r₂)) := by
  obtain ⟨t, r₂, ht, hx⟩ := bind_ok hx
  refine ⟨t, r₂, ht, ?_⟩
  split at hx
  next hk =>
    rw [run_bind (discard_run (peeked_of_peek ht))] at hx
    split at hx
    next assignable =>
      obtain ⟨target, r₃, htarget, hx⟩ := bind_ok hx
      obtain ⟨value, r₄, hv, hx⟩ := bind_ok hx
      obtain ⟨rfl, rfl⟩ := pure_ok hx
      exact .inl ⟨hk, assignable, target, value, r₃, htarget, hv, rfl⟩
    next => exact (reject_ne_ok hx).elim
  next notAssign =>
  split at hx
  next hk =>
    rw [run_bind (discard_run (peeked_of_peek ht)), run_get_bind] at hx
    split at hx
    next binary =>
      obtain ⟨right, r₃, hr, hx⟩ := bind_ok hx
      obtain ⟨rfl, rfl⟩ := pure_ok hx
      exact .inr (.inl ⟨hk, binary, right, hr, rfl⟩)
    next => exact (reject_ne_ok hx).elim
  next notOperator =>
  split at hx
  next ends =>
    obtain ⟨rfl, rfl⟩ := pure_ok hx
    exact .inr (.inr ⟨notAssign, notOperator, ends, rfl, rfl⟩)
  next => exact (reject_ne_ok hx).elim

theorem giveUp_ne_ok [Machine] {missing : Nat} (hx : (giveUp missing).run r = .ok e r₁) :
    False := by
  obtain ⟨r₂, r₃, -, hx⟩ := bind_ok hx
  obtain ⟨⟨⟩, r₄, -, hx⟩ := bind_ok hx
  exact nomatch hx

theorem expression_ends [Machine] {depth toll : Nat}
    (hx : (expression depth toll).run r = .ok e r₁) :
    ∃ t, r₁.source.peeked = some t ∧ t.kind.endsExpression = true := by
  induction depth generalizing toll r e with
  | zero => exact (giveUp_ne_ok hx).elim
  | succ depth ih =>
    cases toll with
    | succ toll => exact ih hx
    | zero =>
      obtain ⟨left, r₂, -, hx⟩ := bind_ok hx
      obtain ⟨t, r₃, ht, assigns | applies | ⟨-, -, ends, -, rfl⟩⟩ := afterOperand_cases hx
      · obtain ⟨-, -, target, value, r₄, -, hv, -⟩ := assigns
        exact ih hv
      · obtain ⟨-, -, right, hr, -⟩ := applies
        exact ih hr
      · exact ⟨t, peeked_of_peek ht, ends⟩

/-- An operator that an expression starts with is applied to the operand behind it. -/
theorem expression_first [Machine] {depth toll : Nat} (hp : r.source.peeked = some a)
    (hk : a.kind = .operator) (hx : (expression depth toll).run r = .ok e r₁) :
    ∃ right, .unary a.text right ∈ e.nodes := by
  induction depth generalizing toll with
  | zero => exact (giveUp_ne_ok hx).elim
  | succ depth ih =>
    cases toll with
    | succ toll => exact ih hx
    | zero =>
      obtain ⟨left, r₂, hl, hx⟩ := bind_ok hx
      have first : ∃ right, left = .unary a.text right := by
        obtain ⟨t, r₃, ht, ⟨-, -, right, -, hl⟩ | ⟨strand, -⟩⟩ := operand_cases hl
        all_goals obtain ⟨rfl, rfl⟩ := pure_ok ((peek_again hp).symm.trans ht).symm
        · exact ⟨right, hl⟩
        · exact absurd hk strand
      obtain ⟨right, rfl⟩ := first
      obtain ⟨t, r₃, -, assigns | applies | ⟨-, -, -, rfl, -⟩⟩ := afterOperand_cases hx
      · obtain ⟨-, assignable, -⟩ := assigns
        exact nomatch assignable
      · obtain ⟨-, -, other, -, rfl⟩ := applies
        exact ⟨right, by simp [Expr.nodes]⟩
      · exact ⟨right, Expr.self_mem_nodes _⟩

/-- An operator behind an operand is applied to it. -/
theorem nextUsable_of_afterOperand {expr : Reading Expr} {left : Expr}
    (hx : (afterOperand expr left).run r = .ok e r₁)
    (hg : ∀ node ∈ e.nodes, node.Granted base') : NextUsable base' r := by
  intro a hp hk
  obtain ⟨t, r₂, ht, cases⟩ := afterOperand_cases hx
  obtain ⟨rfl, rfl⟩ := pure_ok ((peek_again hp).symm.trans ht).symm
  rcases cases with ⟨assign, -⟩ | ⟨-, -, right, -, rfl⟩ | ⟨-, notOperator, -⟩
  · exact nomatch hk.symm.trans assign
  · exact ⟨.binary, (hg _ (Expr.self_mem_nodes _)).1⟩
  · exact absurd hk notOperator

theorem sessionVar_granted {name : String} :
    ∀ node ∈ (Expr.sessionVar name).nodes, node.Granted base' := by
  intro node hm
  obtain rfl := List.mem_singleton.1 hm
  exact ⟨nofun, nofun⟩

/-- The operand in front of what has been granted is granted. -/
theorem operand_granted {expr : Reading Expr} {left : Expr}
    (hx : (afterOperand expr left).run r = .ok e r₁)
    (hg : ∀ node ∈ e.nodes, node.Granted base') : ∀ node ∈ left.nodes, node.Granted base' := by
  obtain ⟨t, r₂, -, assigns | ⟨-, -, right, -, rfl⟩ | ⟨-, -, -, rfl, -⟩⟩ := afterOperand_cases hx
  · obtain ⟨-, -, target, value, r₃, htarget, -, rfl⟩ := assigns
    -- The target of an assignment may be another tree, when a name becomes a local one.
    rcases assignmentTarget_cases htarget with rfl | ⟨name, rfl⟩
    · exact fun node hm => hg node (by simp [Expr.nodes, hm])
    · exact sessionVar_granted
  · exact fun node hm => hg node (by simp [Expr.nodes, hm])
  · exact hg

theorem afterOperand_mirrored {expr : Reading Expr} (he : Mirrors base base' tail expr)
    (p : base.Poorer base') {left : Expr} (h : Twins base base' tail r r')
    (hx : (afterOperand expr left).run r = .ok e r₁)
    (hg : ∀ node ∈ e.nodes, node.Granted base') :
    Mirrored base base' tail (afterOperand expr left) r' e r₁ ∧
      r₁.source.left ≤ r.source.left := by
  obtain ⟨t, r₂, ht, assigns | applies | ends⟩ := afterOperand_cases hx
  · obtain ⟨hk, assignable, target, value, r₃, htarget, hv, rfl⟩ := assigns
    have ha : t.kind.isLineEnd = false := by rw [hk]; rfl
    obtain ⟨b, r₂', ht', alike, twins, hp, hp', le⟩ := twins_peek p h ht
      fun e => absurd (hk.symm.trans e) nofun
    obtain ⟨twins₂, lt⟩ := twins_taken twins hp ha b
    obtain ⟨⟨r₃', htarget', twins₃⟩, source⟩ := assignmentTarget_mirrored p twins₂ htarget
      (hg _ (Expr.self_mem_nodes _))
    obtain ⟨⟨r₁', hv', twins₁⟩, le₁⟩ := he.mirrored twins₃ hv
      fun node hm => hg node (by simp [Expr.nodes, hm])
    rw [source] at le₁
    refine ⟨⟨r₁', ?_, twins₁⟩, by omega⟩
    rw [afterOperand, run_bind ht', if_pos ((alike.inner_eq ha).1.trans hk),
      run_bind (discard_run hp'), if_pos assignable, run_bind htarget', run_bind hv']
    rfl
  · obtain ⟨hk, binary, right, hr, rfl⟩ := applies
    have ha : t.kind.isLineEnd = false := by rw [hk]; rfl
    have needs := (hg _ (Expr.self_mem_nodes _)).1
    obtain ⟨b, r₂', ht', alike, twins, hp, hp', le⟩ := twins_peek p h ht fun _ => ⟨.binary, needs⟩
    obtain ⟨kind, text⟩ := alike.inner_eq ha
    obtain ⟨twins₂, lt⟩ := twins_taken twins hp ha b
    obtain ⟨⟨r₁', hr', twins₁⟩, le₁⟩ := he.mirrored twins₂ hr
      fun node hm => hg node (by simp [Expr.nodes, hm])
    refine ⟨⟨r₁', ?_, twins₁⟩, by omega⟩
    rw [afterOperand, run_bind ht', kind, if_neg (by rw [hk]; nofun), if_pos hk,
      run_bind (discard_run hp'), run_get_bind, text,
      if_pos (isBinary_mirrored p twins₂ binary needs), run_bind hr']
    rfl
  · obtain ⟨notAssign, notOperator, ends, rfl, rfl⟩ := ends
    obtain ⟨b, r₂', ht', alike, twins, -, -, le⟩ := twins_peek p h ht
      fun e => absurd e notOperator
    refine ⟨⟨r₂', ?_, twins⟩, le⟩
    rw [afterOperand, run_bind ht', if_neg fun e => notAssign ((alike.kind_iff rfl).1 e),
      if_neg fun e => notOperator ((alike.kind_iff rfl).1 e), if_pos (alike.endsExpression ▸ ends)]
    rfl

theorem expression_mirrored_succ [Machine] (p : base.Poorer base') {depth : Nat}
    (ih : ∀ toll, Mirrors base base' tail (expression depth toll))
    (h : Twins base base' tail r r') (hx : (expression (depth + 1) 0).run r = .ok e r₁)
    (hg : ∀ node ∈ e.nodes, node.Granted base') :
    Mirrored base base' tail (expression (depth + 1) 0) r' e r₁ ∧
      r₁.source.left ≤ r.source.left := by
  rw [expression_succ] at hx ⊢
  obtain ⟨left, r₂, hl, hx⟩ := bind_ok hx
  -- Backwards: what the whole needs is known first, then what its first operand needs.
  obtain ⟨⟨r₂', hl', twins⟩, le⟩ := operand_mirrored ih p h hl (operand_granted hx hg)
    (nextUsable_of_afterOperand hx hg)
  obtain ⟨⟨r₁', hx', twins₁⟩, le₁⟩ := afterOperand_mirrored (ih 0) p twins hx hg
  exact ⟨⟨r₁', (run_bind hl').trans hx', twins₁⟩, by omega⟩

theorem expression_mirrors [Machine] (p : base.Poorer base') (depth toll : Nat) :
    Mirrors base base' tail (expression depth toll) := by
  induction depth generalizing toll with
  | zero => exact ⟨fun _ hx _ => (giveUp_ne_ok hx).elim, expression_ends, expression_first⟩
  | succ depth ih =>
    cases toll with
    | succ toll => exact ih toll
    | zero =>
      exact ⟨fun h hx hg => expression_mirrored_succ p ih h hx hg, expression_ends,
        expression_first⟩

theorem outermost_mirrors [Machine] (p : base.Poorer base') :
    Mirrors base base' tail outermost where
  mirrored := fun {r r'} _ _ h hx hg => by
    have toll : outermostToll r' = outermostToll r := by rw [outermostToll, h.free, outermostToll]
    have same : outermost.run r' = (expression Machine.nesting (outermostToll r)).run r' := by
      rw [← toll]
      rfl
    unfold Mirrored
    rw [same]
    exact (expression_mirrors p _ _).mirrored h hx hg
  ends hx := expression_ends hx
  first hp hk hx := expression_first hp hk hx

end Reading

end ArrayCalc
