import ArrayCalc.Proofs.CanonicalResults
import ArrayCalc.Proofs.Definitions
import ArrayCalc.Proofs.LiteralWords
import ArrayCalc.Proofs.QuotedTexts

/-!
# The text of a tree

The text of a tree that has been read is a phrase of the grammar for the same tree.  It is found by
going through the phrase that the tree was read from: its words are written again, and parentheses
stand where the printer puts them.

Two trees are not told apart from others by their text.  Among operands side by side, brackets take
all operands before them, so an item with subscripts loses its own.  And the word `o` is a name
wherever no point stands behind it, so it is no unary operator.
-/

namespace ArrayCalc

open Grammar

namespace Expr

/-- Whether a tree is no literal, or an exact number, a character or a text of two characters or
more. -/
def isExact : Expr → Bool
  | .constant (.int _) | .constant (.rational _) | .constant (.char _) => true
  | .constant _ => false
  | .string text => decide (2 ≤ text.length)
  | _ => true

/-- Whether the text of a tree is that of another one, whatever its parts are. -/
def isMistaken : Expr → Bool
  | .strand items => items.any isIndex
  | .unary word _ => word == "o"
  | _ => false

/-- A tree that its text tells from all others. -/
structure Legible (e : Expr) : Prop where
  exact : ∀ node ∈ e.nodes, node.isExact = true
  distinct : ∀ node ∈ e.nodes, node.isMistaken = false

theorem Legible.mono {e f : Expr} (h : e.Legible) (sub : f.nodes ⊆ e.nodes) : f.Legible :=
  ⟨fun node hn => h.exact node (sub hn), fun node hn => h.distinct node (sub hn)⟩

/-- The levels that a part takes in a text, where something binds it on both sides: parentheses take
two besides. -/
def within (e : Expr) (levels : Nat) : Nat :=
  if e.isAtomic then 0 else if e.isIndex then levels - 1 else levels + 2

/-- The levels that a subscript takes: brackets take three besides. -/
def bracketed : Expr → (levels : Nat) → Nat
  | .empty, _ => 0
  | _, levels => levels + 3

mutual

/-- How deep expressions nest in the text of a tree. -/
def levels : Expr → Nat
  | .constant _ | .string _ | .sessionVar _ | .slotVar _ _ => 1
  | .unary _ right => right.levels + 2
  | .binary _ left right => max (left.within left.levels) right.levels + 1
  | .assign target value => max (target.within target.levels) value.levels + 1
  | .conditional condition result => max condition.levels result.levels
  | .index base subscripts => max (base.within base.levels) (levelsOf subscripts) + 1
  | .strand items => enclosedLevels items + 1
  | .empty => 0

def levelsOf : List Expr → Nat
  | [] => 0
  | e :: rest => max (e.bracketed e.levels) (levelsOf rest)

def enclosedLevels : List Expr → Nat
  | [] => 0
  | e :: rest => max (e.within e.levels) (enclosedLevels rest)

end

end Expr

/-- A name or an operator that is written as it was read.  The word `o` is an operator before a
point only. -/
def Respelled (v : Vocabulary) (t : Token) : Prop :=
  t.kind = .identifier ∨ (t.kind = .operator ∧ t.text ≠ "o") → Spelled v t.kind t.text.toList

/-- A workspace outside of definitions that reads decimal digits. -/
structure Workspace.Ordinary (w : Workspace) : Prop where
  base : w.settings.inputBase = 10
  outside : w.declared = []
  spares : w.SparesOuter

variable {w : Workspace} {inner : Phrase} {inside : Nat → Phrase} {t : Token} {ts us : List Token}
  {e f : Expr} {es : List Expr}

/-! ## § What a text is read as -/

/-- The text of a tree is a phrase of the grammar for it, with or without what encloses it. -/
structure Readable (w : Workspace) (e : Expr) : Prop where
  expression : ∃ ts, Writes w.vocabulary e.text.toList ts ∧ Expression w e.levels 0 ts e
  leaf : e.isAtomic = true → ∃ t, Writes w.vocabulary e.text.toList [t] ∧ leaf? w t = some e
  indexed : e.isIndex = true →
    ∃ ts, Writes w.vocabulary e.text.toList ts ∧ Primary w (Expression w (e.levels - 1)) ts e

namespace Readable

theorem element (h : Readable w e) (unindexed : e.isIndex = false) :
    ∃ ts, Writes w.vocabulary (e.enclose e.text).toList ts ∧
      Element w (Expression w (e.within e.levels) 2) ts e := by
  unfold Expr.enclose Expr.within
  rw [unindexed, Bool.or_false]
  cases atomic : e.isAtomic with
  | true =>
    obtain ⟨t, writes, ht⟩ := h.leaf atomic
    exact ⟨[t], writes, .leaf ht⟩
  | false =>
    obtain ⟨ts, writes, derived⟩ := h.expression
    rw [← expression_add w e.levels 2] at derived
    refine ⟨⟨.leftParen, "(", 1⟩ :: (ts ++ [⟨.rightParen, ")", 1⟩]), ?_, .parens rfl derived rfl⟩
    have text : ("(" ++ e.text ++ ")").toList = '(' :: (e.text.toList ++ [')']) := by simp
    show Writes _ ("(" ++ e.text ++ ")").toList _
    rw [text]
    exact writes.parens

theorem primary (h : Readable w e) :
    ∃ ts, Writes w.vocabulary (e.enclose e.text).toList ts ∧
      Primary w (Expression w (e.within e.levels)) ts e := by
  cases index : e.isIndex with
  | false =>
    obtain ⟨ts, writes, derived⟩ := h.element index
    refine ⟨ts, writes, ?_⟩
    have alone := Primary.mk (.one derived) .none
    rwa [List.append_nil] at alone
  | true =>
    obtain ⟨ts, writes, derived⟩ := h.indexed index
    have no_leaf : e.isAtomic = false := by
      cases e with
      | index => rfl
      | _ => exact nomatch index
    unfold Expr.enclose Expr.within
    rw [index, Bool.or_true, no_leaf]
    exact ⟨ts, writes, derived⟩

/-- A tree that is enclosed. -/
theorem of_expression (h : Writes w.vocabulary e.text.toList ts)
    (derived : Expression w e.levels 0 ts e)
    (no_leaf : e.isAtomic = false) (unindexed : e.isIndex = false) : Readable w e where
  expression := ⟨ts, h, derived⟩
  leaf atomic := nomatch no_leaf.symm.trans atomic
  indexed index := nomatch unindexed.symm.trans index

/-- A tree that is a token by itself. -/
theorem of_word {kind : TokenKind} {word : List Char} (h : Spelled w.vocabulary kind word)
    (text : e.text.toList = word) (ht : leaf? w ⟨kind, String.ofList word, 1⟩ = some e)
    (one : e.levels = 1) (unindexed : e.isIndex = false) : Readable w e := by
  have writes := Writes.spelled h
  rw [← text] at writes ht
  have derived : Element w (Expression w 0 2) _ e := .leaf ht
  refine ⟨⟨_, writes, ?_⟩, fun _ => ⟨_, writes, ht⟩,
    fun index => nomatch unindexed.symm.trans index⟩
  rw [one]
  exact derived.expression

end Readable

/-! ## § Leaves -/

theorem Value.text?_chars {text : List CodePoint} (h : text ≠ []) :
    Value.text? (text.map .char) = some text := by
  unfold text?
  rw [if_neg (by simpa using h)]
  clear h
  induction text with
  | nil => rfl
  | cons c text ih =>
    rw [List.map_cons, List.mapM_cons, ih]
    rfl

/-- An integer is written with digits that mean the same in the base of input. -/
theorem Readable.int {n : Int64} (agrees : Radix.Agrees w.settings.inputBase n.toInt.natAbs) :
    Readable w (.constant (.int n)) := by
  have read : Numeral.read (Radix.decimalText n.toInt) w.settings.inputBase = .ok (.int n) := by
    rw [Numeral.read_int agrees (fits64_toInt n), Scalar.ofInt, Int64.ofInt_toInt]
  refine .of_word (spelled_int agrees) rfl ?_ rfl rfl
  rw [String.ofList_toList]
  exact leaf?_of_read rfl read 1

theorem Readable.constant {s : Scalar} (base : w.settings.inputBase = 10) (canonical : s.Canonical)
    (exact : (Expr.constant s).isExact = true) : Readable w (.constant s) := by
  have decimal : w.vocabulary.inputBase = 10 := base
  cases s with
  | int n => exact .int (.inr (.inl base))
  | rational q =>
    have read := Numeral.read_fraction canonical (.inr (.inl decimal)) (.inr (.inl decimal))
    refine .of_word (spelled_fraction (.inr (.inl decimal)) (.inr (.inl decimal))) rfl ?_ rfl rfl
    rw [String.ofList_toList]
    exact leaf?_of_read rfl read 1
  | char c =>
    refine .of_word (spelled_quoted w.vocabulary [c]) String.toList_ofList ?_ rfl rfl
    exact leaf?_of_decode (by rw [String.toList_ofList, Text.Quoted.decode_encode]) 1
  | float | complex => exact absurd exact Bool.false_ne_true

theorem Readable.string {text : List CodePoint} (exact : (Expr.string text).isExact = true) :
    Readable w (.string text) := by
  have long : 2 ≤ text.length := of_decide_eq_true exact
  have some : text ≠ [] := by
    rintro rfl
    exact absurd long (by decide)
  have written : (Expr.string text).text.toList = Text.Quoted.encode text := by
    rw [Expr.text, Value.vectorText, Value.text?_chars some]
    exact String.toList_ofList
  have quotation : quotation text = .string text := by
    unfold Grammar.quotation
    split
    · exact absurd long (Nat.not_succ_le_self 1)
    · rfl
  have read : leaf? w ⟨.string, String.ofList (Text.Quoted.encode text), 1⟩
      = Option.some (.string text) := by
    rw [leaf?_of_decode (by rw [String.toList_ofList, Text.Quoted.decode_encode]), quotation]
  have element : Element w (Expression w 0 2) _ (.string text) := .leaf read
  have writes := Writes.spelled (spelled_quoted w.vocabulary text)
  exact .of_expression (written.symm ▸ writes) element.expression rfl rfl

/-- Outside of definitions a name is a session variable. -/
theorem named_of_outside (outside : w.declared = []) (name : String) :
    named w name = .sessionVar name := by
  rw [named, Workspace.slotOf?, outside]
  rfl

theorem Readable.sessionVar {name : String} (outside : w.declared = [])
    (spelled : Spelled w.vocabulary .identifier name.toList) : Readable w (.sessionVar name) := by
  refine .of_word spelled rfl ?_ rfl rfl
  simp only [leaf?, named_of_outside outside, String.ofList_toList]

/-- The leaf of a token that has been read. -/
theorem Readable.of_token (ordinary : w.Ordinary)
    (h : leaf? w t = some e) (respelled : Respelled w.vocabulary t) (legible : e.Legible) :
    Readable w e := by
  have exact := legible.exact e e.self_mem_nodes
  rcases leaf?_cases h with ⟨s, read, rfl⟩ | ⟨text, -, rfl⟩ | ⟨name, rfl⟩
  · exact .constant ordinary.base (Numeral.read_canonical _ _ _ read) exact
  · unfold Grammar.quotation at exact ⊢
    split at exact
    next c => exact .constant ordinary.base (Scalar.canonical_char c) exact
    next => exact .string exact
  · rw [named_of_outside ordinary.outside]
    exact .sessionVar ordinary.outside (name ▸ respelled (.inl name))

/-! ## § Parts side by side -/

theorem joined_of_several (several : 2 ≤ es.length) : joined es = .strand es := by
  unfold Grammar.joined
  split
  · exact absurd several (Nat.not_succ_le_self 1)
  · rfl

/-- A text for an operand that may stand beside others. -/
def OperandText (w : Workspace) (inner : Phrase) (e : Expr) (text : String) : Prop :=
  ∃ ts, Writes w.vocabulary text.toList ts ∧ Element w inner ts e

/-- Operands with blanks between them are a strand. -/
theorem strand_of_texts {texts : List String} (h : List.Forall₂ (OperandText w inner) es texts)
    (some : es ≠ []) :
    ∃ ts, Writes w.vocabulary (" ".intercalate texts).toList ts ∧ Strand w inner ts es := by
  rw [String.toList_intercalate]
  induction h with
  | nil => exact absurd rfl some
  | cons operand rest ih =>
    obtain ⟨ts, writes, element⟩ := operand
    cases rest with
    | nil => exact ⟨ts, by simpa using writes, .one element⟩
    | cons second others =>
      obtain ⟨us, writes', strand⟩ := ih (List.cons_ne_nil _ _)
      refine ⟨ts ++ us, ?_, .cons element strand⟩
      rw [List.map_cons, List.map_cons, List.intercalate_cons_cons, List.append_assoc]
      exact writes.blank writes'

theorem Readable.items (some : es ≠ []) (h : ∀ e ∈ es, Readable w e)
    (unindexed : ∀ e ∈ es, e.isIndex = false) :
    ∃ ts, Writes w.vocabulary (" ".intercalate (Expr.enclosedTexts es)).toList ts ∧
      Strand w (Expression w (Expr.enclosedLevels es) 2) ts es := by
  have operands {depth : Nat} (le : Expr.enclosedLevels es ≤ depth) :
      List.Forall₂ (OperandText w (Expression w depth 2)) es (Expr.enclosedTexts es) := by
    clear some
    induction es with
    | nil => exact .nil
    | cons e es ih =>
      rw [List.forall_mem_cons] at h unindexed
      obtain ⟨ts, writes, element⟩ := h.1.element unindexed.1
      have element := element.mono (Expression.mono ((Nat.le_max_left _ _).trans le))
      exact .cons ⟨ts, writes, element⟩ (ih h.2 unindexed.2 ((Nat.le_max_right _ _).trans le))
  exact strand_of_texts (operands le_rfl) some

/-- Subscripts with semicolons between them. -/
theorem Readable.subscripts (some : es ≠ []) (h : ∀ e ∈ es, e = .empty ∨ Readable w e) :
    ∃ ts, Writes w.vocabulary ("; ".intercalate (Expr.texts es)).toList ts ∧
      Subscripts (Expression w (Expr.levelsOf es) 3) ts es := by
  have optional {e : Expr} (h : e = .empty ∨ Readable w e) : ∃ ts,
      Writes w.vocabulary e.text.toList ts ∧
        Optional (Expression w (e.bracketed e.levels) 3) ts e := by
    rcases h with rfl | h
    · exact ⟨[], .nil _, .absent⟩
    · obtain ⟨ts, writes, derived⟩ := h.expression
      have some : e.bracketed e.levels = e.levels + 3 := by
        cases e with
        | empty => exact derived.elim
        | _ => rfl
      rw [some, expression_add]
      exact ⟨ts, writes, .present derived⟩
  rw [String.toList_intercalate]
  induction es with
  | nil => exact absurd rfl some
  | cons e es ih =>
    rw [List.forall_mem_cons] at h
    obtain ⟨ts, writes, subscript⟩ := optional h.1
    have subscript := subscript.mono (Expression.mono (Nat.le_max_left _ (Expr.levelsOf es)))
    cases es with
    | nil =>
      refine ⟨ts, ?_, .one subscript⟩
      simpa [Expr.texts] using writes
    | cons f es =>
      obtain ⟨us, writes', others⟩ := ih (List.cons_ne_nil _ _) h.2
      have others := others.mono (Expression.mono (Nat.le_max_right (e.bracketed e.levels) _))
      refine ⟨ts ++ ⟨.semicolon, ";", 1⟩ :: us, ?_, .cons subscript rfl others⟩
      have text := writes.parted ((Writes.nil _).blank writes') Writes.mark_semicolon (by decide)
        (by decide)
      rw [Expr.texts] at text ⊢
      rw [Expr.texts, List.map_cons, List.map_cons, List.intercalate_cons_cons, List.append_assoc]
      exact text

/-- One more pair of brackets. -/
theorem Grammar.Brackets.snoc {base : Expr} (h : Brackets inner base us e)
    (within : Subscripts inner ts es) :
    Brackets inner base (us ++ ⟨.leftBracket, "[", 1⟩ :: (ts ++ [⟨.rightBracket, "]", 1⟩]))
      (.index e es) := by
  induction h with
  | none => exact .cons rfl within rfl .none
  | cons opens first closes _ ih =>
    rw [List.cons_append, List.append_assoc, List.cons_append]
    exact .cons opens first closes ih

/-! ## § Trees from their parts -/

namespace Readable

variable {target value base : Expr}

theorem unary (h : Readable w e)
    (word : OperatorWord.isFold t.text = true ∨ w.definedUnary t.text = true)
    (spelled : Spelled w.vocabulary .operator t.text.toList) : Readable w (.unary t.text e) := by
  obtain ⟨ts, writes, derived⟩ := h.expression
  have text := (Writes.spelled spelled).blank writes
  have written : (Expr.unary t.text e).text.toList = t.text.toList ++ ' ' :: e.text.toList := by
    simp [Expr.text]
  rw [String.ofList_toList, ← written] at text
  rw [← expression_add w e.levels 1] at derived
  exact .of_expression text (.unary rfl word derived) rfl rfl

theorem binary (left : Readable w e) (right : Readable w f)
    (word : OperatorWord.isProduct t.text = true ∨ w.definedBinary t.text = true)
    (spelled : Spelled w.vocabulary .operator t.text.toList) :
    Readable w (.binary t.text e f) := by
  obtain ⟨ts, writes, primary⟩ := left.primary
  obtain ⟨us, writes', derived⟩ := right.expression
  have primary := primary.mono (Expression.mono (Nat.le_max_left _ f.levels))
  have derived := derived.mono (Nat.le_max_right (e.within e.levels) _)
  have text := writes.blank ((Writes.spelled spelled).blank writes')
  have written : (Expr.binary t.text e f).text.toList
      = (e.enclose e.text).toList ++ ' ' :: (t.text.toList ++ ' ' :: f.text.toList) := by
    simp [Expr.text]
  rw [String.ofList_toList, ← written] at text
  exact .of_expression text (.binary primary rfl word derived) rfl rfl

theorem assign (left : Readable w target) (right : Readable w value)
    (assignable : target.isAssignable = true) : Readable w (.assign target value) := by
  obtain ⟨ts, writes, primary⟩ := left.primary
  obtain ⟨us, writes', derived⟩ := right.expression
  have primary := primary.mono (Expression.mono (Nat.le_max_left _ value.levels))
  have derived := derived.mono (Nat.le_max_right (target.within target.levels) _)
  have text := writes.blank ((Writes.spelled (spelled_assign w.vocabulary)).blank writes')
  have written : (Expr.assign target value).text.toList
      = (target.enclose target.text).toList ++ ' ' :: (['='] ++ ' ' :: value.text.toList) := by
    simp [Expr.text]
  rw [← written] at text
  exact .of_expression text (.assign primary assignable rfl derived) rfl rfl

theorem index (h : Readable w base) (some : es ≠ []) (subs : ∀ e ∈ es, e = .empty ∨ Readable w e) :
    Readable w (.index base es) := by
  obtain ⟨ts, writes, primary⟩ := h.primary
  obtain ⟨us, writes', subscripts⟩ := subscripts some subs
  have primary := primary.mono (Expression.mono (Nat.le_max_left _ (Expr.levelsOf es)))
  have subscripts := subscripts.mono (Expression.mono (Nat.le_max_right (base.within base.levels) _))
  obtain ⟨strand, brackets⟩ := primary
  have derived : Primary w (Expression w (max (base.within base.levels) (Expr.levelsOf es))) _ _ :=
    .mk strand (brackets.snoc subscripts)
  have text := writes.parted (writes'.closed Writes.mark_rightBracket (by decide))
    Writes.mark_leftBracket (by decide) (by decide)
  have written : (Expr.index base es).text.toList = (base.enclose base.text).toList
      ++ '[' :: (("; ".intercalate (Expr.texts es)).toList ++ [']']) := by
    simp [Expr.text]
  rw [List.append_assoc, ← written] at text
  exact ⟨⟨_, text, .primary derived⟩, nofun, fun _ => ⟨_, text, derived⟩⟩

theorem strand (several : 2 ≤ es.length) (h : ∀ e ∈ es, Readable w e)
    (unindexed : ∀ e ∈ es, e.isIndex = false) : Readable w (.strand es) := by
  have some : es ≠ [] := by
    rintro rfl
    exact absurd several (by decide)
  obtain ⟨ts, writes, strand⟩ := items some h unindexed
  have derived := Primary.mk strand .none
  rw [List.append_nil, joined_of_several several] at derived
  exact .of_expression writes (.primary derived) rfl rfl

end Readable

/-! ## § Phrases that are written again -/

section Phrases

variable (ordinary : w.Ordinary)
  (again : ∀ {ts e}, inner ts e → (∀ t ∈ ts, Respelled w.vocabulary t) → e.Legible → Readable w e)

include ordinary again

theorem Grammar.Element.readable (h : Element w inner ts e)
    (words : ∀ t ∈ ts, Respelled w.vocabulary t) (legible : e.Legible) : Readable w e := by
  cases h with
  | leaf h => exact .of_token ordinary h (words _ List.mem_cons_self) legible
  | parens opens within closes =>
    exact again within (fun t ht => words t (by simp [ht])) legible

theorem Grammar.Strand.readable (h : Strand w inner ts es)
    (words : ∀ t ∈ ts, Respelled w.vocabulary t) (legible : ∀ e ∈ es, e.Legible) :
    ∀ e ∈ es, Readable w e := by
  induction h with
  | one h =>
    rw [List.forall_mem_singleton] at legible ⊢
    exact h.readable ordinary again words legible
  | cons h _ ih =>
    rw [List.forall_mem_append] at words
    rw [List.forall_mem_cons] at legible ⊢
    exact ⟨h.readable ordinary again words.1 legible.1, ih words.2 legible.2⟩

theorem Grammar.Strand.joined_readable (h : Strand w inner ts es)
    (words : ∀ t ∈ ts, Respelled w.vocabulary t) (legible : (joined es).Legible) :
    Readable w (joined es) := by
  have items := h.readable ordinary again words
  unfold Grammar.joined at legible ⊢
  split at legible
  next e =>
    exact items (by simpa using legible) e List.mem_cons_self
  next single =>
    have distinct := legible.distinct _ (Expr.self_mem_nodes _)
    have several : 2 ≤ es.length := by
      match es, h with
      | [e], _ => exact absurd rfl (single e)
      | _ :: _ :: _, _ => exact Nat.le_add_left 2 _
    have within : ∀ e ∈ es, e.Legible := fun e he =>
      legible.mono fun node hn => List.mem_cons_of_mem _ (Expr.nodes_subset_nodesOf he hn)
    refine .strand several (items within) fun e he => ?_
    exact Bool.eq_false_iff.2 fun index => by
      have any := List.any_eq_true.2 ⟨e, he, index⟩
      exact nomatch distinct.symm.trans any

omit ordinary in
theorem Grammar.Subscripts.readable (h : Subscripts inner ts es)
    (words : ∀ t ∈ ts, Respelled w.vocabulary t) (legible : ∀ e ∈ es, e.Legible) :
    ∀ e ∈ es, e = .empty ∨ Readable w e := by
  have optional {ts : List Token} {e : Expr} (h : Optional inner ts e)
      (words : ∀ t ∈ ts, Respelled w.vocabulary t) (legible : e.Legible) :
      e = .empty ∨ Readable w e := by
    cases h with
    | present h => exact .inr (again h words legible)
    | absent => exact .inl rfl
  induction h with
  | one h =>
    rw [List.forall_mem_singleton] at legible ⊢
    exact optional h words legible
  | cons h _ _ ih =>
    rw [List.forall_mem_append, List.forall_mem_cons] at words
    rw [List.forall_mem_cons] at legible ⊢
    exact ⟨optional h words.1 legible.1, ih words.2.2 legible.2⟩

omit ordinary again in
theorem Grammar.Subscripts.ne_nil (h : Subscripts inner ts es) : es ≠ [] := by
  cases h <;> exact List.cons_ne_nil _ _

omit ordinary again in
theorem Grammar.Brackets.nodes_subset {base : Expr} (h : Brackets inner base ts e) :
    base.nodes ⊆ e.nodes := by
  induction h with
  | none => exact fun _ hn => hn
  | cons _ _ _ _ ih => exact fun node hn => ih (by simp [Expr.nodes, hn])

omit ordinary in
theorem Grammar.Brackets.readable {base : Expr} (h : Brackets inner base ts e)
    (readable : Readable w base) (words : ∀ t ∈ ts, Respelled w.vocabulary t)
    (legible : e.Legible) : Readable w e := by
  induction h with
  | none => exact readable
  | cons opens within closes rest ih =>
    rw [List.forall_mem_cons, List.forall_mem_append, List.forall_mem_cons] at words
    have subscripts := within.readable again words.2.1 fun f hf => legible.mono fun node hn =>
      rest.nodes_subset (by simp [Expr.nodes, Expr.nodes_subset_nodesOf hf hn])
    exact ih (.index readable within.ne_nil subscripts) words.2.2.2 legible

end Phrases

section Expressions

variable (ordinary : w.Ordinary)
  (again : ∀ {toll ts e}, inside toll ts e → (∀ t ∈ ts, Respelled w.vocabulary t) → e.Legible →
    Readable w e)

include ordinary again

theorem Grammar.Primary.readable (h : Primary w inside ts e)
    (words : ∀ t ∈ ts, Respelled w.vocabulary t) (legible : e.Legible) : Readable w e := by
  obtain ⟨strand, brackets⟩ := h
  rw [List.forall_mem_append] at words
  have joined := strand.joined_readable ordinary again words.1
    (legible.mono brackets.nodes_subset)
  exact brackets.readable again joined words.2 legible

theorem Grammar.ExpressionOver.readable (h : ExpressionOver w inside ts e)
    (words : ∀ t ∈ ts, Respelled w.vocabulary t) (legible : e.Legible) : Readable w e := by
  cases h with
  | @unary t _ _ kind word right =>
    rw [List.forall_mem_cons] at words
    have distinct := legible.distinct _ (Expr.self_mem_nodes _)
    have operator := words.1 (.inr ⟨kind, by simpa [Expr.isMistaken] using distinct⟩)
    have part := again right words.2 (legible.mono fun node hn => by simp [Expr.nodes, hn])
    exact part.unary word (kind ▸ operator)
  | primary h => exact h.readable ordinary again words legible
  | assign left assignable kind right =>
    rw [List.forall_mem_append, List.forall_mem_cons] at words
    have target := left.readable ordinary again words.1
      (legible.mono fun node hn => by simp [Expr.nodes, hn])
    have value := again right words.2.2 (legible.mono fun node hn => by simp [Expr.nodes, hn])
    exact target.assign value assignable
  | binary left kind word right =>
    rw [List.forall_mem_append, List.forall_mem_cons] at words
    -- The word `o` alone is neither a product nor a binary operator.
    have operator := words.2.1 (.inr ⟨kind, fun outer => by
      rcases word with product | binary
      · rw [outer] at product
        exact absurd product (by decide)
      · obtain ⟨-, known⟩ := Workspace.definedBinary_iff.1 binary
        rw [outer, ordinary.spares.knows] at known
        exact nomatch known⟩)
    have left := left.readable ordinary again words.1
      (legible.mono fun node hn => by simp [Expr.nodes, hn])
    have right := again right words.2.2 (legible.mono fun node hn => by simp [Expr.nodes, hn])
    exact left.binary right word (kind ▸ operator)

end Expressions

section Statements

variable (ordinary : w.Ordinary)

include ordinary

/-- **The text of an expression is a phrase for it**, as long as it is legible. -/
theorem Grammar.Expression.readable {depth toll : Nat} (h : Expression w depth toll ts e)
    (words : ∀ t ∈ ts, Respelled w.vocabulary t) (legible : e.Legible) : Readable w e := by
  induction depth generalizing toll ts e with
  | zero => exact h.elim
  | succ depth ih =>
    cases toll with
    | zero => exact ExpressionOver.readable ordinary ih h words legible
    | succ toll => exact ih h words legible

/-- **The text of a statement is a phrase for it.** -/
theorem Grammar.Statement.written {depth : Nat} (h : Statement (Expression w depth 0) ts e)
    (words : ∀ t ∈ ts, Respelled w.vocabulary t) (legible : e.Legible) :
    ∃ us, Writes w.vocabulary e.text.toList us ∧ Statement (Expression w e.levels 0) us e := by
  cases h with
  | plain h =>
    obtain ⟨us, writes, derived⟩ := (h.readable ordinary words legible).expression
    exact ⟨us, writes, .plain derived⟩
  | @conditional _ _ _ e f condition kind result =>
    rw [List.forall_mem_append, List.forall_mem_cons] at words
    obtain ⟨us, writes, first⟩ := (condition.readable ordinary words.1
      (legible.mono fun node hn => by simp [Expr.nodes, hn])).expression
    obtain ⟨vs, writes', second⟩ := (result.readable ordinary words.2.2
      (legible.mono fun node hn => by simp [Expr.nodes, hn])).expression
    have first := first.mono (Nat.le_max_left _ f.levels)
    have second := second.mono (Nat.le_max_right e.levels _)
    refine ⟨us ++ ⟨.colon, ":", 1⟩ :: vs, ?_, .conditional first rfl second⟩
    have text := writes.blank ((Writes.spelled Writes.mark_colon.spelled).blank writes')
    simpa [Expr.text] using text

end Statements

end ArrayCalc
