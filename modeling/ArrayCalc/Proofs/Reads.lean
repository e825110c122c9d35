import ArrayCalc.Line
import ArrayCalc.Proofs.Lexemes

/-!
# What reading a tree does to a reader

A definition is read from left to right, and names are declared on the way: a name is a session
variable up to the assignment that makes a slot of it.  `Reads` relates a reader to a later one and
to the trees that were read between them.  It composes: what was read first and what was read then
are what was read.

The operators that can be named do not change meanwhile, for a name that is an operator is never
declared, the word `o` excepted.
-/

namespace ArrayCalc

/-- Whether an operator is there from the start. -/
def Signature.isPrimitive (s : Signature) : Bool :=
  match s.arity with
  | .unary => (UnaryPrimitive.ofName? s.name).isSome
  | .binary => (BinaryPrimitive.ofName? s.name).isSome

namespace Workspace

/-- Whether an operator is a primitive or has been defined, declarations aside. -/
def Knows (w : Workspace) (s : Signature) : Bool :=
  match s.arity with
  | .unary => (UnaryPrimitive.ofName? s.name).isSome || w.unary.contains s.name
  | .binary => (BinaryPrimitive.ofName? s.name).isSome || w.binary.contains s.name

/-- Whether a name is that of an operator, declarations aside. -/
def knowsName (w : Workspace) (name : String) : Bool :=
  w.Knows ⟨name, .unary⟩ || w.Knows ⟨name, .binary⟩

theorem knows_eq (w : Workspace) (s : Signature) :
    w.Knows s = (s.isPrimitive || (w.userOperator? s.arity s.name).isSome) := by
  obtain ⟨name, arity⟩ := s
  cases arity <;> rfl

theorem knowsName_of_knows {w : Workspace} {s : Signature} (h : w.Knows s = true) :
    w.knowsName s.name = true := by
  obtain ⟨name, arity⟩ := s
  unfold knowsName
  cases arity <;> simp [h]

theorem isOperatorName_eq (w : Workspace) (name : String) :
    w.isOperatorName name = (!w.isDeclared name && w.knowsName name) := by
  unfold isOperatorName definedUnary definedBinary knowsName Knows
  cases w.isDeclared name <;> rfl

theorem definedUnary_iff {w : Workspace} {name : String} :
    w.definedUnary name = true ↔ name ∉ w.declared ∧ w.Knows ⟨name, .unary⟩ = true := by
  simp [definedUnary, Knows, isDeclared]

theorem definedBinary_iff {w : Workspace} {name : String} :
    w.definedBinary name = true ↔ name ∉ w.declared ∧ w.Knows ⟨name, .binary⟩ = true := by
  simp [definedBinary, Knows, isDeclared]

theorem isOperator_vocabulary {w : Workspace} {name : String} :
    w.vocabulary.isOperator name = true ↔ name ∉ w.declared ∧ w.knowsName name = true := by
  show w.isOperatorName name = true ↔ _
  rw [isOperatorName_eq]
  simp [isDeclared]

/-- Two workspaces that differ in what is declared only. -/
def SameBase (base w : Workspace) : Prop := w = { base with declared := w.declared }

theorem SameBase.refl (w : Workspace) : SameBase w w := rfl

theorem SameBase.knows {base w : Workspace} (h : SameBase base w) (s : Signature) :
    w.Knows s = base.Knows s := by
  rw [h]
  rfl

theorem SameBase.knowsName {base w : Workspace} (h : SameBase base w) (name : String) :
    w.knowsName name = base.knowsName name := by
  rw [h]
  rfl

theorem SameBase.declaring {base w : Workspace} (h : SameBase base w) (names : List String) :
    SameBase base { w with declared := names } := by
  rw [h]
  rfl

theorem declare_declared (w : Workspace) (name : String) :
    (w.declare name).declared
      = if name ∈ w.declared then w.declared else w.declared ++ [name] := by
  unfold declare isDeclared
  by_cases h : name ∈ w.declared <;> simp [h]

theorem declare_eq (w : Workspace) (name : String) :
    w.declare name = { w with declared := (w.declare name).declared } := by
  unfold declare
  split <;> rfl

/-- A name that has been declared has a slot. -/
theorem exists_slotOf?_declare (w : Workspace) (name : String) :
    ∃ slot, (w.declare name).slotOf? name = some slot := by
  have hm : name ∈ (w.declare name).declared := by
    rw [declare_declared]
    split
    next h => exact h
    next => simp
  refine Option.isSome_iff_exists.1 ?_
  rw [slotOf?, Option.isSome_map, List.findIdx?_isSome]
  exact List.any_eq_true.2 ⟨name, hm, by simp⟩

/-- Whether an operator can be applied: it is known and no declaration hides it, or it is a sign,
which no declaration can hide. -/
def Applicable (w : Workspace) (s : Signature) : Prop :=
  s.name ∉ w.declared ∧ w.Knows s = true ∨ s = ⟨"+", .binary⟩ ∨ s = ⟨"-", .binary⟩

theorem Applicable.knows {w : Workspace} {s : Signature} (h : w.Applicable s) :
    w.Knows s = true := by
  rcases h with ⟨-, known⟩ | rfl | rfl
  · exact known
  · rfl
  · rfl

/-- The halves of a product can be applied. -/
theorem applicable_half {w : Workspace} {word : String}
    (hd : OperatorWord.Derivable w.vocabulary.isBinary word)
    (hp : OperatorWord.isProduct word = true) {s : Signature}
    (hs : s ∈ OperatorWord.partNeeds (OperatorWord.operators word)) : w.Applicable s := by
  have binary : w.definedBinary s.name = true := hd.halves hp s hs
  rw [← OperatorWord.eq_binary_of_mem_partNeeds hs]
  exact .inl (definedBinary_iff.1 binary)

/-- What a word needs that a reader takes for a unary operator. -/
theorem applicable_unary {w : Workspace} {word : String}
    (hd : OperatorWord.Derivable w.vocabulary.isBinary word)
    (hu : Reading.isUnary w word = true) :
    ∀ s ∈ OperatorWord.needs word .unary, w.Applicable s := by
  intro s hs
  unfold OperatorWord.needs at hs
  by_cases hp : OperatorWord.isProduct word = true
  · rw [if_pos hp] at hs
    exact applicable_half hd hp hs
  rw [if_neg hp] at hs
  cases hm : OperatorWord.splitMark? word with
  | some split =>
    obtain ⟨name, mark⟩ := split
    rw [hm] at hs
    obtain rfl := List.mem_singleton.1 hs
    rcases hd.base (Bool.eq_false_iff.2 hp) name mark hm with hb | rfl | rfl
    · exact .inl (definedBinary_iff.1 hb)
    · exact .inr (.inl rfl)
    · exact .inr (.inr rfl)
  | none =>
    rw [hm] at hs
    obtain rfl := List.mem_singleton.1 hs
    have no_fold : OperatorWord.isFold word = false := by rw [OperatorWord.isFold, hm]; rfl
    rw [Reading.isUnary, no_fold, Bool.false_or] at hu
    exact .inl (definedUnary_iff.1 hu)

/-- What a word needs that a reader takes for a binary operator. -/
theorem applicable_binary {w : Workspace} {word : String}
    (hd : OperatorWord.Derivable w.vocabulary.isBinary word)
    (hb : Reading.isBinary w word = true) :
    ∀ s ∈ OperatorWord.needs word .binary, w.Applicable s := by
  intro s hs
  unfold OperatorWord.needs at hs
  by_cases hp : OperatorWord.isProduct word = true
  · rw [if_pos hp] at hs
    exact applicable_half hd hp hs
  rw [if_neg hp] at hs
  obtain rfl := List.mem_singleton.1 hs
  rw [Reading.isBinary, Bool.eq_false_iff.2 hp, Bool.false_or] at hb
  exact .inl (definedBinary_iff.1 hb)

end Workspace

/-- A token whose text is sound for a vocabulary. -/
structure Token.Sound (v : Vocabulary) (t : Token) : Prop
    extends Lexeme.SoundText v t.kind t.text where
  named : Lexeme.IsName t.kind → Text.isIdentifier t.text = true → Lexeme.Named v t.text

theorem Token.Sound.of_kind {v : Vocabulary} {t : Token}
    (h : t.kind = .endOfInput ∨ t.kind = .newline) :
    t.Sound v := by
  refine ⟨.of_kind _ ?_ ?_, ?_⟩
  all_goals rcases h with h | h <;> rw [h]
  all_goals try decide
  all_goals
    rintro (e | e) <;> exact nomatch e

namespace Source

/-- A token that is scanned is sound for the vocabulary of the moment. -/
theorem next_sound {v : Vocabulary} {s s' : Scanner} {t : Token} (h : s.next v = (.ok t, s')) :
    t.Sound v := by
  unfold Scanner.next at h
  dsimp only at h
  split at h
  · obtain ⟨ht, -⟩ := Prod.mk.inj h
    obtain rfl := Except.ok.inj ht
    exact .of_kind (.inl rfl)
  next c rest hr =>
    split at h
    next kind length hl =>
      obtain ⟨ht, -⟩ := Prod.mk.inj h
      obtain rfl := Except.ok.inj ht
      rw [hr]
      exact ⟨Lexeme.sound_ofText hl, Lexeme.ofText_named hl⟩
    next =>
      obtain ⟨ht, -⟩ := Prod.mk.inj h
      obtain rfl := Except.ok.inj ht
      exact .of_kind (.inr rfl)
    next => simp at h

theorem peek_ok {v : Vocabulary} {s s' : Source} {t : Token} (h : s.peek v = (.ok t, s')) :
    s'.peeked = some t ∧ (s.peeked = some t ∨ t.Sound v) := by
  unfold peek at h
  split at h
  next hp =>
    obtain ⟨ht, rfl⟩ := Prod.mk.inj h
    obtain rfl := Except.ok.inj ht
    exact ⟨hp, .inl hp⟩
  next =>
    split at h
    next hn =>
      obtain ⟨ht, rfl⟩ := Prod.mk.inj h
      obtain rfl := Except.ok.inj ht
      exact ⟨rfl, .inr (next_sound hn)⟩
    next => simp at h

theorem take_ok {v : Vocabulary} {s s' : Source} {t : Token} (h : s.take v = (.ok t, s')) :
    s'.peeked = none ∧ (s.peeked = some t ∨ t.Sound v) := by
  unfold take at h
  split at h
  next hp =>
    obtain ⟨ht, rfl⟩ := Prod.mk.inj h
    obtain rfl := Except.ok.inj ht
    exact ⟨rfl, (peek_ok hp).2⟩
  next => simp at h

end Source

/-! ## § The relation -/

/-- A reader of a definition whose parameters are declared or, without parameters, of a line outside
of definitions; `base` is the workspace without declarations. -/
structure Scoped (base : Workspace) (parameters : List String) (r : Reader) : Prop where
  same_base : base.SameBase r.workspace
  closed : parameters = [] → r.free = none ∧ r.workspace.declared = []
  nodup : r.workspace.declared.Nodup
  parameters_first : parameters <+: r.workspace.declared
  identifiers : ∀ name ∈ parameters, Text.isIdentifier name = true
  fresh : ∀ name ∈ r.workspace.declared,
    name ∈ parameters ∨ name = "o" ∨ base.knowsName name = false
  sound : r.free.isSome → ∀ t, r.source.peeked = some t → t.Sound r.workspace.vocabulary

/-- What is left of a reader that has been stopped. -/
structure Stopped (base : Workspace) (parameters : List String) (r : Reader) : Prop where
  same_base : base.SameBase r.workspace
  closed : parameters = [] → r.workspace.declared = []

namespace Scoped

variable {base : Workspace} {parameters : List String} {r : Reader}

theorem stopped (h : Scoped base parameters r) : Stopped base parameters r :=
  ⟨h.same_base, fun hp => (h.closed hp).2⟩

/-- An operator that can be applied is known and no parameter. -/
theorem of_applicable (h : Scoped base parameters r) {s : Signature}
    (hs : r.workspace.Applicable s) : base.Knows s = true ∧ s.name ∉ parameters := by
  rcases hs with ⟨undeclared, known⟩ | sign
  · rw [h.same_base.knows] at known
    exact ⟨known, fun hm => undeclared (h.parameters_first.mem hm)⟩
  · constructor
    · rcases sign with rfl | rfl <;> rfl
    · intro hm
      have := h.identifiers s.name hm
      rcases sign with rfl | rfl <;> exact absurd this (by decide)

theorem needs_unary (h : Scoped base parameters r) {word : String}
    (hd : OperatorWord.Derivable r.workspace.vocabulary.isBinary word)
    (hu : Reading.isUnary r.workspace word = true) :
    ∀ s ∈ OperatorWord.needs word .unary, base.Knows s = true ∧ s.name ∉ parameters :=
  fun s hs => h.of_applicable (Workspace.applicable_unary hd hu s hs)

theorem needs_binary (h : Scoped base parameters r) {word : String}
    (hd : OperatorWord.Derivable r.workspace.vocabulary.isBinary word)
    (hb : Reading.isBinary r.workspace word = true) :
    ∀ s ∈ OperatorWord.needs word .binary, base.Knows s = true ∧ s.name ∉ parameters :=
  fun s hs => h.of_applicable (Workspace.applicable_binary hd hb s hs)

end Scoped

/-- What a reader has read, between two moments, and what it has declared and noted on the way. -/
structure Reads (base : Workspace) (parameters : List String) (r r' : Reader)
    (trees : List Expr) : Prop where
  scope : Scoped base parameters r'
  declared : r.workspace.declared <+: r'.workspace.declared
  defining : r'.free.isSome = r.free.isSome
  slots : ∀ name slot, .slotVar name slot ∈ Expr.nodesOf trees →
    0 < slot ∧ r'.workspace.declared[slot - 1]? = some name
  applied : r.free.isSome → ∀ node ∈ Expr.nodesOf trees, ∀ s ∈ node.applied,
    base.Knows s = true ∧ s.name ∉ parameters
  free : r.free.isSome → ∀ name,
    name ∈ r'.free.getD [] ↔ name ∈ r.free.getD [] ∨ .sessionVar name ∈ Expr.nodesOf trees
  names : r.free.isSome → ∀ name, .sessionVar name ∈ Expr.nodesOf trees →
    name = "o" ∨ base.knowsName name = false
  /-- No word goes beyond its line. -/
  lines : r.free.isSome → Expr.OnLine (Expr.nodesOf trees)
  /-- The use of a session variable is what was noted last. -/
  last : ∀ name, trees = [.sessionVar name] → r'.free = r.free.map (· ++ [name])
  none_free : trees = [] → r'.free = r.free

namespace Reads

variable {base : Workspace} {parameters : List String} {r r' r'' : Reader} {ts us : List Expr}
  {name : String}

theorem getElem?_of_prefix {α : Type} {as bs : List α} (h : as <+: bs) {i : Nat} {a : α}
    (ha : as[i]? = some a) : bs[i]? = some a := by
  obtain ⟨cs, rfl⟩ := h
  rw [List.getElem?_append_left (List.getElem?_eq_some_iff.1 ha).1, ha]

theorem trans (h : Reads base parameters r r' ts) (k : Reads base parameters r' r'' us) :
    Reads base parameters r r'' (ts ++ us) where
  scope := k.scope
  declared := h.declared.trans k.declared
  defining := k.defining.trans h.defining
  slots name slot hs := by
    rw [Expr.nodesOf_append, List.mem_append] at hs
    rcases hs with hs | hs
    · obtain ⟨hpos, hget⟩ := h.slots name slot hs
      exact ⟨hpos, getElem?_of_prefix k.declared hget⟩
    · exact k.slots name slot hs
  applied hf node hn := by
    rw [Expr.nodesOf_append, List.mem_append] at hn
    rcases hn with hn | hn
    · exact h.applied hf node hn
    · exact k.applied (h.defining ▸ hf) node hn
  free hf name := by
    rw [k.free (h.defining ▸ hf), h.free hf, Expr.nodesOf_append, List.mem_append, or_assoc]
  names hf name hn := by
    rw [Expr.nodesOf_append, List.mem_append] at hn
    rcases hn with hn | hn
    · exact h.names hf name hn
    · exact k.names (h.defining ▸ hf) name hn
  lines hf node hn := by
    rw [Expr.nodesOf_append, List.mem_append] at hn
    rcases hn with hn | hn
    · exact h.lines hf node hn
    · exact k.lines (h.defining ▸ hf) node hn
  last name he := by
    cases ts with
    | nil =>
      rw [k.last name he, h.none_free rfl]
    | cons t ts =>
      obtain ⟨rfl, hnil⟩ := List.cons.inj he
      obtain ⟨rfl, rfl⟩ := List.append_eq_nil_iff.1 hnil
      rw [k.none_free rfl, h.last name rfl]
  none_free he := by
    obtain ⟨rfl, rfl⟩ := List.append_eq_nil_iff.1 he
    rw [k.none_free rfl, h.none_free rfl]

/-- To take or look at tokens reads nothing, as long as nothing else changes. -/
theorem of_source (h : Scoped base parameters r) (hw : r'.workspace = r.workspace)
    (hf : r'.free = r.free)
    (hs : r.free.isSome → ∀ t, r'.source.peeked = some t → t.Sound r.workspace.vocabulary) :
    Reads base parameters r r' [] where
  scope := {
    same_base := hw ▸ h.same_base
    closed := fun hp => by
      rw [hw, hf]
      exact h.closed hp
    nodup := hw ▸ h.nodup
    parameters_first := hw ▸ h.parameters_first
    identifiers := h.identifiers
    fresh := hw ▸ h.fresh
    sound := by
      rw [hw, hf]
      exact hs }
  declared := hw ▸ List.prefix_rfl
  defining := by rw [hf]
  slots _ _ hn := by simp [Expr.nodesOf] at hn
  applied _ _ hn := by simp [Expr.nodesOf] at hn
  free _ name := by simp [Expr.nodesOf, hf]
  names _ _ hn := by simp [Expr.nodesOf] at hn
  lines _ _ hn := by simp [Expr.nodesOf] at hn
  last _ he := by simp at he
  none_free _ := hf

/-- Trees become the parts of one tree that is no variable. -/
theorem wrap (h : Reads base parameters r r' ts) {e : Expr}
    (hn : e.nodes = e :: Expr.nodesOf ts) (hv : ∀ name, e ≠ .sessionVar name)
    (hl : ∀ name slot, e ≠ .slotVar name slot)
    (ha : r.free.isSome → (∀ s ∈ e.applied, base.Knows s = true ∧ s.name ∉ parameters) ∧
      ∀ word ∈ e.words, '\n' ∉ word.toList) :
    Reads base parameters r r' [e] where
  scope := h.scope
  declared := h.declared
  defining := h.defining
  slots name slot hs := by
    rw [Expr.nodesOf_singleton, hn, List.mem_cons] at hs
    rcases hs with rfl | hs
    · exact absurd rfl (hl name slot)
    · exact h.slots name slot hs
  applied hf node hm := by
    rw [Expr.nodesOf_singleton, hn, List.mem_cons] at hm
    rcases hm with rfl | hm
    · exact (ha hf).1
    · exact h.applied hf node hm
  free hf name := by
    rw [h.free hf, Expr.nodesOf_singleton, hn, List.mem_cons]
    constructor
    · exact Or.imp_right .inr
    · rintro (hm | rfl | hm)
      · exact .inl hm
      · exact absurd rfl (hv name)
      · exact .inr hm
  names hf name hm := by
    rw [Expr.nodesOf_singleton, hn, List.mem_cons] at hm
    rcases hm with rfl | hm
    · exact absurd rfl (hv name)
    · exact h.names hf name hm
  lines hf node hm := by
    rw [Expr.nodesOf_singleton, hn, List.mem_cons] at hm
    rcases hm with rfl | hm
    · exact (ha hf).2
    · exact h.lines hf node hm
  last name he := absurd (List.cons.inj he).1 (hv name)
  none_free he := by simp at he

/-- A constant or a part that was left out. -/
theorem leaf (h : Reads base parameters r r' []) {e : Expr} (hn : e.nodes = [e])
    (hv : ∀ name, e ≠ .sessionVar name) (hl : ∀ name slot, e ≠ .slotVar name slot)
    (ha : e.applied = []) (hw : e.words = []) : Reads base parameters r r' [e] :=
  h.wrap hn hv hl fun _ => by
    rw [ha, hw]
    exact ⟨nofun, nofun⟩

/-- The use of a declared name. -/
theorem slot (h : Scoped base parameters r) {name : String} {slot : Nat}
    (hs : r.workspace.slotOf? name = some slot)
    (hl : r.free.isSome → '\n' ∉ name.toList) :
    Reads base parameters r r [.slotVar name slot] where
  scope := h
  declared := List.prefix_rfl
  defining := rfl
  slots name' slot' hm := by
    rw [Expr.nodesOf_singleton, Expr.nodes, List.mem_singleton] at hm
    obtain ⟨rfl, rfl⟩ := Expr.slotVar.inj hm
    obtain ⟨i, hi, rfl⟩ := Option.map_eq_some_iff.1 hs
    obtain ⟨hlt, heq, -⟩ := List.findIdx?_eq_some_iff_getElem.1 hi
    refine ⟨Nat.succ_pos i, ?_⟩
    rw [Nat.add_sub_cancel, List.getElem?_eq_getElem hlt, eq_of_beq heq]
  applied _ node hm := by
    rw [Expr.nodesOf_singleton, Expr.nodes, List.mem_singleton] at hm
    subst hm
    simp [Expr.applied]
  free _ name' := by simp [Expr.nodesOf_singleton, Expr.nodes]
  names _ name' hm := by simp [Expr.nodesOf_singleton, Expr.nodes] at hm
  lines hf node hm := by
    rw [Expr.nodesOf_singleton, Expr.nodes, List.mem_singleton] at hm
    subst hm
    simpa [Expr.words] using hl hf
  last _ he := by simp at he
  none_free he := by simp at he

/-- The use of a name that is not declared. -/
theorem free_use (h : Scoped base parameters r) {name : String}
    (hn : r.free.isSome → name = "o" ∨ base.knowsName name = false)
    (hl : r.free.isSome → '\n' ∉ name.toList) :
    Reads base parameters r { r with free := r.free.map (· ++ [name]) } [.sessionVar name] where
  scope := { h with
    closed := fun hp => ⟨by simp [(h.closed hp).1], (h.closed hp).2⟩
    sound := fun hf => h.sound (by simpa using hf) }
  declared := List.prefix_rfl
  defining := by simp
  slots name' slot hm := by simp [Expr.nodesOf_singleton, Expr.nodes] at hm
  applied _ node hm := by
    rw [Expr.nodesOf_singleton, Expr.nodes, List.mem_singleton] at hm
    subst hm
    simp [Expr.applied]
  free hf name' := by
    obtain ⟨seen, hs⟩ := Option.isSome_iff_exists.1 hf
    simp [hs, Expr.nodesOf_singleton, Expr.nodes]
  names hf name' hm := by
    rw [Expr.nodesOf_singleton, Expr.nodes, List.mem_singleton] at hm
    obtain rfl := Expr.sessionVar.inj hm
    exact hn hf
  lines hf node hm := by
    rw [Expr.nodesOf_singleton, Expr.nodes, List.mem_singleton] at hm
    subst hm
    simpa [Expr.words] using hl hf
  last name' he := by
    obtain rfl := Expr.sessionVar.inj (List.cons.inj he).1
    rfl
  none_free he := by simp at he

/-- The first assignment to a name: what was noted as the use of a session variable is a slot. -/
theorem declare (h : Reads base parameters r r' [.sessionVar name]) {seen : List String}
    (hf : r'.free = some seen) (hp : r'.source.peeked = none) {slot : Nat}
    (hs : (r'.workspace.declare name).slotOf? name = some slot) :
    Reads base parameters r
      { r' with
        workspace := r'.workspace.declare name
        free := some (if seen.getLast? = some name then seen.dropLast else seen) }
      [.slotVar name slot] := by
  have hfree := h.last name rfl
  rw [hf] at hfree
  obtain ⟨noted, hr, rfl⟩ := Option.map_eq_some_iff.1 hfree.symm
  have hseen : (if (noted ++ [name]).getLast? = some name then (noted ++ [name]).dropLast
      else noted ++ [name]) = noted := by simp
  rw [hseen]
  have hd := r'.workspace.declare_declared name
  have grows : r'.workspace.declared <+: (r'.workspace.declare name).declared := by
    rw [hd]
    split
    · exact List.prefix_rfl
    · exact List.prefix_append _ _
  have scope : Scoped base parameters
      { r' with workspace := r'.workspace.declare name, free := some noted } := {
    same_base := by
      show base.SameBase (r'.workspace.declare name)
      rw [r'.workspace.declare_eq name]
      exact h.scope.same_base.declaring _
    closed := fun hp => by
      have := (h.scope.closed hp).1
      rw [hf] at this
      simp at this
    nodup := by
      show (r'.workspace.declare name).declared.Nodup
      rw [hd]
      split
      · exact h.scope.nodup
      next hn => exact List.nodup_append.2 ⟨h.scope.nodup, by simp, by
          intro a ha b hb
          obtain rfl := List.mem_singleton.1 hb
          rintro rfl
          exact hn ha⟩
    parameters_first := h.scope.parameters_first.trans grows
    identifiers := h.scope.identifiers
    fresh := by
      intro other hm
      change other ∈ (r'.workspace.declare name).declared at hm
      rw [hd] at hm
      split at hm
      · exact h.scope.fresh other hm
      · rcases List.mem_append.1 hm with hm | hm
        · exact h.scope.fresh other hm
        · obtain rfl := List.mem_singleton.1 hm
          refine .inr (h.names (by rw [hr]; rfl) other ?_)
          simp [Expr.nodesOf_singleton, Expr.nodes]
    sound := by
      intro _ t ht
      change r'.source.peeked = some t at ht
      rw [hp] at ht
      simp at ht }
  have use := Reads.slot scope hs fun _ =>
    h.lines (by rw [hr]; rfl) (.sessionVar name)
      (by simp [Expr.nodesOf_singleton, Expr.nodes]) name (by simp [Expr.words])
  exact {
    scope := scope
    declared := h.declared.trans grows
    defining := by rw [hr]
    slots := use.slots
    applied := fun _ => use.applied rfl
    free := fun _ name' => by
      rw [hr]
      exact use.free rfl name'
    names := fun _ => use.names rfl
    lines := fun _ => use.lines rfl
    last := fun name' he => by simp at he
    none_free := fun he => by simp at he }

end Reads

end ArrayCalc
