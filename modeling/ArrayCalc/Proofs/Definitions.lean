import ArrayCalc.Proofs.ReadingScope

/-!
# What a definition leaves behind

A definition that has been read is the only operator of its name and arity afterwards, and its scope
is right.  One that has failed leaves the operators as they were.  Either may take a name from a
variable that holds zero, but never a reserved one.
-/

namespace ArrayCalc

namespace Workspace

/-- What a definition never changes. -/
structure SameRest (w w' : Workspace) : Prop where
  settings : w'.settings = w.settings
  stack : w'.stack = w.stack
  dice : w'.dice = w.dice
  reserved : ∀ name ∈ reservedNames, w'.global? name = w.global? name
  /-- A definition may take a name from a variable, but never gives one a value. -/
  released : ∀ name, w'.global? name = w.global? name ∨ w'.global? name = none

/-- The workspace `w'` after the definition of `f` at `w`. -/
structure Installed (w : Workspace) (f : UserOperator) (w' : Workspace) : Prop where
  rest : w.SameRest w'
  declared : w'.declared = []
  definitions : w'.definitions
    = w.definitions.filter (· != ⟨f.name, f.arity⟩) ++ [⟨f.name, f.arity⟩]
  operators : ∀ arity name, w'.userOperator? arity name
    = if name = f.name ∧ arity = f.arity then some f else w.userOperator? arity name
  unreserved : f.name ∉ reservedNames
  /-- No variable has the name then. -/
  claimed : w'.global? f.name = none

/-- The workspace `w'` after a line that has defined nothing. -/
structure Restored (w w' : Workspace) : Prop where
  rest : w.SameRest w'
  declared : w'.declared = []
  definitions : w'.definitions = w.definitions
  operators : ∀ arity name, w'.userOperator? arity name = w.userOperator? arity name

theorem SameRest.refl (w : Workspace) : w.SameRest w :=
  ⟨rfl, rfl, rfl, fun _ _ => rfl, fun _ => .inl rfl⟩

theorem SameRest.unbound {w w' : Workspace} (h : w.SameRest w') {name : String}
    (hn : w.global? name = none) : w'.global? name = none :=
  (h.released name).elim (fun same => same.trans hn) id

/-- Declarations, definitions and operators are not part of the rest. -/
theorem SameRest.of_eq {w w' w'' : Workspace} (h : w.SameRest w')
    (heq : w'' = { w' with
      unary := w''.unary, binary := w''.binary, definitions := w''.definitions,
      declared := w''.declared }) : w.SameRest w'' := by
  rw [heq]
  exact ⟨h.settings, h.stack, h.dice, h.reserved, h.released⟩

theorem SameRest.trans {w w' w'' : Workspace} (h : w.SameRest w') (k : w'.SameRest w'') :
    w.SameRest w'' :=
  ⟨k.settings.trans h.settings, k.stack.trans h.stack, k.dice.trans h.dice,
    fun name hn => (k.reserved name hn).trans (h.reserved name hn),
    fun name => (k.released name).elim (fun same => (h.released name).imp same.trans same.trans)
      .inr⟩

theorem Restored.refl {w : Workspace} (h : w.declared = []) : w.Restored w :=
  ⟨.refl w, h, rfl, fun _ _ => rfl⟩

@[simp]
theorem table_withTable (w : Workspace) (arity other : Arity) (b : Bindings UserOperator) :
    (w.withTable arity b).table other = if other = arity then b else w.table other := by
  cases arity <;> cases other <;> rfl

theorem withTable_rest (w : Workspace) (arity : Arity) (b : Bindings UserOperator) :
    w.SameRest (w.withTable arity b) ∧ (w.withTable arity b).declared = w.declared ∧
      (w.withTable arity b).definitions = w.definitions ∧
      (w.withTable arity b).globals = w.globals := by
  cases arity <;> exact ⟨(SameRest.refl w).of_eq rfl, rfl, rfl, rfl⟩

/-- What a name that can be claimed is not, and that no variable has it afterwards. -/
theorem claimName_cases {w w' : Workspace} {name : String} {arity : Arity}
    (h : w.claimName name arity = .ok w') :
    name ∉ reservedNames ∧ ¬(name = "o" ∧ arity = .binary) ∧
      (w' = w ∧ w.global? name = none ∨ w' = { w with globals := w.globals.erase name }) := by
  unfold claimName at h
  split at h
  · exact nomatch h
  next unreserved =>
    split at h
    · exact nomatch h
    next ho =>
      refine ⟨fun hm => unreserved (List.contains_iff_mem.2 hm), ho, ?_⟩
      unfold releaseName at h
      split at h
      next hn =>
        obtain rfl := Except.ok.inj h
        exact .inl ⟨rfl, hn⟩
      · split at h
        · obtain rfl := Except.ok.inj h
          exact .inr rfl
        · exact nomatch h
      · exact nomatch h

theorem claimName_global? {w w' : Workspace} {name : String} {arity : Arity}
    (h : w.claimName name arity = .ok w') (other : String) :
    w'.global? other = if other = name then none else w.global? other := by
  obtain ⟨-, -, ⟨rfl, hn⟩ | rfl⟩ := claimName_cases h
  · split
    next same => rw [same, hn]
    next => rfl
  · exact Bindings.get?_erase _ _ _

theorem claimName_ok {w w' : Workspace} {name : String} {arity : Arity}
    (h : w.claimName name arity = .ok w') :
    w' = { w with globals := w'.globals } ∧ w.SameRest w' ∧ ¬(name = "o" ∧ arity = .binary) := by
  obtain ⟨unreserved, ho, cases⟩ := claimName_cases h
  have heq : w' = { w with globals := w'.globals } := by
    rcases cases with ⟨rfl, -⟩ | rfl <;> rfl
  refine ⟨heq, ⟨?_, ?_, ?_, ?_, ?_⟩, ho⟩
  · rw [heq]
  · rw [heq]
  · rw [heq]
  · intro other hm
    rw [claimName_global? h, if_neg]
    rintro rfl
    exact unreserved hm
  · intro other
    rw [claimName_global? h]
    split
    · exact .inr rfl
    · exact .inl rfl

/-- A name can be claimed where no variable has it. -/
theorem claimName_of_unbound {w w' other : Workspace} {name : String} {arity : Arity}
    (h : w.claimName name arity = .ok w') (hn : other.global? name = none) :
    other.claimName name arity = .ok other := by
  obtain ⟨unreserved, ho, -⟩ := claimName_cases h
  unfold claimName releaseName
  rw [if_neg fun hm => unreserved (List.contains_iff_mem.1 hm), if_neg ho, hn]

theorem claimName_userOperator? {w w' : Workspace} {name : String} {arity : Arity}
    (h : w.claimName name arity = .ok w') (other : Arity) (operator : String) :
    w'.userOperator? other operator = w.userOperator? other operator := by
  rw [(claimName_ok h).1]
  cases other <;> rfl

theorem userOperator?_withTable_insert (w : Workspace) (arity other : Arity)
    (name operator : String) (f : UserOperator) :
    (w.withTable arity ((w.table arity).insert name f)).userOperator? other operator
      = if operator = name ∧ other = arity then some f else w.userOperator? other operator := by
  unfold userOperator?
  rw [table_withTable]
  by_cases ha : other = arity
  · subst ha
    rw [if_pos rfl, Bindings.get?_insert]
    by_cases hn : operator = name <;> simp [hn]
  · simp [ha]

/-- A workspace in which the word `o` is left to outer products. -/
def SparesOuter (w : Workspace) : Prop := w.userOperator? .binary "o" = none

theorem SparesOuter.knows {w : Workspace} (h : w.SparesOuter) :
    w.Knows ⟨"o", .binary⟩ = false := by
  rw [knows_eq]
  show (Signature.isPrimitive ⟨"o", .binary⟩ || (w.userOperator? .binary "o").isSome) = false
  rw [h]
  rfl

/-- A workspace with an operator in its place. -/
def install (w : Workspace) (f : UserOperator) : Workspace :=
  w.withTable f.arity ((w.table f.arity).insert f.name f)

theorem beginDefinition_iff {w base : Workspace} {name right : String} {left : Option String} :
    w.beginDefinition name left right = .ok base ↔
      ∃ w₁, w.claimName name (placeholder name left right).arity = .ok w₁ ∧
        base = w₁.install (placeholder name left right) := by
  unfold beginDefinition
  dsimp only
  cases w.claimName name (placeholder name left right).arity with
  | error => simp [bind, Except.bind]
  | ok w₁ =>
    constructor
    · intro h
      exact ⟨w₁, rfl, (Except.ok.inj h).symm⟩
    · rintro ⟨w₂, hw, rfl⟩
      obtain rfl := Except.ok.inj hw
      rfl

theorem define_iff {w w' : Workspace} {f : UserOperator} :
    w.define f = .ok w' ↔ ∃ w₁, w.claimName f.name f.arity = .ok w₁ ∧
      w' = { w₁.install f with definitions :=
        (w₁.install f).definitions.filter (· != ⟨f.name, f.arity⟩) ++ [⟨f.name, f.arity⟩] } := by
  unfold define
  dsimp only
  cases w.claimName f.name f.arity with
  | error => simp [bind, Except.bind]
  | ok w₁ =>
    constructor
    · intro h
      exact ⟨w₁, rfl, (Except.ok.inj h).symm⟩
    · rintro ⟨w₂, hw, rfl⟩
      obtain rfl := Except.ok.inj hw
      rfl

/-- What there is once a definition has been begun. -/
theorem beginDefinition_ok {w base : Workspace} {name right : String} {left : Option String}
    (h : w.beginDefinition name left right = .ok base) :
    w.SameRest base ∧ base.declared = w.declared ∧ base.definitions = w.definitions ∧
      ¬(name = "o" ∧ (placeholder name left right).arity = .binary) ∧
      ∀ arity operator, base.userOperator? arity operator
        = if operator = name ∧ arity = (placeholder name left right).arity then
            some (placeholder name left right)
          else w.userOperator? arity operator := by
  obtain ⟨w₁, hc, rfl⟩ := beginDefinition_iff.1 h
  obtain ⟨heq, hrest, ho⟩ := claimName_ok hc
  obtain ⟨hr, hd, hdef, -⟩ := w₁.withTable_rest (placeholder name left right).arity
    ((w₁.table (placeholder name left right).arity).insert name (placeholder name left right))
  refine ⟨hrest.trans hr, hd.trans ?_, hdef.trans ?_, ho, fun arity operator => ?_⟩
  · rw [heq]
  · rw [heq]
  · rw [← claimName_userOperator? hc]
    exact userOperator?_withTable_insert ..

/-- Once a definition has been begun, its operator is known. -/
theorem beginDefinition_knows {w base : Workspace} {name right : String} {left : Option String}
    (h : w.beginDefinition name left right = .ok base) (s : Signature) :
    base.Knows s = true ↔
      s = ⟨name, (placeholder name left right).arity⟩ ∨ w.Knows s = true := by
  obtain ⟨other, arity⟩ := s
  rw [knows_eq, knows_eq, (beginDefinition_ok h).2.2.2.2, Signature.mk.injEq, Bool.or_eq_true,
    Bool.or_eq_true]
  by_cases same : other = name ∧ arity = (placeholder name left right).arity
  · simp [same]
  · simp [same]

theorem beginDefinition_global? {w base : Workspace} {name right : String} {left : Option String}
    (h : w.beginDefinition name left right = .ok base) (other : String) :
    base.global? other = if other = name then none else w.global? other := by
  obtain ⟨w₁, hc, rfl⟩ := beginDefinition_iff.1 h
  rw [← claimName_global? hc]
  show (w₁.install _).globals.get? other = w₁.globals.get? other
  rw [install, (w₁.withTable_rest _ _).2.2.2]

theorem define_ok {w w' : Workspace} {f : UserOperator} (h : w.define f = .ok w') :
    w.SameRest w' ∧ w'.declared = w.declared ∧
      w'.definitions = w.definitions.filter (· != ⟨f.name, f.arity⟩) ++ [⟨f.name, f.arity⟩] ∧
      ∀ arity operator, w'.userOperator? arity operator
        = if operator = f.name ∧ arity = f.arity then some f
          else w.userOperator? arity operator := by
  obtain ⟨w₁, hc, rfl⟩ := define_iff.1 h
  obtain ⟨heq, hrest, -⟩ := claimName_ok hc
  obtain ⟨hr, hd, hdef, -⟩ := w₁.withTable_rest f.arity ((w₁.table f.arity).insert f.name f)
  refine ⟨(hrest.trans hr).of_eq rfl, hd.trans ?_, ?_, fun arity operator => ?_⟩
  · rw [heq]
  · show (w₁.install f).definitions.filter _ ++ _ = _
    have listed : w₁.definitions = w.definitions := by rw [heq]
    rw [show (w₁.install f).definitions = w.definitions from hdef.trans listed]
  · rw [← claimName_userOperator? hc, ← userOperator?_withTable_insert]
    cases arity <;> rfl

theorem define_claims {w w' : Workspace} {f : UserOperator} (h : w.define f = .ok w') :
    f.name ∉ reservedNames ∧ w'.global? f.name = none := by
  obtain ⟨w₁, hc, rfl⟩ := define_iff.1 h
  refine ⟨(claimName_cases hc).1, ?_⟩
  show (w₁.install f).globals.get? f.name = none
  rw [install, (w₁.withTable_rest _ _).2.2.2]
  exact (claimName_global? hc f.name).trans (if_pos rfl)

theorem abandonDefinition_operators (w : Workspace) (name operator : String)
    (arity other : Arity) (previous : Option UserOperator) :
    (w.abandonDefinition name arity previous).userOperator? other operator
      = if operator = name ∧ other = arity then previous
        else w.userOperator? other operator := by
  unfold abandonDefinition userOperator?
  rw [table_withTable]
  by_cases ha : other = arity
  · subst ha
    rw [if_pos rfl, Bindings.get?_restore]
    by_cases hn : operator = name <;> simp [hn]
  · simp [ha]

end Workspace

/-- What an operator is stored under. -/
def UserOperator.signature (f : UserOperator) : Signature := ⟨f.name, f.arity⟩

/-- What is known of the words of an operator that has been read with a vocabulary. -/
structure UserOperator.Worded (v : Vocabulary) (f : UserOperator) : Prop where
  name : Text.isIdentifier f.name = true
  named : Lexeme.Named v f.name
  parameters : ∀ name ∈ f.parameters, Text.isIdentifier name = true
  lines : Expr.OnLine f.nodes

namespace Reading

theorem firstOccurrences_foldl (names seen : List String) (h : seen.Nodup) :
    (names.foldl (fun seen name => if seen.contains name then seen else seen ++ [name]) seen).Nodup ∧
      ∀ name, name ∈ names.foldl
        (fun seen name => if seen.contains name then seen else seen ++ [name]) seen
        ↔ name ∈ seen ∨ name ∈ names := by
  induction names generalizing seen with
  | nil => exact ⟨h, fun name => by simp⟩
  | cons first names ih =>
    rw [List.foldl_cons]
    by_cases hf : seen.contains first = true
    · rw [if_pos hf]
      obtain ⟨nodup, mem⟩ := ih seen h
      refine ⟨nodup, fun name => ?_⟩
      rw [mem, List.mem_cons]
      constructor
      · exact Or.imp_right .inr
      · rintro (hs | rfl | hn)
        · exact .inl hs
        · exact .inl (List.contains_iff_mem.1 hf)
        · exact .inr hn
    · rw [if_neg hf]
      have hm : first ∉ seen := fun hm => hf (List.contains_iff_mem.2 hm)
      have grown : (seen ++ [first]).Nodup := by
        rw [List.nodup_append]
        refine ⟨h, by simp, ?_⟩
        rintro a ha b hb rfl
        exact hm (List.mem_singleton.1 hb ▸ ha)
      obtain ⟨nodup, mem⟩ := ih _ grown
      refine ⟨nodup, fun name => ?_⟩
      rw [mem, List.mem_append, List.mem_singleton, List.mem_cons, or_assoc]

theorem nodup_firstOccurrences (names : List String) : (firstOccurrences names).Nodup :=
  (firstOccurrences_foldl names [] .nil).1

theorem mem_firstOccurrences {names : List String} {name : String} :
    name ∈ firstOccurrences names ↔ name ∈ names := by
  rw [firstOccurrences, (firstOccurrences_foldl names [] .nil).2]
  simp

variable {base : Workspace} {parameters : List String} {r r' : Reader} {α : Type}

/-! ## § Bodies -/

theorem bodyLines_scopes [Machine] (count : Nat) : Scopes base parameters (bodyLines count) id := by
  induction count with
  | zero =>
    intro r h
    exact .pure (.of_source h rfl rfl h.sound)
  | succ count ih =>
    intro r h
    refine .bind (peekKind_scopes r h) fun kind r₁ k => ?_
    split
    · exact .bind (discard_scopes k.scope) fun _ r₂ ⟨l, _⟩ => .pure (k.trans l)
    · refine .bind (statements_scopes r₁ k.scope) fun first r₂ l => ?_
      refine .bind (endOfLine_scopes r₂ l.scope) fun t r₃ m => ?_
      have read : Reads base parameters r r₃ first := by simpa using k.trans (l.trans m)
      split
      · exact .pure read
      · exact .bind (ih r₃ m.scope) fun rest r₄ n => .pure (read.trans n)

theorem body_scopes [Machine] : Scopes base parameters body id := by
  intro r h
  refine .bind (peekKind_scopes r h) fun kind r₁ k => ?_
  split
  · refine .bind (discard_scopes k.scope) fun _ r₂ ⟨l, _⟩ => ?_
    refine .bind (remaining_scopes r₂ l.scope) fun n r₃ m => ?_
    refine .bind (bodyLines_scopes n r₃ m.scope) fun es r₄ o => ?_
    split
    · exact .get (.throw o.scope.stopped)
    · exact .pure (k.trans (l.trans (m.trans o)))
  · refine .bind (statements_scopes r₁ k.scope) fun es r₂ l => ?_
    refine .bind (endOfLine_scopes r₂ l.scope) fun t r₃ m => .pure ?_
    simpa using k.trans (l.trans m)

/-! ## § The head -/

/-- A reader of which the next token, if it has been looked at, is sound. -/
def SoundNext (v : Vocabulary) (r : Reader) : Prop := ∀ t, r.source.peeked = some t → t.Sound v

/-- A reader that takes tokens of a vocabulary and changes nothing else. -/
def Quiet (v : Vocabulary) (x : Reading α) (P : α → Prop) : Prop :=
  ∀ r, r.workspace.vocabulary = v → SoundNext v r →
    Outcome x r
      (fun a r' => (r'.workspace = r.workspace ∧ r'.free = r.free ∧ SoundNext v r') ∧ P a)
      fun _ r' => r'.workspace = r.workspace ∧ r'.free = r.free

variable {v : Vocabulary}

theorem Quiet.bind {β : Type} {x : Reading α} {f : α → Reading β} {P : α → Prop} {Q : β → Prop}
    (hx : Quiet v x P) (hf : ∀ a, P a → Quiet v (f a) Q) : Quiet v (x >>= f) Q := by
  intro r hv hp
  refine .bind (hx r hv hp) fun a r₁ ⟨⟨hw, hfree, hp₁⟩, ha⟩ => ?_
  have := hf a ha r₁ (hw ▸ hv) hp₁
  rw [hw, hfree] at this
  exact this

theorem Quiet.pure {a : α} {P : α → Prop} (h : P a) : Quiet v (Pure.pure a) P :=
  fun _ _ hp => .pure ⟨⟨rfl, rfl, hp⟩, h⟩

theorem Quiet.peek : Quiet v Reading.peek fun t => t.Sound v := by
  intro r hv hp
  refine outcome_onSource (fun t s hs => ?_) fun _ _ _ => ⟨rfl, rfl⟩
  obtain ⟨next, sound⟩ := Source.peek_ok hs
  have ht : t.Sound v := sound.elim (hp t) fun h => hv ▸ h
  refine ⟨⟨rfl, rfl, fun u hu => ?_⟩, ht⟩
  obtain rfl := Option.some.inj (next.symm.trans hu)
  exact ht

theorem Quiet.take : Quiet v Reading.take fun t => t.Sound v := by
  intro r hv hp
  refine outcome_onSource (fun t s hs => ?_) fun _ _ _ => ⟨rfl, rfl⟩
  obtain ⟨next, sound⟩ := Source.take_ok hs
  exact ⟨⟨rfl, rfl, fun u hu => nomatch next.symm.trans hu⟩, sound.elim (hp t) fun h => hv ▸ h⟩

theorem Quiet.reject (t : Token) (cause : ParseError.Cause) (expected : List String)
    {P : α → Prop} : Quiet v (Reading.reject t cause expected) P := fun _ _ _ => .throw ⟨rfl, rfl⟩

theorem Quiet.peekKind : Quiet v Reading.peekKind fun _ => True :=
  .bind .peek fun _ _ => .pure trivial

theorem Quiet.remaining : Quiet v Reading.remaining fun _ => True :=
  fun _ _ hp => .get (.pure ⟨⟨rfl, rfl, hp⟩, trivial⟩)

theorem headerWords_quiet (count : Nat) :
    Quiet v (headerWords count) fun words =>
      ∀ t ∈ words, Text.isIdentifier t.text = true ∧ Lexeme.Named v t.text := by
  induction count with
  | zero => exact .pure nofun
  | succ count ih =>
    refine .bind .peekKind fun kind _ => ?_
    split
    · exact .pure nofun
    · refine .bind .take fun t sound => ?_
      split
      next ht =>
        refine .bind ih fun words hw => .pure ?_
        rw [List.forall_mem_cons]
        exact ⟨⟨ht.2, sound.named ht.1 ht.2⟩, hw⟩
      next => exact .reject _ _ _

/-- What is known of the names of a definition. -/
structure Header.Sound (v : Vocabulary) (h : Header) : Prop where
  name : Text.isIdentifier h.name = true
  named : Lexeme.Named v h.name
  parameters : ∀ name ∈ h.left.toList ++ [h.right], Text.isIdentifier name = true
  fault : h.fault? = none

theorem checked_quiet (first : Token) {h : Header}
    (hn : Text.isIdentifier h.name = true ∧ Lexeme.Named v h.name)
    (hp : ∀ name ∈ h.left.toList ++ [h.right], Text.isIdentifier name = true) :
    Quiet v (checked first h) (Header.Sound v) := by
  unfold checked
  split
  · exact .reject _ _ _
  next hf => exact .pure ⟨hn.1, hn.2, hp, hf⟩

theorem headerOf_quiet {words : List Token}
    (hw : ∀ t ∈ words, Text.isIdentifier t.text = true ∧ Lexeme.Named v t.text) :
    Quiet v (headerOf words) (Header.Sound v) := by
  unfold headerOf
  split
  next name right =>
    simp only [List.forall_mem_cons] at hw
    exact checked_quiet _ hw.1 (by simpa using hw.2.1.1)
  next left name right =>
    simp only [List.forall_mem_cons] at hw
    exact checked_quiet _ hw.2.1 (by simpa using ⟨hw.1.1, hw.2.2.1.1⟩)
  next => exact .bind .peek fun _ _ => .reject _ _ _

theorem header_quiet : Quiet v header (Header.Sound v) := by
  rw [header_eq]
  refine .bind .remaining fun n _ => ?_
  exact .bind (headerWords_quiet n) fun words hw => headerOf_quiet hw

/-- The parameters of a header without fault are distinct. -/
theorem Header.Sound.nodup {h : Header} (hs : h.Sound v) : (h.left.toList ++ [h.right]).Nodup := by
  have hf := hs.fault
  unfold Header.fault? at hf
  split at hf
  · exact nomatch hf
  split at hf
  · exact nomatch hf
  next hd =>
    cases hl : h.left with
    | none => simp
    | some left =>
      rw [hl] at hd
      simpa using hd

/-! ## § The body -/

theorem foldl_declare_declared (names : List String) (w : Workspace)
    (h : (w.declared ++ names).Nodup) :
    base.SameBase w → base.SameBase (names.foldl Workspace.declare w) ∧
      (names.foldl Workspace.declare w).declared = w.declared ++ names := by
  induction names generalizing w with
  | nil => exact fun hb => ⟨hb, by simp⟩
  | cons name names ih =>
    intro hb
    have fresh : name ∉ w.declared := by
      intro hm
      rw [List.nodup_append] at h
      exact h.2.2 name hm name List.mem_cons_self rfl
    have hd : (w.declare name).declared = w.declared ++ [name] := by
      rw [Workspace.declare_declared, if_neg fresh]
    have same : base.SameBase (w.declare name) := by
      rw [w.declare_eq]
      exact hb.declaring _
    have := ih (w.declare name) (by rw [hd]; simpa using h) same
    rw [hd] at this
    simpa using this

/-- The scope of a body that has been read is right. -/
theorem wellScoped_of_reads {h : Header} {f : UserOperator}
    (ho : base.Knows ⟨"o", .binary⟩ = false) (hr : r.free = some [])
    (k : Reads base (h.left.toList ++ [h.right]) r r' f.body)
    (hleft : f.left = h.left) (hright : f.right = h.right)
    (hlocals : f.locals = r'.workspace.declared)
    (hglobals : f.globals = firstOccurrences (r'.free.getD [])) : f.WellScoped where
  locals_nodup := hlocals ▸ k.scope.nodup
  parameters_first := by
    rw [UserOperator.parameters, hleft, hright, hlocals]
    exact k.scope.parameters_first
  slots := by
    rw [hlocals]
    exact k.slots
  globals_nodup := hglobals ▸ nodup_firstOccurrences _
  globals_iff name := by
    rw [hglobals, mem_firstOccurrences, k.free (by rw [hr]; rfl), hr]
    simp [UserOperator.nodes]
  applied_not_parameter s hs := by
    obtain ⟨node, hn, hs⟩ := List.mem_flatMap.1 hs
    rw [UserOperator.parameters, hleft, hright]
    exact (k.applied (by rw [hr]; rfl) node hn s hs).2
  applied_not_slot s hs hm := by
    obtain ⟨node, hn, hs⟩ := List.mem_flatMap.1 hs
    obtain ⟨known, hp⟩ := k.applied (by rw [hr]; rfl) node hn s hs
    rw [hlocals] at hm
    rcases k.scope.fresh s.name hm with hq | hq | hq
    · exact absurd hq hp
    · obtain ⟨name, arity⟩ := s
      obtain rfl : name = "o" := hq
      cases arity with
      | unary => rfl
      | binary => exact absurd known (by rw [ho]; decide)
    · exact absurd (Workspace.knowsName_of_knows known) (by rw [hq]; decide)

theorem outcome_update {f : Workspace → Except ParseError.Cause Workspace}
    {Q : PUnit → Reader → Prop} {E : Obstacle → Reader → Prop}
    (ok : ∀ w, f r.workspace = .ok w → Q ⟨⟩ { r with workspace := w })
    (error : ∀ cause, E (.parse ⟨cause, 0, [], none⟩) r) :
    Outcome (update f) r Q E := by
  refine .get ?_
  split
  next w hw => exact ok w hw
  next => exact .throw (error _)

/-- Once a token is taken, nothing is left that was scanned before. -/
theorem outcome_expect (kind : TokenKind) (what : String) :
    Outcome (expect kind what) r
      (fun _ r' => r'.workspace = r.workspace ∧ r'.free = r.free ∧ r'.source.peeked = none)
      fun _ r' => r'.workspace = r.workspace := by
  have taken : Outcome take r
      (fun _ r' => r'.workspace = r.workspace ∧ r'.free = r.free ∧ r'.source.peeked = none)
      fun _ r' => r'.workspace = r.workspace :=
    outcome_onSource (fun _ _ ht => ⟨rfl, rfl, (Source.take_ok ht).1⟩) fun _ _ _ => rfl
  refine .bind taken fun t r₁ k => ?_
  split
  · exact .throw k.1
  · exact .pure k

/-- A definition from the placeholder on. -/
theorem definitionBody_outcome [Machine] {h : Header} (hs : h.Sound v)
    (ho : base.Knows ⟨"o", .binary⟩ = false) (hb : base.SameBase r.workspace)
    (hd : r.workspace.declared = []) (hr : r.free = some []) :
    Outcome (definitionBody h) r
      (fun f r' => f.WellScoped ∧ f.Worded v ∧ f.name = h.name ∧ f.arity = h.arity ∧
        ∃ w, base.SameBase w ∧ w.define f = .ok r'.workspace)
      fun _ r' => base.SameBase r'.workspace := by
  have declaring := foldl_declare_declared (h.left.toList ++ [h.right]) r.workspace
    (by rw [hd]; exact hs.nodup) hb
  rw [hd, List.nil_append] at declaring
  refine .bind (P := fun _ r₁ => base.SameBase r₁.workspace ∧
    r₁.workspace.declared = h.left.toList ++ [h.right] ∧ r₁.free = some []) ?_ ?_
  · refine outcome_update (fun w hw => ?_) fun _ => hb
    obtain rfl := Except.ok.inj hw
    exact ⟨declaring.1, declaring.2, hr⟩
  rintro _ r₁ ⟨hb₁, hd₁, hf₁⟩
  refine .bind ((outcome_expect .assign "=").mono (fun _ _ k => k) fun _ r' hw => ?_)
    fun _ r₂ ⟨hw₂, hf₂, hp₂⟩ => ?_
  · rw [hw]
    exact hb₁
  have declared : r₂.workspace.declared = h.left.toList ++ [h.right] := by rw [hw₂, hd₁]
  have scope : Scoped base (h.left.toList ++ [h.right]) r₂ := {
    same_base := hw₂ ▸ hb₁
    closed := fun hp => by simp at hp
    nodup := declared ▸ hs.nodup
    parameters_first := ⟨[], by rw [List.append_nil, declared]⟩
    identifiers := hs.parameters
    fresh := fun name hm => .inl (declared ▸ hm)
    sound := fun _ t ht => by rw [hp₂] at ht; simp at ht }
  refine .bind ((body_scopes r₂ scope).mono (fun _ _ k => k) fun _ _ k => k.same_base)
    fun es r₃ k => .get ?_
  refine .bind (outcome_update (Q := fun _ r' => ∃ w, base.SameBase w ∧ w.define _ = .ok r'.workspace)
    (fun w hw => ⟨_, k.scope.same_base, hw⟩) fun _ => k.scope.same_base) fun _ r₄ hw => .pure ?_
  exact ⟨wellScoped_of_reads ho (hf₂.trans hf₁) k rfl rfl rfl rfl,
    ⟨hs.name, hs.named, hs.parameters, k.lines (by rw [hf₂, hf₁]; rfl)⟩, rfl, rfl, hw⟩

/-- What is declared, and what else a definition never changes, once the workspaces have the same
base. -/
theorem restored_of_abandon {w base w' : Workspace} {h : Header}
    (hb : w.beginDefinition h.name h.left h.right = .ok base) (hw : base.SameBase w') :
    w.Restored (w'.forgetDeclarations.abandonDefinition h.name h.arity
      (w.userOperator? h.arity h.name)) := by
  obtain ⟨rest, -, definitions, -, operators⟩ := Workspace.beginDefinition_ok hb
  have same : w'.forgetDeclarations = base.forgetDeclarations := by
    rw [hw]
    rfl
  obtain ⟨hr, hdecl, hdef, -⟩ := base.forgetDeclarations.withTable_rest h.arity
    ((base.forgetDeclarations.table h.arity).restore h.name (w.userOperator? h.arity h.name))
  rw [same]
  have forgotten : w.SameRest base.forgetDeclarations := rest.of_eq rfl
  refine ⟨forgotten.trans hr, hdecl, hdef.trans definitions, fun arity name => ?_⟩
  rw [Workspace.abandonDefinition_operators]
  have := operators arity name
  split
  next hn => rw [hn.1, hn.2]
  next hn =>
    have harity : (Workspace.placeholder h.name h.left h.right).arity = h.arity := rfl
    rw [harity, if_neg hn] at this
    rw [← this]
    cases arity <;> rfl

theorem installed_of_define {w base w' w'' : Workspace} {h : Header} {f : UserOperator}
    (hb : w.beginDefinition h.name h.left h.right = .ok base) (ho : w.SparesOuter)
    (hname : f.name = h.name) (harity : f.arity = h.arity)
    (hw : base.SameBase w') (hf : w'.define f = .ok w'') :
    w.Installed f w''.forgetDeclarations ∧ w''.forgetDeclarations.SparesOuter := by
  obtain ⟨rest, -, definitions, hno, operators⟩ := Workspace.beginDefinition_ok hb
  obtain ⟨rest', -, definitions', operators'⟩ := Workspace.define_ok hf
  obtain ⟨unreserved, claimed⟩ := Workspace.define_claims hf
  have hparity : (Workspace.placeholder h.name h.left h.right).arity = h.arity := rfl
  have hbase : base.SameRest w' := by
    rw [hw]
    exact (Workspace.SameRest.refl base).of_eq rfl
  have hdef : w'.definitions = w.definitions := by
    rw [hw]
    exact definitions
  have installed : w.Installed f w''.forgetDeclarations := {
    rest := ((rest.trans hbase).trans rest').of_eq rfl
    declared := rfl
    definitions := by
      show w''.definitions = _
      rw [definitions', hdef]
    operators := fun arity name => by
      have h₁ := operators' arity name
      have h₂ := operators arity name
      have h₃ : w'.userOperator? arity name = base.userOperator? arity name := by
        rw [hw]
        cases arity <;> rfl
      have h₄ : w''.forgetDeclarations.userOperator? arity name = w''.userOperator? arity name := by
        cases arity <;> rfl
      rw [h₄, h₁]
      split
      · rfl
      next hn =>
        rw [hname, harity] at hn
        rw [h₃, h₂, hparity, if_neg hn]
    unreserved := unreserved
    claimed := claimed }
  refine ⟨installed, ?_⟩
  show w''.forgetDeclarations.userOperator? .binary "o" = none
  rw [installed.operators, if_neg, ho]
  rintro ⟨rfl', rfl''⟩
  exact hno ⟨by rw [← hname, ← rfl'], by rw [hparity, ← harity, ← rfl'']⟩

/-- **A definition is installed or leaves no trace among the operators.** -/
theorem definition_outcome [Machine] (hd : r.workspace.declared = []) (ho : r.workspace.SparesOuter)
    (hp : r.source.peeked = none) :
    Outcome definition r
      (fun f r' => f.WellScoped ∧ f.Worded r.workspace.vocabulary ∧
        r.workspace.Installed f r'.workspace ∧ r'.workspace.SparesOuter)
      fun _ r' => r.workspace.Restored r'.workspace := by
  refine .bind ((header_quiet r rfl fun t ht => nomatch hp.symm.trans ht).mono (fun _ _ k => k)
    fun _ r' hw => ?_) fun h r₁ ⟨⟨hw₁, _⟩, hs⟩ => .get ?_
  · rw [hw.1]
    exact .refl hd
  rw [hw₁]
  refine .bind (P := fun _ r₂ => r.workspace.beginDefinition h.name h.left h.right
    = .ok r₂.workspace) (outcome_update (fun w hw => hw₁ ▸ hw) fun _ => by
      rw [hw₁]
      exact .refl hd)
    fun _ r₂ hb => .modify ?_
  obtain ⟨rest, hdecl, definitions, hno, operators⟩ := Workspace.beginDefinition_ok hb
  have spares : r₂.workspace.SparesOuter := by
    show r₂.workspace.userOperator? .binary "o" = none
    rw [operators, if_neg, ho]
    rintro ⟨hn, ha⟩
    exact hno ⟨hn.symm, ha.symm⟩
  have body := definitionBody_outcome hs spares.knows (.refl _) (r := { r₂ with free := some [] })
    (hdecl.trans hd) rfl
  refine outcome_closing (body.mono ?_ ?_)
  · rintro f r₃ ⟨hf, worded, hname, harity, w, hw, hdefine⟩
    exact ⟨hf, worded, installed_of_define hb ho hname harity hw hdefine⟩
  · intro _ r₃ hw
    exact restored_of_abandon hb hw

end Reading

end ArrayCalc
