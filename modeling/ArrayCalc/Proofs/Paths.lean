import ArrayCalc.Proofs.Definitions
import ArrayCalc.Proofs.PassageSources
import Mathlib.Logic.Relation

/-!
# Paths through a source

Whatever is read, a source changes in two ways only: the next token is looked at, or the token that
has been looked at is taken.  Outside of definitions this happens with one vocabulary.

What stops a reader is said of the source that it leaves.  An error about a token comes when the
token has been looked at and before anything behind it is taken; in most cases the token has been
taken, or something before it on its line.  The one exception is a line of a body that starts with a
token which starts no statement: the last thing taken is then the end of the line before.
-/

namespace ArrayCalc

namespace TokenKind

/-- The kinds that an operand starts with. -/
def startsOperand : TokenKind → Bool
  | number | rational | complex | string | identifier | leftParen => true
  | _ => false

/-- The kinds that no statement starts with, apart from the ends of statements. -/
def startsNothing : TokenKind → Bool
  | assign | char | opKeyword | leftBracket | rightBracket | rightParen | colon => true
  | _ => false

theorem startsNothing_of {kind : TokenKind} (no_end : kind.isLineEnd = false)
    (no_semicolon : kind ≠ semicolon) (no_operator : kind ≠ operator)
    (no_operand : kind.startsOperand = false) : kind.startsNothing = true := by
  cases kind <;> first | rfl | contradiction

end TokenKind

namespace Source

variable {V W : Vocabulary → Prop} {s s' s'' : Source} {t : Token} {o : Obstacle}

/-- What a reader does to a source, with one of the vocabularies in `V`. -/
inductive Step (V : Vocabulary → Prop) (s : Source) : Source → Prop
  | look {v : Vocabulary} {t : Token} {s' : Source} (known : V v) (h : s.peek v = (.ok t, s')) :
    Step V s s'
  | take {t : Token} (h : s.peeked = some t) :
    Step V s { s with peeked := none, atLineEnd := t.kind.isLineEnd }

def Path (V : Vocabulary → Prop) : Source → Source → Prop := Relation.ReflTransGen (Step V)

theorem Step.mono (hV : ∀ v, V v → W v) (h : s.Step V s') : s.Step W s' := by
  cases h with
  | look known h => exact .look (hV _ known) h
  | take h => exact .take h

theorem Path.mono (hV : ∀ v, V v → W v) (h : s.Path V s') : s.Path W s' :=
  Relation.ReflTransGen.mono (fun _ _ => Step.mono hV) _ _ h

theorem Path.refl (s : Source) : s.Path V s := Relation.ReflTransGen.refl

theorem Path.trans (h : s.Path V s') (k : s'.Path V s'') : s.Path V s'' :=
  Relation.ReflTransGen.trans h k

theorem Path.look {v : Vocabulary} (h : s.Path V s') (known : V v)
    (hp : s'.peek v = (.ok t, s'')) : s.Path V s'' := Relation.ReflTransGen.tail h (.look known hp)

theorem Path.take (h : s.Path V s') (hp : s'.peeked = some t) :
    s.Path V { s' with peeked := none, atLineEnd := t.kind.isLineEnd } :=
  Relation.ReflTransGen.tail h (.take hp)

/-- The token has been looked at on the way from `s` to `s'`. -/
def Seen (V : Vocabulary → Prop) (s : Source) (t : Token) (s' : Source) : Prop :=
  ∃ between, s.Path V between ∧ between.peeked = some t ∧ between.Path V s'

theorem Seen.of_peeked (h : s.Path V s') (hp : s'.peeked = some t) : s.Seen V t s' :=
  ⟨s', h, hp, .refl s'⟩

theorem Seen.path (h : s.Seen V t s') (k : s'.Path V s'') : s.Seen V t s'' := by
  obtain ⟨between, before, hp, after⟩ := h
  exact ⟨between, before, hp, after.trans k⟩

theorem Seen.mono (hV : ∀ v, V v → W v) (h : s.Seen V t s') : s.Seen W t s' := by
  obtain ⟨between, before, hp, after⟩ := h
  exact ⟨between, before.mono hV, hp, after.mono hV⟩

/-! ## § What stops a reader -/

/-- A token that is malformed: it cannot be scanned, or it is a quoted text which cannot be decoded
and has just been taken. -/
def Malformed (V : Vocabulary → Prop) (s : Source) (e : LexError) (s' : Source) : Prop :=
  ∃ between, s.Path V between ∧
    ((∃ v, between.peek v = (.error e, s')) ∨
      ∃ t, between.peeked = some t ∧ t.kind = .string ∧
        s' = { between with peeked := none, atLineEnd := false } ∧
        Text.Quoted.decode t.text.toList = .error (.lex e.cause) ∧ e.line = t.line)

/-- The error is about a token.  Where a line ends, a token that is still there is the one in
question, and nothing starts with it. -/
def Blamed (V : Vocabulary → Prop) (s : Source) (e : ParseError) (s' : Source) : Prop :=
  ∃ t, s.Seen V t s' ∧ e.line = t.line ∧ e.found = some t.describe ∧
    (s'.atLineEnd = true → ∀ u, s'.peeked = some u → u = t ∧ t.kind.startsNothing = true)

/-- The error is about a definition as a whole. -/
structure Refused (V : Vocabulary → Prop) (s : Source) (e : ParseError) (s' : Source) : Prop where
  path : s.Path V s'
  found : e.found = none
  line : e.line ≤ s'.line
  taken : s'.atLineEnd = true → s'.peeked = none

/-- What is left of a source by something that stops a reader. -/
def Stopped (V : Vocabulary → Prop) (s : Source) : Obstacle → Source → Prop
  | .lex e, s' => s.Malformed V e s'
  | .parse e, s' => s.Blamed V e s' ∨ s.Refused V e s'
  | .tooDeep _, s' => s.Path V s' ∧ s'.atLineEnd = false
  | .fault _, s' => s.Path V s' ∧ s'.peeked = none

theorem Stopped.mono (hV : ∀ v, V v → W v) (h : s.Stopped V o s') : s.Stopped W o s' := by
  cases o with
  | lex e =>
    obtain ⟨between, path, how⟩ := h
    exact ⟨between, path.mono hV, how⟩
  | parse e =>
    rcases h with ⟨t, seen, blame⟩ | refused
    · exact .inl ⟨t, seen.mono hV, blame⟩
    · exact .inr { refused with path := refused.path.mono hV }
  | tooDeep => exact ⟨h.1.mono hV, h.2⟩
  | fault => exact ⟨h.1.mono hV, h.2⟩

theorem Stopped.after (h : s.Path V s') (k : s'.Stopped V o s'') : s.Stopped V o s'' := by
  cases o with
  | lex e =>
    obtain ⟨between, path, how⟩ := k
    exact ⟨between, h.trans path, how⟩
  | parse e =>
    rcases k with ⟨t, ⟨between, before, seen⟩, blame⟩ | refused
    · exact .inl ⟨t, ⟨between, h.trans before, seen⟩, blame⟩
    · exact .inr { refused with path := h.trans refused.path }
  | tooDeep => exact ⟨h.trans k.1, k.2⟩
  | fault => exact ⟨h.trans k.1, k.2⟩

end Source

/-! ## § Readers on a path -/

/-- The vocabularies that a reader can come to know before it is stopped. -/
def Reader.Vocabularies (origin : Reader) (v : Vocabulary) : Prop :=
  origin.free = none → v = origin.workspace.vocabulary

/-- A reader on its way from `origin`.  Outside of definitions only the source changes. -/
structure Walk (origin r : Reader) : Prop where
  path : origin.source.Path origin.Vocabularies r.source
  outside : origin.free = none → r.free = none ∧ r.workspace = origin.workspace

/-- A reader in the middle of a line. -/
structure Midline (origin r : Reader) : Prop extends Walk origin r where
  inside : r.source.atLineEnd = false

/-- A reader that has a statement to read.  At the start of a line it has looked at the first token,
which is there and is not the end of a statement. -/
structure Opening (origin r : Reader) : Prop extends Walk origin r where
  opens : r.source.atLineEnd = true →
    ∃ t, r.source.peeked = some t ∧ t.kind.isLineEnd = false ∧ t.kind ≠ .semicolon

/-- What is left by something that stops a reader. -/
def Stopping (origin : Reader) (o : Obstacle) (r : Reader) : Prop :=
  origin.source.Stopped origin.Vocabularies o r.source

variable {origin r : Reader}

theorem Walk.refl (r : Reader) : Walk r r := ⟨.refl _, fun outside => ⟨outside, rfl⟩⟩

theorem Walk.vocabularies (h : Walk origin r) (v : Vocabulary)
    (known : r.Vocabularies v) : origin.Vocabularies v := by
  intro outside
  obtain ⟨free, workspace⟩ := h.outside outside
  rw [known free, workspace]

theorem Walk.trans {r' : Reader} (h : Walk origin r) (k : Walk r r') : Walk origin r' := by
  refine ⟨h.path.trans (k.path.mono h.vocabularies), fun outside => ?_⟩
  obtain ⟨free, workspace⟩ := h.outside outside
  obtain ⟨free', workspace'⟩ := k.outside free
  exact ⟨free', workspace'.trans workspace⟩

theorem Stopping.after {r' : Reader} {o : Obstacle} (h : Walk origin r) (k : Stopping r o r') :
    Stopping origin o r' := Source.Stopped.after h.path (k.mono h.vocabularies)

theorem Walk.known (h : Walk origin r) : origin.Vocabularies r.workspace.vocabulary := by
  intro outside
  rw [(h.outside outside).2]

/-- What is not said of the source does not stop a walk. -/
theorem Walk.note {r' : Reader} (h : Walk origin r) (source : r'.source = r.source)
    (outside : r.free = none → r'.free = none ∧ r'.workspace = r.workspace) : Walk origin r' := by
  refine ⟨source ▸ h.path, fun o => ?_⟩
  obtain ⟨free, workspace⟩ := h.outside o
  obtain ⟨free', workspace'⟩ := outside free
  exact ⟨free', workspace'.trans workspace⟩

theorem Midline.opening (h : Midline origin r) : Opening origin r :=
  ⟨h.toWalk, fun ended => nomatch h.inside.symm.trans ended⟩

namespace Reading

variable {α : Type} {t : Token} {e : Expr} {Q : α → Reader → Prop}

/-- A reader of something in the middle of a line. -/
def Walks (origin : Reader) (x : Reading α) : Prop :=
  ∀ r, Midline origin r → Outcome x r (fun _ r' => Midline origin r') (Stopping origin)

/-! ## § Tokens -/

theorem peek_walks (h : Walk origin r) :
    Outcome peek r
      (fun t r' => Walk origin r' ∧ r'.source.peeked = some t ∧
        r'.source.atLineEnd = r.source.atLineEnd ∧ ∀ u, r.source.peeked = some u → u = t)
      (Stopping origin) := by
  refine outcome_onSource (fun t s hp => ?_) fun e s hp => ?_
  · refine ⟨⟨h.path.look h.known hp, h.outside⟩, Source.peeked_of_peek hp,
      Source.peek_atLineEnd hp, fun u hu => ?_⟩
    rw [Source.peek_of_peeked hu] at hp
    exact Except.ok.inj (congrArg Prod.fst hp)
  · exact ⟨_, h.path, .inl ⟨_, hp⟩⟩

theorem peekKind_walks (h : Walk origin r) :
    Outcome peekKind r
      (fun kind r' => Walk origin r' ∧ r'.source.atLineEnd = r.source.atLineEnd ∧
        ∃ t, r'.source.peeked = some t ∧ t.kind = kind ∧ ∀ u, r.source.peeked = some u → u = t)
      (Stopping origin) :=
  .bind (peek_walks h) fun t _ ⟨walk, hp, ended, same⟩ => .pure ⟨walk, ended, t, hp, rfl, same⟩

theorem take_walks (h : Walk origin r) :
    Outcome take r
      (fun t r' => Walk origin r' ∧ origin.source.Seen origin.Vocabularies t r'.source ∧
        r'.source.peeked = none ∧ r'.source.atLineEnd = t.kind.isLineEnd)
      (Stopping origin) := by
  refine outcome_onSource (fun t s ht => ?_) fun e s ht => ?_
  · obtain ⟨s₁, hp, taken, peeked⟩ := Source.peek_of_take ht
    rw [Source.take_of_peeked peeked] at taken
    obtain ⟨-, rfl⟩ := Prod.mk.inj taken
    have looked := h.path.look h.known hp
    have seen := Source.Seen.of_peeked looked peeked
    exact ⟨⟨looked.take peeked, h.outside⟩, seen.path (Source.Path.take (.refl _) peeked), rfl, rfl⟩
  · exact ⟨_, h.path, .inl ⟨_, Source.take_error_eq ht⟩⟩

theorem discard_walks (h : Walk origin r) (hp : r.source.peeked = some t) :
    Outcome discard r
      (fun _ r' => Walk origin r' ∧
        r'.source = { r.source with peeked := none, atLineEnd := t.kind.isLineEnd })
      (Stopping origin) := by
  refine .bind (P := fun _ r' => Walk origin r' ∧
      r'.source = { r.source with peeked := none, atLineEnd := t.kind.isLineEnd })
    (outcome_onSource (fun u s hu => ?_) fun e s hu => ?_) fun _ _ k => .pure k
  · rw [Source.take_of_peeked hp] at hu
    obtain ⟨-, rfl⟩ := Prod.mk.inj hu
    exact ⟨⟨h.path.take hp, h.outside⟩, rfl⟩
  · rw [Source.take_of_peeked hp] at hu
    exact nomatch (Prod.mk.inj hu).1

/-- A token in the middle of a line. -/
theorem discard_midline (h : Walk origin r) (hp : r.source.peeked = some t)
    (inner : t.kind.isLineEnd = false) :
    Outcome discard r
      (fun _ r' => Midline origin r' ∧
        r'.source = { r.source with peeked := none, atLineEnd := false })
      (Stopping origin) := by
  refine (discard_walks h hp).mono (fun _ r' ⟨walk, source⟩ => ?_) fun _ _ k => k
  rw [inner] at source
  exact ⟨⟨walk, by rw [source]⟩, source⟩

/-- An error about a token that has been seen. -/
theorem reject_stops {cause : ParseError.Cause} {expected : List String}
    (seen : origin.source.Seen origin.Vocabularies t r.source)
    (left : r.source.atLineEnd = true →
      ∀ u, r.source.peeked = some u → u = t ∧ t.kind.startsNothing = true) :
    Outcome (reject t cause expected) r Q (Stopping origin) :=
  .throw (.inl ⟨t, seen, rfl, rfl, left⟩)

theorem reject_behind {cause : ParseError.Cause} {expected : List String}
    (seen : origin.source.Seen origin.Vocabularies t r.source) (taken : r.source.peeked = none) :
    Outcome (reject t cause expected) r Q (Stopping origin) :=
  reject_stops seen fun _ _ hu => nomatch taken.symm.trans hu

theorem reject_midline {cause : ParseError.Cause} {expected : List String}
    (seen : origin.source.Seen origin.Vocabularies t r.source)
    (inside : r.source.atLineEnd = false) :
    Outcome (reject t cause expected) r Q (Stopping origin) :=
  reject_stops seen fun ended => nomatch inside.symm.trans ended

theorem expect_walks (kind : TokenKind) (what : String) (inner : kind.isLineEnd = false) :
    Walks origin (expect kind what) := by
  intro r h
  refine .bind (take_walks h.toWalk) fun t r₁ ⟨walk, seen, taken, ended⟩ => ?_
  split
  · exact reject_behind seen taken
  next same =>
    have kind_eq : t.kind = kind := Decidable.not_not.1 same
    exact .pure ⟨walk, by rw [ended, kind_eq, inner]⟩

theorem endOfLine_walks (h : Walk origin r) :
    Outcome endOfLine r
      (fun _ r' => Walk origin r' ∧ r'.source.peeked = none ∧ r'.source.atLineEnd = true)
      (Stopping origin) := by
  refine .bind (take_walks h) fun t r₁ ⟨walk, seen, taken, ended⟩ => ?_
  split
  next ends => exact .pure ⟨walk, taken, ended.trans ends⟩
  · exact reject_behind seen taken

/-! ## § Operands -/

theorem numeral_walks (h : Midline origin r) (taken : r.source.peeked = none)
    (seen : origin.source.Seen origin.Vocabularies t r.source) :
    Outcome (numeral t) r (fun _ r' => Midline origin r') (Stopping origin) := by
  unfold numeral
  refine .get ?_
  split
  · exact .pure h
  · exact reject_behind seen taken
  · exact .throw ⟨h.path, taken⟩

/-- What is wrong inside quotes is found when the token has been taken. -/
theorem quoted_walks {r₀ : Reader} (h₀ : Walk origin r₀) (hp : r₀.source.peeked = some t)
    (hk : t.kind = .string) (h : Midline origin r)
    (source : r.source = { r₀.source with peeked := none, atLineEnd := false }) :
    Outcome (quoted t) r (fun _ r' => Midline origin r') (Stopping origin) := by
  unfold quoted
  split
  · exact .pure h
  · exact .pure h
  next cause hd => exact .throw ⟨_, h₀.path, .inr ⟨t, hp, hk, source, hd, rfl⟩⟩
  · exact .throw ⟨h.path, by rw [source]⟩

theorem nameUse_walks (name : String) : Walks origin (nameUse name) := by
  intro r h
  unfold nameUse
  refine .get ?_
  split
  · exact .pure h
  · refine .set (.pure ⟨h.note rfl fun free => ⟨?_, rfl⟩, h.inside⟩)
    show r.free.map _ = none
    rw [free]
    rfl

variable {expr : Reading Expr} {exprs : Nat → Reading Expr}

theorem item?_walks (he : Walks origin expr) (h : Opening origin r) :
    Outcome (item? expr) r
      (fun o r' => Opening origin r' ∧
        (o ≠ none ∨ r.source.atLineEnd = false → r'.source.atLineEnd = false) ∧
        (o = none → ∃ t, r'.source.peeked = some t ∧ t.kind.startsOperand = false ∧
          ∀ u, r.source.peeked = some u → u = t))
      (Stopping origin) := by
  rw [item?_eq]
  refine .bind (peek_walks h.toWalk) fun t r₁ ⟨walk, hp, ended, same⟩ => ?_
  -- Every literal is read from a token that has been taken.
  have literal {x : Reading Expr} (inner : t.kind.isLineEnd = false)
      (hx : ∀ r₂, Midline origin r₂ →
        r₂.source = { r₁.source with peeked := none, atLineEnd := false } →
        Outcome x r₂ (fun _ r' => Midline origin r') (Stopping origin)) :
      Outcome (do discard; return some (← x)) r₁
        (fun o r' => Opening origin r' ∧
          (o ≠ none ∨ r.source.atLineEnd = false → r'.source.atLineEnd = false) ∧
          (o = none → ∃ t, r'.source.peeked = some t ∧ t.kind.startsOperand = false ∧
            ∀ u, r.source.peeked = some u → u = t))
        (Stopping origin) := by
    refine .bind (discard_midline walk hp inner) fun _ r₂ ⟨h₂, source⟩ => ?_
    exact .bind (hx r₂ h₂ source) fun e r₃ h₃ => .pure ⟨h₃.opening, fun _ => h₃.inside, nofun⟩
  have number (inner : t.kind.isLineEnd = false) := literal inner fun r₂ h₂ source =>
    numeral_walks h₂ (by rw [source]) <| by
      have seen := Source.Seen.of_peeked walk.path hp
      rw [source, ← inner]
      exact seen.path (Source.Path.take (.refl _) hp)
  unfold operandFrom
  split
  next hk => exact number (by rw [hk]; rfl)
  next hk => exact number (by rw [hk]; rfl)
  next hk => exact number (by rw [hk]; rfl)
  next hk => exact literal (by rw [hk]; rfl) fun r₂ h₂ source => quoted_walks walk hp hk h₂ source
  next hk => exact literal (by rw [hk]; rfl) fun r₂ h₂ _ => nameUse_walks t.text r₂ h₂
  next hk =>
    refine .bind (discard_midline walk hp (by rw [hk]; rfl)) fun _ r₂ ⟨h₂, _⟩ => ?_
    refine .bind (he r₂ h₂) fun e r₃ h₃ => ?_
    refine .bind (expect_walks .rightParen ")" rfl r₃ h₃) fun _ r₄ h₄ => ?_
    exact .pure ⟨h₄.opening, fun _ => h₄.inside, nofun⟩
  next =>
    refine .pure ⟨⟨walk, fun e => ?_⟩, ?_, fun _ => ⟨t, hp, ?_, same⟩⟩
    · obtain ⟨u, hu, inner⟩ := h.opens (ended.symm.trans e)
      obtain rfl := same u hu
      exact ⟨u, hp, inner⟩
    · rintro (some | inside)
      · exact absurd rfl some
      · exact ended.trans inside
    · cases hk : t.kind <;> first | rfl | contradiction

theorem items_walks (he : Walks origin expr) {count : Nat} (h : Opening origin r) :
    Outcome (items expr count) r
      (fun es r' => Opening origin r' ∧
        (es ≠ [] ∨ r.source.atLineEnd = false → r'.source.atLineEnd = false) ∧
        (es = [] → 0 < count → ∃ t, r'.source.peeked = some t ∧ t.kind.startsOperand = false ∧
          ∀ u, r.source.peeked = some u → u = t))
      (Stopping origin) := by
  induction count generalizing r with
  | zero =>
    refine .pure ⟨h, ?_, fun _ pos => absurd pos (Nat.lt_irrefl 0)⟩
    rintro (some | inside)
    · exact absurd rfl some
    · exact inside
  | succ count ih =>
    refine .bind (item?_walks he h) fun o r₁ ⟨h₁, inside, looked⟩ => ?_
    cases o with
    | none =>
      refine .pure ⟨h₁, ?_, fun _ _ => looked rfl⟩
      rintro (some | before)
      · exact absurd rfl some
      · exact inside (.inr before)
    | some e =>
      refine .bind (ih h₁) fun es r₂ ⟨h₂, further, _⟩ => .pure ⟨h₂, fun _ => ?_, nofun⟩
      exact further (.inr (inside (.inl nofun)))

theorem afterSubscript_walks {others : Reading (List Expr)} (h : Midline origin r)
    (ho : Walks origin others) (e : Expr) :
    Outcome (afterSubscript others e) r (fun _ r' => Midline origin r') (Stopping origin) := by
  refine .bind (take_walks h.toWalk) fun t r₁ ⟨walk, seen, taken, ended⟩ => ?_
  split
  next hk => exact .pure ⟨walk, by rw [ended, hk]; rfl⟩
  next hk =>
    have h₁ : Midline origin r₁ := ⟨walk, by rw [ended, hk]; rfl⟩
    exact .bind (ho r₁ h₁) fun es r₂ h₂ => .pure h₂
  next => exact reject_behind seen taken

theorem subscripts_walks (he : Walks origin expr) (count : Nat) :
    Walks origin (subscripts expr count) := by
  induction count with
  | zero =>
    intro r h
    exact .pure h
  | succ count ih =>
    intro r h
    rw [subscripts_succ]
    refine .bind (peekKind_walks h.toWalk) fun kind r₁ ⟨walk, ended, _⟩ => ?_
    have h₁ : Midline origin r₁ := ⟨walk, ended.trans h.inside⟩
    split
    · exact afterSubscript_walks h₁ ih .empty
    · exact .bind (he r₁ h₁) fun e r₂ h₂ => afterSubscript_walks h₂ ih e

theorem indices_walks (he : Walks origin expr) (count : Nat) (base : Expr) :
    Walks origin (indices expr count base) := by
  induction count generalizing base with
  | zero =>
    intro r h
    exact .pure h
  | succ count ih =>
    intro r h
    refine .bind (peekKind_walks h.toWalk) fun kind r₁ ⟨walk, ended, t, hp, hk, _⟩ => ?_
    split
    next bracket =>
      have inner : t.kind.isLineEnd = false := by rw [hk, bracket]; rfl
      refine .bind (discard_midline walk hp inner) fun _ r₂ ⟨h₂, _⟩ => .get ?_
      exact .bind (subscripts_walks he _ r₂ h₂) fun es r₃ h₃ => ih _ r₃ h₃
    next => exact .pure ⟨walk, ended.trans h.inside⟩

theorem primary_walks (he : ∀ toll, Walks origin (exprs toll)) (h : Opening origin r)
    (hp : r.source.peeked = some t) (no_operator : t.kind ≠ .operator) :
    Outcome (primary exprs) r (fun _ r' => Midline origin r') (Stopping origin) := by
  refine .get (.bind (items_walks (he 2) h) fun es r₁ ⟨h₁, inside, looked⟩ => ?_)
  split
  next =>
    -- Nothing has been taken, and the token is the one that was looked at before.
    obtain ⟨u, hu, no_operand, same⟩ := looked rfl (Nat.succ_pos _)
    obtain rfl := same t hp
    refine .bind (peek_walks h₁.toWalk) fun u' r₂ ⟨walk, hu', ended, same⟩ => ?_
    obtain rfl := same t hu
    refine reject_stops (.of_peeked walk.path hu') fun e v hv => ?_
    obtain rfl := Option.some.inj (hu'.symm.trans hv)
    obtain ⟨w, hw, no_end, no_semicolon⟩ := h₁.opens (ended.symm.trans e)
    obtain rfl := Option.some.inj (hu.symm.trans hw)
    exact ⟨rfl, TokenKind.startsNothing_of no_end no_semicolon no_operator no_operand⟩
  next => exact .get (indices_walks (he 3) _ _ r₁ ⟨h₁.toWalk, inside (.inl nofun)⟩)
  next some _ => exact .get (indices_walks (he 3) _ _ r₁ ⟨h₁.toWalk, inside (.inl some)⟩)

/-! ## § Expressions -/

theorem operand_walks (he : ∀ toll, Walks origin (exprs toll)) (h : Opening origin r) :
    Outcome (operand exprs) r (fun _ r' => Midline origin r') (Stopping origin) := by
  refine .bind (peek_walks h.toWalk) fun t r₁ ⟨walk, hp, ended, same⟩ => ?_
  split
  next operator =>
    have inner : t.kind.isLineEnd = false := by rw [operator]; rfl
    have seen := Source.Seen.of_peeked walk.path hp
    refine .bind (discard_midline walk hp inner) fun _ r₂ ⟨h₂, source⟩ => .get ?_
    split
    · exact .bind (he 1 r₂ h₂) fun right r₃ h₃ => .pure h₃
    · refine reject_midline ?_ h₂.inside
      rw [source, ← inner]
      exact seen.path (Source.Path.take (.refl _) hp)
  next no_operator =>
    refine primary_walks he ⟨walk, fun e => ?_⟩ hp no_operator
    obtain ⟨u, hu, opens⟩ := h.opens (ended.symm.trans e)
    exact ⟨u, same u hu ▸ hp, opens⟩

theorem assignmentTarget_walks (target : Expr) : Walks origin (assignmentTarget target) := by
  intro r h
  unfold assignmentTarget
  refine .get ?_
  split
  next free =>
    split
    · exact .pure h
    · refine .set (.pure ⟨h.note rfl fun none => ?_, h.inside⟩)
      exact nomatch none.symm.trans free
  next => exact .pure h

theorem afterOperand_walks (he : Walks origin expr) (left : Expr) :
    Walks origin (afterOperand expr left) := by
  intro r h
  refine .bind (peek_walks h.toWalk) fun t r₁ ⟨walk, hp, ended, _⟩ => ?_
  have h₁ : Midline origin r₁ := ⟨walk, ended.trans h.inside⟩
  have seen := Source.Seen.of_peeked walk.path hp
  -- Behind a token that has been taken the error is about that token.
  have refused {r₂ : Reader} {cause : ParseError.Cause} (h₂ : Midline origin r₂)
      (inner : t.kind.isLineEnd = false)
      (source : r₂.source = { r₁.source with peeked := none, atLineEnd := false }) :
      Outcome (reject t cause []) r₂ (fun (_ : Expr) r' => Midline origin r') (Stopping origin) := by
    refine reject_midline ?_ h₂.inside
    rw [source, ← inner]
    exact seen.path (Source.Path.take (.refl _) hp)
  split
  next sign =>
    have inner : t.kind.isLineEnd = false := by rw [sign]; rfl
    refine .bind (discard_midline walk hp inner) fun _ r₂ ⟨h₂, source⟩ => ?_
    split
    · refine .bind (assignmentTarget_walks left r₂ h₂) fun target r₃ h₃ => ?_
      exact .bind (he r₃ h₃) fun value r₄ h₄ => .pure h₄
    · exact refused h₂ inner source
  next =>
    split
    next operator =>
      have inner : t.kind.isLineEnd = false := by rw [operator]; rfl
      refine .bind (discard_midline walk hp inner) fun _ r₂ ⟨h₂, source⟩ => .get ?_
      split
      · exact .bind (he r₂ h₂) fun right r₃ h₃ => .pure h₃
      · exact refused h₂ inner source
    next =>
      split
      · exact .pure h₁
      · exact reject_midline seen h₁.inside

theorem takeTokens_walks (count : Nat) : Walks origin (takeTokens count) := by
  induction count with
  | zero =>
    intro r h
    exact .pure h
  | succ count ih =>
    intro r h
    refine .bind (peekKind_walks h.toWalk) fun kind r₁ ⟨walk, ended, t, hp, hk, _⟩ => ?_
    split
    · exact .pure ⟨walk, ended.trans h.inside⟩
    next inner =>
      refine .bind (discard_midline walk hp ?_) fun _ r₂ ⟨h₂, _⟩ => ih r₂ h₂
      rw [hk]
      exact Bool.eq_false_iff.2 inner

/-! ## § Parts of statements -/

/-- A reader that has statements to read.  At the start of a line it has looked at the first token,
which is there. -/
def Started (r : Reader) : Prop :=
  r.source.atLineEnd = true → ∃ t, r.source.peeked = some t ∧ t.kind.isLineEnd = false

theorem afterStatement_walks {others : Reading (List Expr)} {e : Expr} (h : Walk origin r)
    (ho : ∀ r, Walk origin r → Started r →
      Outcome others r (fun _ r' => Walk origin r') (Stopping origin)) :
    Outcome (afterStatement others e) r (fun _ r' => Walk origin r') (Stopping origin) := by
  refine .bind (peekKind_walks h) fun kind r₁ ⟨walk, _, t, hp, hk, _⟩ => ?_
  split
  · exact .pure walk
  next semicolon =>
    have inner : t.kind.isLineEnd = false := by rw [hk, Decidable.not_not.1 semicolon]; rfl
    refine .bind (discard_midline walk hp inner) fun _ r₂ ⟨h₂, _⟩ => ?_
    refine .bind (peekKind_walks h₂.toWalk) fun kind r₃ ⟨walk₃, ended, _⟩ => ?_
    split
    · exact .pure walk₃
    · have started₃ : Started r₃ := fun e => nomatch e.symm.trans (ended.trans h₂.inside)
      exact .bind (ho r₃ walk₃ started₃) fun es r₄ h₄ => .pure h₄

/-! ## § Parts of definitions -/

theorem headerWords_walks (count : Nat) (inside : r.source.atLineEnd = false) :
    Outcome (headerWords count) r
      (fun words r' => Midline r r' ∧
        ∀ t ∈ words, r.source.Seen r.Vocabularies t r'.source)
      (Stopping r) := by
  induction count generalizing r with
  | zero => exact .pure ⟨⟨.refl r, inside⟩, nofun⟩
  | succ count ih =>
    refine .bind (peekKind_walks (.refl r)) fun kind r₁ ⟨walk₁, ended₁, _⟩ => ?_
    split
    · exact .pure ⟨⟨walk₁, ended₁.trans inside⟩, nofun⟩
    · refine .bind (take_walks walk₁) fun t r₂ ⟨walk₂, seen, taken, ended₂⟩ => ?_
      split
      next word =>
        have inside₂ : r₂.source.atLineEnd = false := by
          rw [ended₂]
          rcases word.1 with hk | hk <;> rw [hk] <;> rfl
        refine .bind ((ih inside₂).mono (fun _ _ k => k) fun _ _ k => .after walk₂ k)
          fun words r₃ ⟨h₃, others⟩ => .pure ⟨⟨walk₂.trans h₃.toWalk, h₃.inside⟩, ?_⟩
        have path := h₃.path.mono walk₂.vocabularies
        refine List.forall_mem_cons.2 ⟨seen.path path, fun u hu => ?_⟩
        obtain ⟨between, before, hp, after⟩ := (others u hu).mono walk₂.vocabularies
        exact ⟨between, walk₂.path.trans before, hp, after⟩
      next => exact reject_behind seen taken

theorem checked_walks (head : Header) (h : Midline origin r)
    (seen : origin.source.Seen origin.Vocabularies t r.source) :
    Outcome (checked t head) r (fun _ r' => Midline origin r') (Stopping origin) := by
  unfold checked
  split
  · exact reject_midline seen h.inside
  · exact .pure h

theorem header_walks (inside : r.source.atLineEnd = false) :
    Outcome header r (fun _ r' => Midline r r') (Stopping r) := by
  rw [header_eq]
  refine .get (.bind (headerWords_walks _ inside) fun words r₁ ⟨h₁, seen⟩ => ?_)
  unfold headerOf
  split
  · exact checked_walks _ h₁ (seen _ List.mem_cons_self)
  · exact checked_walks _ h₁ (seen _ List.mem_cons_self)
  · refine .bind (peek_walks h₁.toWalk) fun t r₂ ⟨walk, hp, ended, _⟩ => ?_
    exact reject_midline (.of_peeked walk.path hp) (ended.trans h₁.inside)

/-- Any vocabulary: a definition changes it while it is read. -/
abbrev AnyVocabulary (_ : Vocabulary) : Prop := True

theorem stops_path {x : Reading α} (h : Outcome x r Q (Stopping origin)) :
    Outcome x r Q fun o r' => origin.source.Stopped AnyVocabulary o r'.source :=
  h.mono (fun _ _ k => k) fun _ _ k => Source.Stopped.mono (fun _ _ => trivial) k

/-- A refusal by the workspace. -/
theorem update_stops {s : Source} {f : Workspace → Except ParseError.Cause Workspace}
    (path : s.Path AnyVocabulary r.source)
    (taken : r.source.atLineEnd = true → r.source.peeked = none) :
    Outcome (update f) r (fun _ r' => r'.source = r.source)
      fun o r' => s.Stopped AnyVocabulary o r'.source :=
  outcome_update (fun _ _ => rfl) fun _ => .inr ⟨path, rfl, Int.natCast_nonneg _, taken⟩

/-! ## § Expressions within expressions -/

variable [Machine]

/-- The reader is not given up in front of a line before the first token of it is taken. -/
theorem giveUp_stops (missing : Nat) {Q : Expr → Reader → Prop} (h : Opening origin r) :
    Outcome (giveUp missing) r Q (Stopping origin) := by
  refine .get ?_
  have taken : Outcome
      (takeTokens (if r.source.atLineEnd then max 1 (Machine.cut missing r.source.lineAhead).tokens
        else (Machine.cut missing r.source.lineAhead).tokens)) r
      (fun _ r' => Midline origin r') (Stopping origin) := by
    cases ended : r.source.atLineEnd with
    | false => exact takeTokens_walks _ r ⟨h.toWalk, ended⟩
    | true =>
      obtain ⟨t, hp, inner, -⟩ := h.opens ended
      obtain ⟨count, positive⟩ : ∃ count,
          max 1 (Machine.cut missing r.source.lineAhead).tokens = count + 1 :=
        ⟨max 1 (Machine.cut missing r.source.lineAhead).tokens - 1, by omega⟩
      rw [if_pos rfl, positive]
      refine .bind (peekKind_walks h.toWalk) fun kind r₁ ⟨walk, _, u, hu, hk, same⟩ => ?_
      obtain rfl := same t hp
      rw [if_neg (by rw [← hk, inner]; decide)]
      exact .bind (discard_midline walk hu inner) fun _ r₂ ⟨h₂, _⟩ => takeTokens_walks count r₂ h₂
  exact .bind taken fun _ r₁ h₁ => .throw ⟨h₁.path, h₁.inside⟩

/-- An expression, be it the first one of its statement or not. -/
theorem expression_opens (depth toll : Nat) (h : Opening origin r) :
    Outcome (expression depth toll) r (fun _ r' => Midline origin r') (Stopping origin) := by
  induction depth generalizing toll r with
  | zero => exact giveUp_stops toll h
  | succ depth ih =>
    cases toll with
    | succ toll => exact ih toll h
    | zero =>
      rw [expression_succ]
      have within (toll : Nat) : Walks origin (expression depth toll) :=
        fun r h => ih toll h.opening
      exact .bind (operand_walks within h) fun left r₁ h₁ =>
        afterOperand_walks (within 0) left r₁ h₁

/-! ## § Statements -/

theorem outermost_walks (h : Opening origin r) :
    Outcome outermost r (fun _ r' => Midline origin r') (Stopping origin) :=
  .get (expression_opens _ _ h)

theorem statement_walks (h : Opening origin r) :
    Outcome statement r (fun _ r' => Midline origin r') (Stopping origin) := by
  rw [statement_eq]
  refine .bind (outermost_walks h) fun e r₁ h₁ => ?_
  refine .bind (peekKind_walks h₁.toWalk) fun kind r₂ ⟨walk, ended, t, hp, hk, _⟩ => ?_
  split
  next colon =>
    have inner : t.kind.isLineEnd = false := by rw [hk, colon]; rfl
    refine .bind (discard_midline walk hp inner) fun _ r₃ ⟨h₃, _⟩ => ?_
    exact .bind (outermost_walks h₃.opening) fun result r₄ h₄ => .pure h₄
  next => exact .pure ⟨walk, ended.trans h₁.inside⟩

theorem statementsUpTo_walks (count : Nat) (h : Walk origin r) (started : Started r) :
    Outcome (statementsUpTo count) r (fun _ r' => Walk origin r') (Stopping origin) := by
  induction count generalizing r with
  | zero => exact .pure h
  | succ count ih =>
    rw [statementsUpTo_succ]
    refine .bind (peekKind_walks h) fun kind r₁ ⟨walk, ended, t, hp, hk, same⟩ => ?_
    have started₁ : Started r₁ := fun e => by
      obtain ⟨u, hu, inner⟩ := started (ended.symm.trans e)
      exact ⟨u, same u hu ▸ hp, inner⟩
    split
    · exact afterStatement_walks walk fun _ => ih
    next no_semicolon =>
      have opening : Opening origin r₁ := by
        refine ⟨walk, fun e => ?_⟩
        obtain ⟨u, hu, inner⟩ := started₁ e
        obtain rfl := Option.some.inj (hp.symm.trans hu)
        exact ⟨t, hp, inner, hk ▸ no_semicolon⟩
      refine .bind (statement_walks opening) fun e r₂ h₂ => ?_
      exact afterStatement_walks h₂.toWalk fun _ => ih

theorem statements_walks (h : Walk origin r) (started : Started r) :
    Outcome statements r (fun _ r' => Walk origin r') (Stopping origin) :=
  .get (statementsUpTo_walks _ h started)

/-- A line of statements, with its end. -/
theorem line_walks (h : Walk origin r) (started : Started r) :
    Outcome statements r
      (fun _ r' => Outcome endOfLine r'
        (fun _ r'' => Walk origin r'' ∧ r''.source.peeked = none ∧ r''.source.atLineEnd = true)
        (Stopping origin))
      (Stopping origin) :=
  (statements_walks h started).mono (fun _ _ k => endOfLine_walks k) fun _ _ k => k

/-! ## § Definitions -/

theorem bodyLines_walks (count : Nat) (h : Walk origin r) (taken : r.source.peeked = none) :
    Outcome (bodyLines count) r (fun _ r' => Walk origin r' ∧ r'.source.peeked = none)
      (Stopping origin) := by
  induction count generalizing r with
  | zero => exact .pure ⟨h, taken⟩
  | succ count ih =>
    refine .bind (peekKind_walks h) fun kind r₁ ⟨walk₁, _, t, hp, hk, _⟩ => ?_
    split
    · refine .bind (discard_walks walk₁ hp) fun _ r₂ ⟨walk₂, source⟩ => .pure ⟨walk₂, ?_⟩
      rw [source]
    next inner =>
      have started : Started r₁ := fun _ => ⟨t, hp, by rw [hk]; exact Bool.not_eq_true _ ▸ inner⟩
      refine .bind (line_walks walk₁ started) fun first r₂ ended => ?_
      refine .bind ended fun last r₃ ⟨walk₃, taken₃, _⟩ => ?_
      split
      · exact .pure ⟨walk₃, taken₃⟩
      · exact .bind (ih walk₃ taken₃) fun others r₄ k => .pure k

theorem body_walks (h : Midline origin r) :
    Outcome body r (fun _ r' => Walk origin r' ∧ r'.source.peeked = none) (Stopping origin) := by
  refine .bind (peekKind_walks h.toWalk) fun kind r₁ ⟨walk₁, ended₁, t, hp, hk, _⟩ => ?_
  split
  · refine .bind (discard_walks walk₁ hp) fun _ r₂ ⟨walk₂, source⟩ => .get ?_
    have taken₂ : r₂.source.peeked = none := by rw [source]
    refine .bind (bodyLines_walks _ walk₂ taken₂) fun es r₃ ⟨walk₃, taken₃⟩ => ?_
    split
    · exact .get (.throw (.inr ⟨walk₃.path, rfl, Int.le_refl _, fun _ => taken₃⟩))
    · exact .pure ⟨walk₃, taken₃⟩
  · have started : Started r₁ := fun e => nomatch e.symm.trans (ended₁.trans h.inside)
    refine .bind (line_walks walk₁ started) fun es r₂ ended => ?_
    exact .bind ended fun last r₃ ⟨walk₃, taken₃, _⟩ => .pure ⟨walk₃, taken₃⟩

/-- A definition from the placeholder on. -/
theorem definitionBody_path (h : Header) (inside : r.source.atLineEnd = false) :
    Outcome (definitionBody h) r
      (fun _ r' => r.source.Path AnyVocabulary r'.source ∧ r'.source.peeked = none)
      fun o r' => r.source.Stopped AnyVocabulary o r'.source := by
  have middle : r.source.atLineEnd = true → r.source.peeked = none :=
    fun e => nomatch inside.symm.trans e
  refine .bind (update_stops (.refl _) middle) fun _ r₁ same₁ => ?_
  have h₁ : Midline r₁ r₁ := ⟨.refl r₁, same₁ ▸ inside⟩
  have sign : Walks r₁ (expect .assign "=") := expect_walks .assign "=" rfl
  rw [← same₁]
  refine .bind (stops_path (sign r₁ h₁)) fun _ r₂ h₂ => ?_
  refine .bind (stops_path (body_walks h₂)) fun es r₃ ⟨walk₃, taken₃⟩ => .get ?_
  have path₃ := walk₃.path.mono (W := AnyVocabulary) fun _ _ => trivial
  refine .bind (update_stops path₃ fun _ => taken₃) fun _ r₄ same₄ => .pure ?_
  rw [same₄]
  exact ⟨path₃, taken₃⟩

theorem definition_path (inside : r.source.atLineEnd = false) :
    Outcome definition r
      (fun _ r' => r.source.Path AnyVocabulary r'.source ∧ r'.source.peeked = none)
      fun o r' => r.source.Stopped AnyVocabulary o r'.source := by
  refine .bind (stops_path (header_walks inside)) fun h r₁ h₁ => .get ?_
  have path₁ := h₁.path.mono (W := AnyVocabulary) fun _ _ => trivial
  refine .bind (update_stops path₁ fun e => nomatch h₁.inside.symm.trans e)
    fun _ r₂ same₂ => .modify ?_
  rw [← same₂] at path₁
  have body := definitionBody_path h (r := { r₂ with free := some [] }) (same₂ ▸ h₁.inside)
  exact outcome_closing (body.mono (fun _ _ ⟨path, taken⟩ => ⟨path₁.trans path, taken⟩)
    fun _ _ stopped => Source.Stopped.after path₁ stopped)

end Reading

/-! ## § Lines -/

namespace Line

open Reading (AnyVocabulary stops_path)

variable [Machine]

/-- What is left when a line has been read: all tokens of it have been taken, with one vocabulary if
they are statements. -/
def Finished (origin : Reader) : Line → Reader → Prop
  | .statements _, r =>
    Walk origin r ∧ r.source.peeked = none ∧ r.source.atLineEnd = true
  | _, r => r.source.peeked = none

theorem reading_path (inside : r.source.atLineEnd = false) :
    Outcome reading r (Finished r) fun o r' => r.source.Stopped AnyVocabulary o r'.source := by
  refine .bind (stops_path (Reading.peekKind_walks (.refl r)))
    fun kind r₁ ⟨walk₁, ended₁, t, hp, hk, _⟩ => ?_
  have discarded := stops_path (Reading.discard_walks walk₁ hp)
  have taken {r₂ : Reader} {ended : Bool}
      (source : r₂.source = { r₁.source with peeked := none, atLineEnd := ended }) :
      r₂.source.peeked = none := by rw [source]
  split
  · exact .bind discarded fun _ r₂ ⟨_, source⟩ => .pure (taken source)
  · exact .bind discarded fun _ r₂ ⟨_, source⟩ => .pure (taken source)
  · exact .bind discarded fun _ r₂ _ => .get (.set (.pure rfl))
  · refine .bind discarded fun _ r₂ ⟨walk₂, source⟩ => ?_
    have inside₂ : r₂.source.atLineEnd = false := by rw [source, hk]; rfl
    have path := walk₂.path.mono (W := AnyVocabulary) fun _ _ => trivial
    refine .bind ((Reading.definition_path inside₂).mono (fun _ _ k => k)
      fun _ _ k => Source.Stopped.after path k) fun f r₃ ⟨_, taken⟩ => .pure taken
  · have started : Reading.Started r₁ := fun e => nomatch e.symm.trans (ended₁.trans inside)
    refine .bind (stops_path (Reading.line_walks walk₁ started)) fun es r₂ ended => ?_
    exact .bind (stops_path ended) fun last r₃ finished => .pure finished

end Line

end ArrayCalc
