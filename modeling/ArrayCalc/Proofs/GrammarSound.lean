import ArrayCalc.Proofs.Copies
import ArrayCalc.Proofs.Grammar
import ArrayCalc.Proofs.ReadingScope

/-!
# What is read is in the grammar

A reader stands in front of a line, a list of tokens of which the last ends it (`Gives`, `Facing`).
What each reader takes off the front of the line is a phrase of the grammar, and a token that ends
the phrase is next (`Sound`).  If the reader stops, a token of the line is to blame, or the depth.
-/

namespace ArrayCalc

open Grammar

variable {v : Vocabulary} {w : Workspace} {s s' : Source} {t : Token} {ts us xs ys : List Token}

namespace Source

/-- The tokens of a source up to the end of its line, that end included. -/
inductive Gives (v : Vocabulary) : Source → List Token → Prop
  | last {s s' : Source} {t : Token} (h : s.take v = (.ok t, s'))
      (ends : t.kind.isLineEnd = true) : Gives v s [t]
  | cons {s s' : Source} {t : Token} {ts : List Token} (h : s.take v = (.ok t, s'))
      (inner : t.kind.isLineEnd = false) (rest : Gives v s' ts) : Gives v s (t :: ts)

theorem Gives.take (h : s.Gives v (t :: ts)) :
    ∃ s', s.take v = (.ok t, s') ∧ (t.kind.isLineEnd = false → s'.Gives v ts) := by
  cases h with
  | last h ends => exact ⟨_, h, fun inner => nomatch ends.symm.trans inner⟩
  | cons h _ rest => exact ⟨_, h, fun _ => rest⟩

/-- Looking at a token leaves the line as it is. -/
theorem Gives.peek (h : s.Gives v (t :: ts)) :
    ∃ s₁, s.peek v = (.ok t, s₁) ∧ s₁.Gives v (t :: ts) := by
  cases h with
  | last h ends =>
    obtain ⟨s₁, hp, h₁, -⟩ := peek_of_take h
    exact ⟨s₁, hp, .last h₁ ends⟩
  | cons h inner rest =>
    obtain ⟨s₁, hp, h₁, -⟩ := peek_of_take h
    exact ⟨s₁, hp, .cons h₁ inner rest⟩

theorem Gives.ne_nil (h : s.Gives v ts) : ∃ t us, ts = t :: us := by
  cases h with
  | last => exact ⟨_, _, rfl⟩
  | cons => exact ⟨_, _, rfl⟩

/-- Nothing of the line is left behind its end. -/
theorem Gives.eq_nil (h : s.Gives v (t :: ts)) (ht : t.kind.isLineEnd = true) : ts = [] := by
  cases h with
  | last => rfl
  | cons _ inner => exact nomatch ht.symm.trans inner

theorem gives_cons_iff (h : s.take v = (.ok t, s')) :
    s.Gives v (t :: ts) ↔ if t.kind.isLineEnd then ts = [] else s'.Gives v ts := by
  constructor
  · intro gives
    split
    next ends => exact gives.eq_nil ends
    next inner =>
      obtain ⟨s₁, h₁, rest⟩ := gives.take
      obtain ⟨-, rfl⟩ := Prod.mk.inj (h.symm.trans h₁)
      exact rest (Bool.eq_false_iff.2 inner)
  · intro rest
    split at rest
    next ends =>
      subst rest
      exact .last h ends
    next inner => exact .cons h (Bool.eq_false_iff.2 inner) rest

/-- Whether a source gives a line can be tried out. -/
instance decidableGives (v : Vocabulary) : (ts : List Token) → (s : Source) →
    Decidable (s.Gives v ts)
  | [], _ => isFalse nofun
  | t :: ts, s =>
    match h : s.take v with
    | (.ok u, s') =>
      have := decidableGives v ts s'
      if hu : u = t then decidable_of_iff' _ (gives_cons_iff (hu ▸ h))
      else isFalse fun gives => by
        obtain ⟨s₁, h₁, -⟩ := gives.take
        exact hu (Except.ok.inj (Prod.mk.inj (h.symm.trans h₁)).1)
    | (.error _, _) => isFalse fun gives => by
        obtain ⟨s₁, h₁, -⟩ := gives.take
        exact nomatch h.symm.trans h₁

/-- A token that does not end the line is no shorter than what it takes from the text. -/
theorem left_take_lt (h : s.take v = (.ok t, s')) (inner : t.kind.isLineEnd = false) :
    s'.left < s.left := by
  obtain ⟨s₁, hp, h₁, peeked⟩ := peek_of_take h
  have le := left_peek_le hp
  rw [take_of_peeked peeked] at h₁
  obtain ⟨-, rfl⟩ := Prod.mk.inj h₁
  have lt : ({ s₁ with peeked := none, atLineEnd := t.kind.isLineEnd } : Source).left < s₁.left := by
    simp [left, peeked, inner]
  omega

theorem Gives.length_le (h : s.Gives v ts) : ts.length ≤ s.remaining := by
  have bound : ts.length ≤ s.left + 1 := by
    induction h with
    | last => simp
    | cons h inner _ ih =>
      have := left_take_lt h inner
      rw [List.length_cons]
      omega
  have := s.left_lt_remaining
  omega

end Source

/-- Whether there was no level left, wherever the reader was given up. -/
def Obstacle.IsTooDeep (o : Obstacle) : Prop := ∃ count, o = .tooDeep count

namespace Reading

/-- A reader outside of definitions in front of a line. -/
structure Facing (w : Workspace) (r : Reader) (ts : List Token) : Prop where
  workspace : r.workspace = w
  free : r.free = none
  gives : r.source.Gives w.vocabulary ts

/-- Why a reader has stopped on a line: a token does not fit or its text does not read, or the tree
is too deep. -/
def Blames (w : Workspace) (ts : List Token) : Obstacle → Prop
  | .lex e => ∃ t ∈ ts, t.kind = .string ∧
      Text.Quoted.decode t.text.toList = .error (.lex e.cause) ∧ e.line = t.line
  | .parse e => ∃ t ∈ ts, e.line = t.line ∧ e.found = some t.describe
  | .tooDeep _ => True
  | .fault f => f = .overflow ∧ ∃ t ∈ ts,
      (t.kind.isNumeral = true ∧ Numeral.read t.text w.settings.inputBase = .error .overflow) ∨
        (t.kind = .string ∧ Text.Quoted.decode t.text.toList = .error .overflow)

theorem Blames.mono {o : Obstacle} (sub : ∀ t ∈ us, t ∈ ts) (h : Blames w us o) :
    Blames w ts o := by
  cases o with
  | lex | parse =>
    obtain ⟨t, ht, h⟩ := h
    exact ⟨t, sub t ht, h⟩
  | tooDeep => trivial
  | fault =>
    obtain ⟨hf, t, ht, h⟩ := h
    exact ⟨hf, t, sub t ht, h⟩

variable {r : Reader} {α : Type} {E : Obstacle → Reader → Prop}

/-! ## § Tokens -/

theorem peek_facing (h : Facing w r (t :: ts)) :
    Outcome peek r (fun a r' => a = t ∧ Facing w r' (t :: ts)) E := by
  obtain ⟨s₁, hp, gives⟩ := h.gives.peek
  rw [← h.workspace] at hp
  refine outcome_onSource (fun a s hs => ?_) fun e s hs => ?_
  · obtain ⟨ha, rfl⟩ := Prod.mk.inj (hs.symm.trans hp)
    exact ⟨Except.ok.inj ha, h.workspace, h.free, gives⟩
  · exact nomatch hs.symm.trans hp

theorem take_facing (h : Facing w r (t :: ts)) :
    Outcome take r
      (fun a r' => a = t ∧ r'.workspace = w ∧ (t.kind.isLineEnd = false → Facing w r' ts)) E := by
  obtain ⟨s₁, hp, gives⟩ := h.gives.take
  rw [← h.workspace] at hp
  refine outcome_onSource (fun a s hs => ?_) fun e s hs => ?_
  · obtain ⟨ha, rfl⟩ := Prod.mk.inj (hs.symm.trans hp)
    exact ⟨Except.ok.inj ha, h.workspace, fun inner => ⟨h.workspace, h.free, gives inner⟩⟩
  · exact nomatch hs.symm.trans hp

theorem peekKind_facing (h : Facing w r (t :: ts)) :
    Outcome peekKind r (fun kind r' => kind = t.kind ∧ Facing w r' (t :: ts)) E := by
  refine .bind (peek_facing h) fun a r₁ ⟨ha, h₁⟩ => ?_
  subst ha
  exact .pure ⟨rfl, h₁⟩

theorem discard_facing (h : Facing w r (t :: ts)) (inner : t.kind.isLineEnd = false) :
    Outcome discard r (fun _ r' => Facing w r' ts) E :=
  .bind (take_facing h) fun _ _ ⟨_, _, h₁⟩ => .pure (h₁ inner)

theorem remaining_facing (h : Facing w r ts) :
    Outcome remaining r (fun n r' => ts.length ≤ n ∧ Facing w r' ts) E :=
  .get (.pure ⟨h.gives.length_le, h⟩)

theorem reject_blames {Q : α → Reader → Prop} (cause : ParseError.Cause) (expected : List String)
    (ht : t ∈ ts) : Outcome (reject t cause expected) r Q fun o _ => Blames w ts o :=
  .throw ⟨t, ht, rfl, rfl⟩

/-! ## § Soundness -/

/-- What has been taken off the front of a line is a phrase, and a token that ends it is next. -/
def TakenOff (w : Workspace) (phrase : List Token → α → Prop) (ends : TokenKind → Prop)
    (ts : List Token) (a : α) (r : Reader) : Prop :=
  ∃ us x xs, ts = us ++ x :: xs ∧ phrase us a ∧ ends x.kind ∧ Facing w r (x :: xs)

theorem length_le_of_split {x : Token} {xs : List Token} (h : t :: us = ts ++ x :: xs) :
    xs.length ≤ us.length := by
  have length := congrArg List.length h
  rw [List.length_cons, List.length_append, List.length_cons] at length
  omega

/-- A reader takes a phrase off the front of any line, or blames the line. -/
def Sound (w : Workspace) (x : Reading α) (phrase : List Token → α → Prop)
    (ends : TokenKind → Prop) : Prop :=
  ∀ {r : Reader} {ts : List Token}, Facing w r ts →
    Outcome x r (TakenOff w phrase ends ts) fun o _ => Blames w ts o

theorem Sound.within {x : Reading α} {phrase : List Token → α → Prop} {ends : TokenKind → Prop}
    (hx : Sound w x phrase ends) (h : Facing w r us) (sub : ∀ t ∈ us, t ∈ ts) :
    Outcome x r (TakenOff w phrase ends us) fun o _ => Blames w ts o :=
  (hx h).mono (fun _ _ taken => taken) fun _ _ blame => blame.mono sub

/-- No matter what is next. -/
abbrev anything : TokenKind → Prop := fun _ => True

section Sound

variable {expr : Reading Expr} {exprs : Nat → Reading Expr} {inner : Phrase}
  {inside : Nat → Phrase} {e : Expr} {count : Nat}

theorem numeral_sound (hk : t.kind.isNumeral = true) (h : Facing w r us) (ht : t ∈ ts) :
    Outcome (numeral t) r (fun e r' => leaf? w t = some e ∧ Facing w r' us)
      fun o _ => Blames w ts o := by
  unfold numeral
  refine .get ?_
  rw [h.workspace, leaf?_numeral hk]
  cases hc : Numeral.read t.text w.settings.inputBase with
  | ok c => exact .pure ⟨rfl, h⟩
  | error failure =>
    cases failure with
    | error cause => exact reject_blames _ _ ht
    | overflow => exact .throw ⟨rfl, t, ht, .inl ⟨hk, hc⟩⟩

theorem quoted_sound (hk : t.kind = .string) (h : Facing w r us) (ht : t ∈ ts) :
    Outcome (quoted t) r (fun e r' => leaf? w t = some e ∧ Facing w r' us)
      fun o _ => Blames w ts o := by
  unfold quoted
  rw [leaf?_string hk]
  split
  next c hc =>
    rw [hc]
    exact .pure ⟨rfl, h⟩
  next text no_char hc =>
    rw [hc]
    refine .pure ⟨?_, h⟩
    show some (quotation text) = _
    unfold quotation
    split
    next c => exact (no_char c rfl).elim
    next => rfl
  next cause hc => exact .throw ⟨t, ht, hk, hc, rfl⟩
  next hc => exact .throw ⟨rfl, t, ht, .inr ⟨hk, hc⟩⟩

/-- Outside of definitions nothing is noted of a name. -/
theorem nameUse_facing (name : String) (h : Facing w r ts) :
    Outcome (nameUse name) r (fun e r' => e = named w name ∧ Facing w r' ts) E := by
  unfold nameUse
  refine .get ?_
  rw [h.workspace]
  cases hs : w.slotOf? name with
  | some slot => exact .pure ⟨by simp [named, hs], h⟩
  | none =>
    refine .set (.pure ⟨by simp [named, hs], rfl, ?_, h.gives⟩)
    rw [h.free]
    rfl

theorem expect_taken {kind : TokenKind} (what : String) (hk : t.kind = kind)
    (inner : kind.isLineEnd = false) (h : Facing w r (t :: us)) :
    Outcome (expect kind what) r (fun _ r' => Facing w r' us) E := by
  refine .bind (take_facing h) fun a r₁ ⟨ha, _, h₁⟩ => ?_
  subst ha
  rw [if_neg (Decidable.not_not.2 hk)]
  exact .pure (h₁ (hk ▸ inner))

theorem expect_facing (kind : TokenKind) (what : String) (inner : kind.isLineEnd = false)
    (h : Facing w r (t :: us)) (ht : t ∈ ts) :
    Outcome (expect kind what) r (fun _ r' => t.kind = kind ∧ Facing w r' us)
      fun o _ => Blames w ts o := by
  by_cases hk : t.kind = kind
  · exact (expect_taken what hk inner h).mono (fun _ _ h' => ⟨hk, h'⟩) fun _ _ blame => blame
  · refine .bind (take_facing h) fun a r₁ ⟨ha, _⟩ => ?_
    subst ha
    rw [if_pos hk]
    exact reject_blames _ _ ht

/-- What has been taken off by a reader that finds an operand, or nothing if there is none. -/
def ItemOff (w : Workspace) (inner : Phrase) (ts : List Token) : Option Expr → Reader → Prop
  | some e, r => TakenOff w (Element w inner) anything ts e r
  | none, r => Facing w r ts

/-- A token that is an operand by itself. -/
theorem literal_sound {x : Reading Expr} (h : Facing w r (t :: us)) (ht : t.kind.isLineEnd = false)
    (hx : ∀ {r : Reader}, Facing w r us →
      Outcome x r (fun e r' => leaf? w t = some e ∧ Facing w r' us)
        fun o _ => Blames w (t :: us) o) :
    Outcome (do discard; return some (← x)) r (ItemOff w inner (t :: us))
      fun o _ => Blames w (t :: us) o := by
  refine .bind (discard_facing h ht) fun _ r₁ h₁ => .bind (hx h₁) fun e r₂ ⟨hl, h₂⟩ => .pure ?_
  obtain ⟨x, xs, rfl⟩ := h₂.gives.ne_nil
  exact ⟨[t], x, xs, rfl, .leaf hl, trivial, h₂⟩

theorem inParens_sound (he : Sound w expr inner (·.endsExpression = true))
    (h : Facing w r (t :: us)) (opens : t.kind = .leftParen) :
    Outcome (inParens expr) r (ItemOff w inner (t :: us)) fun o _ => Blames w (t :: us) o := by
  refine .bind (discard_facing h (by rw [opens]; rfl)) fun _ r₁ h₁ => ?_
  refine .bind (he.within h₁ fun _ hm => List.mem_cons_of_mem _ hm) fun e r₂ taken => ?_
  obtain ⟨vs, b, xs, rfl, hp, -, h₂⟩ := taken
  refine .bind (expect_facing .rightParen ")" rfl h₂ (by simp)) fun _ r₃ ⟨closes, h₃⟩ => .pure ?_
  obtain ⟨x, xs, rfl⟩ := h₃.gives.ne_nil
  exact ⟨t :: (vs ++ [b]), x, xs, by simp, .parens opens hp closes, trivial, h₃⟩

theorem item?_sound (he : Sound w expr inner (·.endsExpression = true)) (h : Facing w r ts) :
    Outcome (item? expr) r (ItemOff w inner ts) fun o _ => Blames w ts o := by
  obtain ⟨t, us, rfl⟩ := h.gives.ne_nil
  rw [item?_eq]
  refine .bind (peek_facing h) fun a r₁ ⟨ha, h₁⟩ => ?_
  subst ha
  unfold operandFrom
  split
  next hk =>
    exact literal_sound h₁ (by rw [hk]; rfl) fun h => numeral_sound (by rw [hk]; rfl) h (by simp)
  next hk =>
    exact literal_sound h₁ (by rw [hk]; rfl) fun h => numeral_sound (by rw [hk]; rfl) h (by simp)
  next hk =>
    exact literal_sound h₁ (by rw [hk]; rfl) fun h => numeral_sound (by rw [hk]; rfl) h (by simp)
  next hk => exact literal_sound h₁ (by rw [hk]; rfl) fun h => quoted_sound hk h (by simp)
  next hk =>
    refine literal_sound h₁ (by rw [hk]; rfl) fun h => ?_
    refine (nameUse_facing a.text h).mono (fun e r' k => ⟨?_, k.2⟩) fun _ _ blame => blame
    rw [k.1]
    simp [leaf?, hk]
  next hk => exact inParens_sound he h₁ hk
  next => exact .pure h₁

theorem items_sound (he : Sound w expr inner (·.endsExpression = true)) (h : Facing w r ts) :
    Outcome (items expr count) r
      (fun es r' => TakenOff w (Strand w inner) anything ts es r' ∨ es = [] ∧ Facing w r' ts)
      fun o _ => Blames w ts o := by
  induction count generalizing r ts with
  | zero => exact .pure (.inr ⟨rfl, h⟩)
  | succ count ih =>
    refine .bind (item?_sound he h) fun item r₁ taken => ?_
    cases item with
    | none => exact .pure (.inr ⟨rfl, taken⟩)
    | some e =>
      obtain ⟨us, x, xs, rfl, first, -, h₁⟩ := taken
      refine .bind ((ih h₁).mono (fun _ _ k => k)
        fun _ _ blame => blame.mono fun _ => List.mem_append_right _)
        fun es r₂ taken => .pure (.inl ?_)
      rcases taken with ⟨vs, y, ys, eq, rest, -, h₂⟩ | ⟨rfl, h₂⟩
      · exact ⟨us ++ vs, y, ys, by rw [eq, List.append_assoc], .cons first rest, trivial, h₂⟩
      · exact ⟨us, x, xs, rfl, .one first, trivial, h₂⟩

/-- Subscripts up to the closing bracket, which is taken off with them. -/
def SubscriptsOff (w : Workspace) (inner : Phrase) (ts : List Token) (es : List Expr) (r : Reader) :
    Prop :=
  ∃ us b xs, ts = us ++ b :: xs ∧ Subscripts inner us es ∧ b.kind = .rightBracket ∧ Facing w r xs

/-- Behind a subscript the brackets are closed, or there is another one. -/
theorem afterSubscript_sound {others : Reading (List Expr)} (hp : Optional inner us e)
    (h : Facing w r (t :: ts))
    (ho : ∀ {r : Reader}, Facing w r ts →
      Outcome others r (SubscriptsOff w inner ts) fun o _ => Blames w ts o) :
    Outcome (afterSubscript others e) r (SubscriptsOff w inner (us ++ t :: ts))
      fun o _ => Blames w (us ++ t :: ts) o := by
  refine .bind (take_facing h) fun a r₁ ⟨ha, _, h₁⟩ => ?_
  subst ha
  split
  next hk => exact .pure ⟨us, a, ts, rfl, .one hp, hk, h₁ (by rw [hk]; rfl)⟩
  next hk =>
    refine .bind ((ho (h₁ (by rw [hk]; rfl))).mono (fun _ _ k => k)
      fun _ _ blame => blame.mono fun _ hm => List.mem_append_right _ (List.mem_cons_of_mem _ hm))
      fun es r₂ taken => .pure ?_
    obtain ⟨vs, b, xs, rfl, others, closes, h₂⟩ := taken
    exact ⟨us ++ a :: vs, b, xs, by simp, .cons hp hk others, closes, h₂⟩
  next => exact reject_blames _ _ (by simp)

theorem subscripts_sound (he : Sound w expr inner (·.endsExpression = true)) (h : Facing w r ts)
    (hc : ts.length ≤ count) :
    Outcome (subscripts expr count) r (SubscriptsOff w inner ts) fun o _ => Blames w ts o := by
  induction count generalizing r ts with
  | zero =>
    obtain ⟨t, us, rfl⟩ := h.gives.ne_nil
    exact nomatch hc
  | succ count ih =>
    obtain ⟨t, us, rfl⟩ := h.gives.ne_nil
    rw [subscripts_succ]
    refine .bind (peekKind_facing h) fun kind r₁ ⟨_, h₁⟩ => ?_
    rw [List.length_cons] at hc
    split
    · exact afterSubscript_sound .absent h₁ fun h => ih h (by omega)
    · refine .bind (he h₁) fun e r₂ taken => ?_
      obtain ⟨vs, x, xs, eq, hp, -, h₂⟩ := taken
      have shorter := length_le_of_split eq
      rw [eq]
      exact afterSubscript_sound (.present hp) h₂ fun h => ih h (by omega)

theorem indices_sound (he : Sound w expr inner (·.endsExpression = true)) (h : Facing w r ts) :
    Outcome (indices expr count e) r (TakenOff w (Brackets inner e) anything ts)
      fun o _ => Blames w ts o := by
  induction count generalizing r ts e with
  | zero =>
    obtain ⟨t, us, rfl⟩ := h.gives.ne_nil
    exact .pure ⟨[], t, us, rfl, .none, trivial, h⟩
  | succ count ih =>
    obtain ⟨t, us, rfl⟩ := h.gives.ne_nil
    refine .bind (peekKind_facing h) fun kind r₁ ⟨hkind, h₁⟩ => ?_
    split
    next opens =>
      rw [hkind] at opens
      refine .bind (discard_facing h₁ (by rw [opens]; rfl)) fun _ r₂ h₂ => ?_
      refine .bind (remaining_facing h₂) fun n r₃ ⟨hn, h₃⟩ => ?_
      refine .bind ((subscripts_sound he h₃ hn).mono (fun _ _ k => k)
        fun _ _ blame => blame.mono fun _ hm => List.mem_cons_of_mem _ hm) fun es r₄ taken => ?_
      obtain ⟨vs, b, xs, rfl, hs, closes, h₄⟩ := taken
      refine (ih h₄).mono (fun f r₅ taken => ?_) fun _ _ blame => blame.mono fun t ht => by simp [ht]
      obtain ⟨ws, y, ys, rfl, rest, -, h₅⟩ := taken
      exact ⟨t :: (vs ++ b :: ws), y, ys, by simp, .cons opens hs closes rest, trivial, h₅⟩
    next => exact .pure ⟨[], t, us, rfl, .none, trivial, h₁⟩

theorem primary_sound (he : ∀ toll, Sound w (exprs toll) (inside toll) (·.endsExpression = true)) :
    Sound w (primary exprs) (Primary w inside) anything := by
  intro r ts h
  have behind {us xs : List Token} {x : Token} {es : List Expr} {r' : Reader}
      (eq : ts = us ++ x :: xs) (hp : Strand w (inside 2) us es) (h' : Facing w r' (x :: xs)) :
      Outcome (do indices (exprs 3) (← remaining) (joined es)) r'
        (TakenOff w (Primary w inside) anything ts) fun o _ => Blames w ts o := by
    subst eq
    refine .bind (remaining_facing h') fun n r₁ ⟨_, h₁⟩ => ?_
    refine (indices_sound (he 3) h₁).mono (fun e r₂ taken => ?_)
      fun _ _ blame => blame.mono fun _ => List.mem_append_right _
    obtain ⟨vs, y, ys, eq, brackets, -, h₂⟩ := taken
    exact ⟨us ++ vs, y, ys, by rw [eq, List.append_assoc], .mk hp brackets, trivial, h₂⟩
  refine .bind (remaining_facing h) fun n r₁ ⟨_, h₁⟩ => ?_
  refine .bind (items_sound (he 2) h₁) fun es r₂ taken => ?_
  rcases taken with ⟨us, x, xs, eq, hp, -, h₂⟩ | ⟨rfl, h₂⟩
  · have first := behind eq hp h₂
    split
    next => cases hp
    next => exact first
    next _ not_one =>
      have plain : joined es = .strand es := by
        unfold joined
        split
        next => exact (not_one _ rfl).elim
        next => rfl
      rwa [plain] at first
  · obtain ⟨t, us, rfl⟩ := h₂.gives.ne_nil
    refine .bind (peek_facing h₂) fun a r₃ ⟨ha, _⟩ => ?_
    subst ha
    exact reject_blames _ _ (by simp)

/-- An operand is a primary, or a whole expression that starts with an operator. -/
theorem operand_sound
    (he : ∀ toll, Sound w (exprs toll) (inside toll) (·.endsExpression = true))
    (h : Facing w r ts) :
    Outcome (operand exprs) r
      (fun e r' => TakenOff w (Primary w inside) anything ts e r' ∨
        TakenOff w (ExpressionOver w inside) (·.endsExpression = true) ts e r')
      fun o _ => Blames w ts o := by
  obtain ⟨t, us, rfl⟩ := h.gives.ne_nil
  refine .bind (peek_facing h) fun a r₁ ⟨ha, h₁⟩ => ?_
  subst ha
  split
  next hk =>
    refine .bind (discard_facing h₁ (by rw [hk]; rfl)) fun _ r₂ h₂ => .get ?_
    rw [h₂.workspace]
    split
    next word =>
      refine .bind (Sound.within (he 1) h₂ fun _ hm => List.mem_cons_of_mem _ hm)
        fun e r₃ taken => .pure ?_
      obtain ⟨vs, x, xs, rfl, right, ends, h₃⟩ := taken
      exact .inr ⟨a :: vs, x, xs, rfl, .unary hk (Bool.or_eq_true _ _ ▸ word) right, ends, h₃⟩
    next => exact reject_blames _ _ (by simp)
  next => exact (primary_sound he h₁).mono (fun _ _ taken => .inl taken) fun _ _ blame => blame

theorem assignmentTarget_facing (e : Expr) (h : Facing w r ts) :
    Outcome (assignmentTarget e) r (fun e' r' => e' = e ∧ Facing w r' ts) E := by
  unfold assignmentTarget
  refine .get ?_
  rw [h.free]
  exact .pure ⟨rfl, h⟩

theorem takeTokens_facing (count : Nat) (h : Facing w r ts) :
    Outcome (takeTokens count) r (fun _ r' => ∃ us, Facing w r' us) E := by
  induction count generalizing r ts with
  | zero => exact .pure ⟨ts, h⟩
  | succ count ih =>
    obtain ⟨t, us, rfl⟩ := h.gives.ne_nil
    refine .bind (peekKind_facing h) fun kind r₁ ⟨hkind, h₁⟩ => ?_
    subst hkind
    split
    next => exact .pure ⟨_, h₁⟩
    next inner => exact .bind (discard_facing h₁ (Bool.eq_false_iff.2 inner)) fun _ _ h₂ => ih h₂

variable [Machine]

theorem giveUp_facing (missing : Nat) {Q : Expr → Reader → Prop} (h : Facing w r ts) :
    Outcome (giveUp missing) r Q fun o _ => o.IsTooDeep := by
  refine .get (.bind (takeTokens_facing _ h) fun _ _ _ => .throw ⟨_, rfl⟩)

theorem expression_sound (w : Workspace) (depth toll : Nat) :
    Sound w (expression depth toll) (Expression w depth toll) (·.endsExpression = true) := by
  induction depth generalizing toll with
  | zero =>
    intro r ts h
    refine (giveUp_facing toll h).mono (fun _ _ k => k) fun o _ ⟨count, ho⟩ => ?_
    subst ho
    trivial
  | succ depth ih =>
    cases toll with
    | succ toll => exact ih toll
    | zero =>
      intro r ts h
      rw [expression_succ]
      refine .bind (operand_sound ih h) fun e r₁ taken => ?_
      rcases taken with ⟨us, x, xs, rfl, left, -, h₁⟩ | ⟨us, x, xs, rfl, whole, ends, h₁⟩
      · have later {t : Token} (hm : t ∈ xs) : t ∈ us ++ x :: xs :=
          List.mem_append_right _ (List.mem_cons_of_mem _ hm)
        have blamed : x ∈ us ++ x :: xs := by simp
        refine .bind (peek_facing h₁) fun a r₂ ⟨ha, h₂⟩ => ?_
        subst ha
        split
        next kind =>
          refine .bind (discard_facing h₂ (by rw [kind]; rfl)) fun _ r₃ h₃ => ?_
          split
          next assignable =>
            refine .bind (assignmentTarget_facing e h₃) fun target r₄ ⟨same, h₄⟩ => ?_
            subst same
            refine .bind (Sound.within (ih 0) h₄ fun _ => later) fun value r₅ taken => .pure ?_
            obtain ⟨vs, y, ys, rfl, right, ends, h₅⟩ := taken
            exact ⟨us ++ a :: vs, y, ys, by simp, .assign left assignable kind right, ends, h₅⟩
          next => exact reject_blames _ _ blamed
        next =>
          split
          next kind =>
            refine .bind (discard_facing h₂ (by rw [kind]; rfl)) fun _ r₃ h₃ => .get ?_
            rw [h₃.workspace]
            split
            next word =>
              refine .bind (Sound.within (ih 0) h₃ fun _ => later) fun right r₄ taken => .pure ?_
              obtain ⟨vs, y, ys, rfl, hr, ends, h₄⟩ := taken
              exact ⟨us ++ a :: vs, y, ys, by simp,
                .binary left kind (Bool.or_eq_true _ _ ▸ word) hr, ends, h₄⟩
            next => exact reject_blames _ _ blamed
          next =>
            split
            next ends => exact .pure ⟨us, a, xs, rfl, .primary left, ends, h₂⟩
            next => exact reject_blames _ _ blamed
      · -- Nothing can follow an expression that starts with an operator.
        refine .bind (peek_facing h₁) fun a r₂ ⟨ha, h₂⟩ => ?_
        subst ha
        rw [if_neg (by rintro hk; rw [hk] at ends; exact nomatch ends),
          if_neg (by rintro hk; rw [hk] at ends; exact nomatch ends), if_pos ends]
        exact .pure ⟨us, a, xs, rfl, whole, ends, h₂⟩

/-- Outside of definitions an expression has all levels to itself. -/
theorem outermost_sound :
    Sound w outermost (Expression w Machine.nesting 0) (·.endsExpression = true) := by
  intro r ts h
  unfold outermost
  refine .get ?_
  rw [outermostToll, h.free]
  exact expression_sound w Machine.nesting 0 h

theorem statement_sound (w : Workspace) :
    Sound w statement (Statement (Expression w Machine.nesting 0)) (·.endsExpression = true) := by
  intro r ts h
  rw [statement_eq]
  refine .bind (outermost_sound h) fun e r₁ taken => ?_
  obtain ⟨us, x, xs, rfl, he, ends, h₁⟩ := taken
  refine .bind (peekKind_facing h₁) fun kind r₂ ⟨hkind, h₂⟩ => ?_
  subst hkind
  split
  next colon =>
    refine .bind (discard_facing h₂ (by rw [colon]; rfl)) fun _ r₃ h₃ => ?_
    refine .bind (Sound.within outermost_sound h₃ fun _ hm =>
      List.mem_append_right _ (List.mem_cons_of_mem _ hm)) fun f r₄ taken => .pure ?_
    obtain ⟨vs, y, ys, rfl, hf, ends', h₄⟩ := taken
    exact ⟨us ++ x :: vs, y, ys, by simp, .conditional he colon hf, ends', h₄⟩
  next => exact .pure ⟨us, x, xs, rfl, .plain he, ends, h₂⟩

/-- Behind a statement the line ends, or a semicolon and perhaps more statements stand there. -/
theorem afterStatement_sound {others : Reading (List Expr)}
    (hp : Optional (Statement (Expression w Machine.nesting 0)) us e)
    (hl : t.kind ≠ .semicolon → Statement (Expression w Machine.nesting 0) us e)
    (h : Facing w r (t :: ts))
    (ho : ∀ {r : Reader}, Facing w r ts →
      Outcome others r (TakenOff w (Statements w Machine.nesting) anything ts)
        fun o _ => Blames w ts o) :
    Outcome (afterStatement others e) r
      (TakenOff w (Statements w Machine.nesting) anything (us ++ t :: ts))
      fun o _ => Blames w (us ++ t :: ts) o := by
  refine .bind (peekKind_facing h) fun kind r₁ ⟨hkind, h₁⟩ => ?_
  subst hkind
  split
  next other => exact .pure ⟨us, t, ts, rfl, .last (hl other), trivial, h₁⟩
  next semicolon =>
    have semicolon := Decidable.not_not.1 semicolon
    refine .bind (discard_facing h₁ (by rw [semicolon]; rfl)) fun _ r₂ h₂ => ?_
    obtain ⟨y, ys, rfl⟩ := h₂.gives.ne_nil
    refine .bind (peekKind_facing h₂) fun kind r₃ ⟨hkind, h₃⟩ => ?_
    subst hkind
    split
    next => exact .pure ⟨us ++ [t], y, ys, by simp, .closed hp semicolon, trivial, h₃⟩
    next =>
      refine .bind ((ho h₃).mono (fun _ _ k => k)
        fun _ _ blame => blame.mono fun _ hm => List.mem_append_right _ (List.mem_cons_of_mem _ hm))
        fun es r₄ taken => .pure ?_
      obtain ⟨vs, z, zs, eq, others, -, h₄⟩ := taken
      refine ⟨us ++ t :: vs, z, zs, ?_, .cons hp semicolon others, trivial, h₄⟩
      rw [eq, List.append_assoc, List.cons_append]

theorem statementsUpTo_sound (h : Facing w r ts) (hc : ts.length ≤ count) :
    Outcome (statementsUpTo count) r
      (TakenOff w (Statements w Machine.nesting) anything ts) fun o _ => Blames w ts o := by
  induction count generalizing r ts with
  | zero =>
    obtain ⟨t, us, rfl⟩ := h.gives.ne_nil
    exact nomatch hc
  | succ count ih =>
    obtain ⟨t, us, rfl⟩ := h.gives.ne_nil
    rw [statementsUpTo_succ]
    refine .bind (peekKind_facing h) fun kind r₁ ⟨hkind, h₁⟩ => ?_
    subst hkind
    rw [List.length_cons] at hc
    split
    next semicolon =>
      exact afterStatement_sound .absent (fun other => (other semicolon).elim) h₁
        fun h => ih h (by omega)
    next =>
      refine .bind (statement_sound w h₁) fun e r₂ taken => ?_
      obtain ⟨vs, x, xs, eq, hp, -, h₂⟩ := taken
      have shorter := length_le_of_split eq
      rw [eq]
      exact afterStatement_sound (.present hp) (fun _ => hp) h₂ fun h => ih h (by omega)

theorem statements_sound (w : Workspace) :
    Sound w statements (Statements w Machine.nesting) anything := by
  intro r ts h
  exact .bind (remaining_facing h) fun n r₁ ⟨hn, h₁⟩ => statementsUpTo_sound h₁ hn

end Sound

end Reading

end ArrayCalc
