import ArrayCalc.Proofs.CopiedLines
import ArrayCalc.Proofs.PassageSources

/-!
# Reading a passage

Whatever reads a line of a passage does the same in the whole text, and stops at the same place.
What differs are the numbers of lines in errors, and the bounds for the numbers of tokens that are
left, which are never reached in either text.
-/

namespace ArrayCalc

variable {p : Surroundings} {α β γ δ : Type}

/-- What stops a reader when `k` lines are put before the text. -/
def Obstacle.later (k : Nat) : Obstacle → Obstacle
  | .lex e => .lex (e.later k)
  | .parse e => .parse (e.later k)
  | .tooDeep count => .tooDeep count
  | .fault f => .fault f

/-- Where something stops the reader of a passage.  It is given up only in the middle of a line. -/
def Source.HaltedBy (p : Surroundings) (s : Source) : Obstacle → Prop
  | .tooDeep _ => s.Within p
  | _ => s.Halted p

theorem Source.HaltedBy.halted {s : Source} {o : Obstacle} (h : s.HaltedBy p o) : s.Halted p := by
  cases o with
  | tooDeep count => exact .inl h
  | _ => exact h

/-- The reader of the whole text, at the same place as that of the passage. -/
def Reader.amid (p : Surroundings) (r : Reader) : Reader := { r with source := r.source.amid p }

namespace Reading

/-- The outcome of a reader in the whole text. -/
def outcomeAmid (p : Surroundings) (f : α → β) :
    EStateM.Result Obstacle Reader α → EStateM.Result Obstacle Reader β
  | .ok a r => .ok (f a) (r.amid p)
  | .error o r => .error (o.later p.feeds) (r.amid p)

/-- `y` does in the whole text what `x` does in the passage, and `Q` holds then. -/
structure Follows (p : Surroundings) (f : α → β) (x : Reading α) (y : Reading β) (r : Reader)
    (Q : α → Reader → Prop) : Prop where
  same : y.run (r.amid p) = outcomeAmid p f (x.run r)
  outcome : Outcome x r (fun a r' => r.source.Moves r'.source ∧ Q a r')
    fun o r' => r.source.Moves r'.source ∧ r'.source.HaltedBy p o

namespace Follows

variable {f : α → β} {g : γ → δ} {x : Reading α} {y : Reading β} {r : Reader}
  {P : α → Reader → Prop} {Q : γ → Reader → Prop}

theorem mono {P' : α → Reader → Prop} (h : Follows p f x y r P') (hP : ∀ a r', P' a r' → P a r') :
    Follows p f x y r P :=
  ⟨h.same, h.outcome.mono (fun a r' k => ⟨k.1, hP a r' k.2⟩) fun _ _ k => k⟩

theorem pure {a : α} {b : β} (h : P a r) (same : b = f a) :
    Follows p f (Pure.pure a) (Pure.pure b) r P :=
  ⟨by rw [same]; rfl, .pure ⟨.refl _, h⟩⟩

theorem throw {o o' : Obstacle} (h : r.source.HaltedBy p o) (same : o' = o.later p.feeds) :
    Follows p f (MonadExcept.throw o) (MonadExcept.throw o') r P :=
  ⟨by rw [same]; rfl, .throw ⟨.refl _, h⟩⟩

theorem reject {cause : ParseError.Cause} {expected : List String} (t : Token)
    (h : r.source.Halted p) :
    Follows p f (reject t cause expected) (reject (t.later p.feeds) cause expected) r P := by
  refine .throw h ?_
  rw [t.later_line]
  rfl

theorem bind {F : α → Reading γ} {G : β → Reading δ} (hx : Follows p f x y r P)
    (hf : ∀ a r', r.source.Moves r'.source → P a r' → Follows p g (F a) (G (f a)) r' Q) :
    Follows p g (x >>= F) (y >>= G) r Q := by
  constructor
  · rw [EStateM.run_bind, EStateM.run_bind, hx.same]
    cases h : x.run r with
    | ok a r' =>
      obtain ⟨moves, k⟩ := hx.outcome.of_ok h
      exact (hf a r' moves k).same
    | error o r' => rfl
  · refine .bind hx.outcome fun a r' ⟨moves, k⟩ => ?_
    exact (hf a r' moves k).outcome.mono (fun c r'' l => ⟨moves.trans l.1, l.2⟩)
      fun o r'' l => ⟨moves.trans l.1, l.2⟩

theorem get {F : Reader → Reading γ} {G : Reader → Reading δ}
    (h : Follows p g (F r) (G (r.amid p)) r Q) :
    Follows p g (MonadState.get >>= F) (MonadState.get >>= G) r Q := ⟨h.same, h.outcome⟩

/-- To go on with another workspace. -/
theorem set {r' : Reader} {F : PUnit → Reading γ} {G : PUnit → Reading δ}
    (same : r'.source = r.source) (h : Follows p g (F ⟨⟩) (G ⟨⟩) r' Q) :
    Follows p g (MonadStateOf.set r' >>= F) (MonadStateOf.set (r'.amid p) >>= G) r Q := by
  refine ⟨h.same, ?_⟩
  rw [← same]
  exact h.outcome

theorem ite {c : Prop} [Decidable c] {x' : Reading α} {y' : Reading β}
    (hx : c → Follows p f x y r P) (hy : ¬c → Follows p f x' y' r P) :
    Follows p f (if c then x else x') (if c then y else y') r P := by
  by_cases h : c
  · rw [if_pos h, if_pos h]
    exact hx h
  · rw [if_neg h, if_neg h]
    exact hy h

/-- To leave a definition does not touch the source. -/
theorem leave (restore restore' : Workspace → Workspace)
    (h : Follows p f x y r fun _ r' => r'.source.Ended p) :
    Follows p f (closing x (leaving restore) (leaving restore'))
      (closing y (leaving restore) (leaving restore')) r fun _ r' => r'.source.Ended p := by
  refine ⟨?_, outcome_closing (h.outcome.mono (fun _ _ k => k) fun _ _ k => k)⟩
  rw [run_closing, run_closing, h.same]
  cases x.run r <;> rfl

end Follows

/-- A reader within a line of a passage. -/
def Stays (p : Surroundings) (x : Reading α) : Prop :=
  ∀ r, r.source.Within p → Follows p id x x r fun _ r' => r'.source.Within p

variable {r : Reader} {Q : Token → Reader → Prop} {t : Token}

/-! ## § Tokens -/

theorem onSource_follows {f : Vocabulary → Source → Except LexError Token × Source}
    (same : f r.workspace.vocabulary (r.source.amid p) =
      (laterResult p.feeds (f r.workspace.vocabulary r.source).1,
        (f r.workspace.vocabulary r.source).2.amid p))
    (ok : ∀ t s, f r.workspace.vocabulary r.source = (.ok t, s) →
      r.source.Moves s ∧ Q t { r with source := s })
    (error : ∀ e s, f r.workspace.vocabulary r.source = (.error e, s) →
      r.source.Moves s ∧ s.Halted p) :
    Follows p (Token.later p.feeds) (onSource f) (onSource f) r Q := by
  refine ⟨?_, outcome_onSource ok error⟩
  have source : (r.amid p).source = r.source.amid p := rfl
  have workspace : (r.amid p).workspace = r.workspace := rfl
  unfold onSource EStateM.run
  dsimp only
  rw [source, workspace, same]
  rcases f r.workspace.vocabulary r.source with ⟨_ | _, s⟩ <;> rfl

/-- The next token of a line; the last line has nothing but its end. -/
theorem peek_unspent (h : r.source.Unspent p) :
    Follows p (Token.later p.feeds) peek peek r fun t r' => r'.source.peeked = some t ∧
      r'.source.atLineEnd = r.source.atLineEnd ∧
      (r'.source.Within p ∨ r'.source.Last ∧ t.kind = .newline) :=
  onSource_follows (Source.amid_peek h.shut _)
    (fun _ _ hp => ⟨Source.moves_peek_ok hp, Source.peeked_of_peek hp, Source.peek_atLineEnd hp,
      h.peek_ok hp⟩)
    fun _ _ hp => ⟨Source.moves_peek_error hp, h.peek_error hp⟩

theorem peekKind_unspent (h : r.source.Unspent p) :
    Follows p id peekKind peekKind r fun kind r' => (∃ t, r'.source.peeked = some t ∧
      t.kind = kind) ∧ r'.source.atLineEnd = r.source.atLineEnd ∧
      (r'.source.Within p ∨ r'.source.Last ∧ kind = .newline) :=
  .bind (peek_unspent h) fun t _ _ ⟨peeked, ended, left⟩ =>
    .pure ⟨⟨t, peeked, rfl⟩, ended, left⟩ rfl

theorem peek_within (h : r.source.Within p) :
    Follows p (Token.later p.feeds) peek peek r fun t r' =>
      r'.source.peeked = some t ∧ r'.source.Within p :=
  onSource_follows (Source.amid_peek h.shut _)
    (fun _ _ hp => ⟨Source.moves_peek_ok hp, Source.peeked_of_peek hp, h.peek_ok hp⟩)
    fun _ _ hp => ⟨Source.moves_peek_error hp, Source.Unspent.peek_error (.inl h) hp⟩

theorem peekKind_within (h : r.source.Within p) :
    Follows p id peekKind peekKind r fun kind r' =>
      (∃ t, r'.source.peeked = some t ∧ t.kind = kind) ∧ r'.source.Within p :=
  .bind (peek_within h) fun t _ _ ⟨peeked, within⟩ => .pure ⟨⟨t, peeked, rfl⟩, within⟩ rfl

theorem take_within (h : r.source.Within p) :
    Follows p (Token.later p.feeds) take take r fun t r' =>
      (t.kind ≠ .endOfInput → r'.source.unread < r.source.unread) ∧
      (t.kind.isLineEnd = false → r'.source.Within p) ∧ r'.source.Ended p ∧
      (r'.source.Within p ∨ t.kind = .newline ∧ r'.source.Blank) :=
  onSource_follows (Source.amid_take h.shut _)
    (fun _ _ ht => ⟨Source.moves_take_ok ht, Source.take_lt ht, h.take_inner ht,
      ⟨h.take_halted ht, Source.peeked_of_take ht⟩, h.take_ok ht⟩)
    fun _ _ ht => by
      have hp := Source.take_error_eq ht
      exact ⟨Source.moves_peek_error hp, Source.Unspent.peek_error (.inl h) hp⟩

/-- A token that has been looked at is taken. -/
theorem discard_peeked (peeked : r.source.peeked = some t) :
    Follows p id discard discard r fun _ r' =>
      r' = { r with source :=
        { r.source with peeked := none, atLineEnd := t.kind.isLineEnd } } := by
  have shut : r.source.Shut p := fun fresh => nomatch fresh.symm.trans peeked
  have taken := Source.take_of_peeked peeked r.workspace.vocabulary
  refine .bind (P := fun _ r' => r' = { r with source :=
    { r.source with peeked := none, atLineEnd := t.kind.isLineEnd } })
    (onSource_follows (Source.amid_take shut _) (fun u s ht => ?_) fun e s ht => ?_)
    fun _ _ _ k => .pure k rfl
  · rw [taken] at ht
    obtain ⟨-, rfl⟩ := Prod.mk.inj ht
    exact ⟨Source.moves_taken peeked _, rfl⟩
  · rw [taken] at ht
    exact nomatch (Prod.mk.inj ht).1

/-- A token that does not end the line is taken. -/
theorem discard_inner (h : r.source.Within p) (peeked : r.source.peeked = some t)
    (inner : t.kind.isLineEnd = false) :
    Follows p id discard discard r fun _ r' =>
      r'.source.unread < r.source.unread ∧ r'.source.Within p ∧ r'.source.peeked = none := by
  refine (discard_peeked peeked).mono fun _ r' k => ?_
  subst k
  have kind : t.kind ≠ .endOfInput := by
    intro e
    rw [e] at inner
    exact nomatch inner
  refine ⟨Source.taken_lt peeked kind _, ?_⟩
  rcases h.taken peeked t.kind.isLineEnd with within | ⟨newline, -⟩
  · exact ⟨within, rfl⟩
  · rw [newline] at inner
    exact nomatch inner

/-- The end of a line is taken. -/
theorem discard_end (h : r.source.Within p) (peeked : r.source.peeked = some t)
    (ends : t.kind.isLineEnd = true) :
    Follows p id discard discard r fun _ r' => r'.source.Unspent p ∧ r'.source.Ended p := by
  refine (discard_peeked peeked).mono fun _ r' k => ?_
  subst k
  have unspent := (h.taken peeked t.kind.isLineEnd).imp_right And.right
  exact ⟨unspent, .inr ⟨.inl unspent, ends⟩, rfl⟩

/-- The end of the last line is taken. -/
theorem discard_last (h : r.source.Last) (peeked : r.source.peeked = some t)
    (ends : t.kind.isLineEnd = true) :
    Follows p id discard discard r fun _ r' => r'.source.Ended p := by
  refine (discard_peeked peeked).mono fun _ r' k => ?_
  subst k
  exact ⟨.inr ⟨.inr (h.taken _), ends⟩, rfl⟩

/-- The end of a line is taken, which may be the last one. -/
theorem discard_ended (h : r.source.Within p ∨ r.source.Last) (peeked : r.source.peeked = some t)
    (ends : t.kind.isLineEnd = true) :
    Follows p id discard discard r fun _ r' => r'.source.Ended p := by
  rcases h with within | last
  · exact (discard_end within peeked ends).mono fun _ r' k => k.2
  · exact discard_last last peeked ends

theorem expect_stays {kind : TokenKind} (what : String) (inner : kind.isLineEnd = false) :
    Stays p (expect kind what) := by
  intro r h
  refine .bind (take_within h) fun t r₁ _ ⟨_, within, ended, _⟩ => ?_
  refine .ite (fun _ => .reject t ended.halted) fun same => .pure (within ?_) rfl
  rw [Decidable.not_not.1 same, inner]

theorem endOfLine_within (h : r.source.Within p) :
    Follows p (Token.later p.feeds) endOfLine endOfLine r fun t r' =>
      (t.kind ≠ .endOfInput → r'.source.unread < r.source.unread) ∧ r'.source.Ended p ∧
      (r'.source.Within p ∨ t.kind = .newline ∧ r'.source.Blank) := by
  refine .bind (take_within h) fun t r₁ _ ⟨less, _, ended, left⟩ => ?_
  exact .ite (fun _ => .pure ⟨less, ended, left⟩ rfl) fun _ => .reject t ended.halted

/-- Both texts have more than enough tokens left. -/
theorem remaining_follows {f : γ → δ} {F : Nat → Reading γ} {G : Nat → Reading δ}
    {Q : γ → Reader → Prop}
    (h : ∀ n m, r.source.unread < n → r.source.unread < m → Follows p f (F n) (G m) r Q) :
    Follows p f (remaining >>= F) (remaining >>= G) r Q := by
  have more : r.source.unread < (r.source.amid p).remaining :=
    Nat.lt_of_le_of_lt (r.source.unread_le_amid p) (Source.unread_lt_remaining _)
  exact .get (h _ _ r.source.unread_lt_remaining more)

/-- Induction on what is left to read, for a loop with two bounds that it never reaches. -/
theorem bounded_induction {C : Nat → Nat → Reader → Prop}
    (step : ∀ n m r, (∀ r', r'.source.unread < r.source.unread → C n m r') → C (n + 1) (m + 1) r)
    {n m : Nat} {r : Reader} (hn : r.source.unread < n) (hm : r.source.unread < m) : C n m r := by
  induction n generalizing m r with
  | zero => exact nomatch hn
  | succ n ih =>
    cases m with
    | zero => exact nomatch hm
    | succ m => exact step n m r fun r' less => ih (by omega) (by omega)

theorem update_follows {f : Workspace → Except ParseError.Cause Workspace}
    (h : r.source.Halted p) :
    Follows p id (update f) (update f) r fun _ r' => r'.source = r.source := by
  refine .get ?_
  have same : (r.amid p).workspace = r.workspace := rfl
  rw [same]
  cases f r.workspace with
  | ok w =>
    have kept : r.source.Moves r.source ∧ r.source = r.source := ⟨.refl _, rfl⟩
    exact ⟨rfl, kept⟩
  | error cause => exact .throw h rfl

/-! ## § Operands -/

theorem numeral_follows (h : r.source.Within p) (t : Token) :
    Follows p id (numeral t) (numeral (t.later p.feeds)) r fun _ r' => r'.source.Within p := by
  refine .get ?_
  have same : (r.amid p).workspace = r.workspace := rfl
  rw [same, t.later_text]
  split
  · exact .pure h rfl
  · exact .reject t h.halted
  · exact .throw h.halted rfl

theorem quoted_follows (h : r.source.Within p) (t : Token) :
    Follows p id (quoted t) (quoted (t.later p.feeds)) r fun _ r' => r'.source.Within p := by
  unfold quoted
  rw [t.later_text]
  split
  · exact .pure h rfl
  · exact .pure h rfl
  next cause _ =>
    refine .throw h.halted ?_
    rw [t.later_line]
    rfl
  · exact .throw h.halted rfl

theorem nameUse_stays (name : String) : Stays p (nameUse name) := by
  intro r h
  refine .get ?_
  have same : (r.amid p).workspace = r.workspace := rfl
  rw [same]
  split
  · exact .pure h rfl
  · exact .set rfl (.pure h rfl)

variable {expr : Reading Expr} {exprs : Nat → Reading Expr}

/-- An operand takes something. -/
theorem item?_follows (he : Stays p expr) (h : r.source.Within p) :
    Follows p id (item? expr) (item? expr) r fun o r' =>
      (o.isSome → r'.source.unread < r.source.unread) ∧ r'.source.Within p := by
  refine .bind (peek_within h) fun t r₁ moves ⟨peeked, within⟩ => ?_
  have literal {x y : Reading Expr} (inner : t.kind.isLineEnd = false)
      (hx : ∀ r₂, r₂.source.Within p → Follows p id x y r₂ fun _ r' => r'.source.Within p) :
      Follows p id (do discard; return some (← x)) (do discard; return some (← y)) r₁ fun o r' =>
        (o.isSome → r'.source.unread < r.source.unread) ∧ r'.source.Within p := by
    refine .bind (discard_inner within peeked inner) fun _ r₂ _ ⟨less, within₂, _⟩ => ?_
    refine .bind (hx r₂ within₂) fun e r₃ moves₃ within₃ => .pure ⟨fun _ => ?_, within₃⟩ rfl
    exact Nat.lt_of_le_of_lt moves₃.le (Nat.lt_of_lt_of_le less moves.le)
  obtain ⟨kind, text, line⟩ := t
  cases kind
  case number | rational | complex => exact literal rfl fun r₂ h₂ => numeral_follows h₂ _
  case string => exact literal rfl fun r₂ h₂ => quoted_follows h₂ _
  case identifier => exact literal rfl fun r₂ h₂ => nameUse_stays text r₂ h₂
  case leftParen =>
    refine .bind (discard_inner within peeked rfl) fun _ r₂ _ ⟨less, within₂, _⟩ => ?_
    refine .bind (he r₂ within₂) fun e r₃ moves₃ within₃ => ?_
    refine .bind (expect_stays ")" rfl r₃ within₃) fun _ r₄ moves₄ within₄ =>
      .pure ⟨fun _ => ?_, within₄⟩ rfl
    exact Nat.lt_of_le_of_lt (moves₃.trans moves₄).le (Nat.lt_of_lt_of_le less moves.le)
  all_goals exact .pure ⟨nofun, within⟩ rfl

theorem items_follows (he : Stays p expr) {n m : Nat} (h : r.source.Within p)
    (hn : r.source.unread < n) (hm : r.source.unread < m) :
    Follows p id (items expr n) (items expr m) r fun _ r' => r'.source.Within p := by
  refine bounded_induction (C := fun n m r => r.source.Within p →
    Follows p id (items expr n) (items expr m) r fun _ r' => r'.source.Within p)
    (fun n m r ih h => ?_) hn hm h
  refine .bind (item?_follows he h) fun o r₁ _ ⟨less, within⟩ => ?_
  cases o with
  | none => exact .pure within rfl
  | some e => exact .bind (ih r₁ (less rfl) within) fun es r₂ _ within₂ => .pure within₂ rfl

/-- Behind a subscript there is a semicolon or the bracket. -/
theorem afterSubscript_follows {others others' : Reading (List Expr)} (e : Expr)
    (h : r.source.Within p)
    (ho : ∀ r', r'.source.unread < r.source.unread → r'.source.Within p →
      Follows p id others others' r' fun _ r'' => r''.source.Within p) :
    Follows p id (afterSubscript others e) (afterSubscript others' e) r
      fun _ r' => r'.source.Within p := by
  refine .bind (take_within h) fun t r₁ _ ⟨less, inner, ended, _⟩ => ?_
  obtain ⟨kind, text, line⟩ := t
  cases kind
  case rightBracket => exact .pure (inner rfl) rfl
  case semicolon =>
    exact .bind (ho r₁ (less nofun) (inner rfl)) fun es r₂ _ within => .pure within rfl
  all_goals exact .reject _ ended.halted

theorem subscripts_follows (he : Stays p expr) {n m : Nat} (h : r.source.Within p)
    (hn : r.source.unread < n) (hm : r.source.unread < m) :
    Follows p id (subscripts expr n) (subscripts expr m) r fun _ r' => r'.source.Within p := by
  refine bounded_induction (C := fun n m r => r.source.Within p →
    Follows p id (subscripts expr n) (subscripts expr m) r fun _ r' => r'.source.Within p)
    (fun n m r ih h => ?_) hn hm h
  rw [subscripts_succ, subscripts_succ]
  refine .bind (peekKind_within h) fun kind r₁ moves ⟨_, within⟩ => ?_
  have after (e : Expr) (r₂ : Reader) (moves₂ : r₁.source.Moves r₂.source)
      (within₂ : r₂.source.Within p) :=
    afterSubscript_follows e within₂ fun r₃ less within₃ =>
      ih r₃ (Nat.lt_of_lt_of_le less (moves.trans moves₂).le) within₃
  refine .ite (fun _ => after .empty r₁ (.refl _) within) fun _ => ?_
  exact .bind (he r₁ within) fun e r₂ moves₂ within₂ => after e r₂ moves₂ within₂

theorem indices_follows (he : Stays p expr) {n m : Nat} (base : Expr) (h : r.source.Within p)
    (hn : r.source.unread < n) (hm : r.source.unread < m) :
    Follows p id (indices expr n base) (indices expr m base) r fun _ r' => r'.source.Within p := by
  refine bounded_induction (C := fun n m r => ∀ base, r.source.Within p →
    Follows p id (indices expr n base) (indices expr m base) r fun _ r' => r'.source.Within p)
    (fun n m r ih base h => ?_) hn hm base h
  refine .bind (peekKind_within h) fun kind r₁ moves ⟨⟨t, peeked, hk⟩, within⟩ => ?_
  refine .ite (fun bracket => ?_) fun _ => .pure within rfl
  have inner : t.kind.isLineEnd = false := by rw [hk, bracket]; rfl
  refine .bind (discard_inner within peeked inner) fun _ r₂ _ ⟨less, within₂, _⟩ => ?_
  refine remaining_follows fun n' m' hn' hm' => ?_
  refine .bind (subscripts_follows he within₂ hn' hm') fun es r₃ moves₃ within₃ => ?_
  have shorter := Nat.lt_of_lt_of_le (Nat.lt_of_le_of_lt moves₃.le less) moves.le
  exact ih r₃ shorter (.index base es) within₃

theorem primary_stays (he : ∀ toll, Stays p (exprs toll)) : Stays p (primary exprs) := by
  intro r h
  refine remaining_follows fun n m hn hm => ?_
  refine .bind (items_follows (he 2) h hn hm) fun es r₁ _ within => ?_
  have indexed (base : Expr) : Follows p id (do indices (exprs 3) (← remaining) base)
      (do indices (exprs 3) (← remaining) base) r₁ fun _ r' => r'.source.Within p :=
    remaining_follows fun n m hn hm => indices_follows (he 3) base within hn hm
  rcases es with _ | ⟨e, _ | ⟨e', es⟩⟩
  · exact .bind (peek_within within) fun t r₂ _ ⟨_, within₂⟩ => .reject t within₂.halted
  · exact indexed e
  · exact indexed _

/-! ## § Heads of definitions -/

theorem headerWords_follows {n m : Nat} (h : r.source.Within p) (hn : r.source.unread < n)
    (hm : r.source.unread < m) :
    Follows p (List.map (Token.later p.feeds)) (headerWords n) (headerWords m) r
      fun _ r' => r'.source.Within p := by
  refine bounded_induction (C := fun n m r => r.source.Within p →
    Follows p (List.map (Token.later p.feeds)) (headerWords n) (headerWords m) r
      fun _ r' => r'.source.Within p)
    (fun n m r ih h => ?_) hn hm h
  refine .bind (peekKind_within h) fun kind r₁ moves ⟨_, within⟩ => ?_
  refine .ite (fun _ => .pure within rfl) fun _ => ?_
  refine .bind (take_within within) fun t r₂ _ ⟨less, inner, ended, _⟩ => ?_
  refine .ite (fun word => ?_) fun _ => .reject t ended.halted
  have kind : t.kind.isLineEnd = false ∧ t.kind ≠ .endOfInput := by
    rcases word.1 with hk | hk
    all_goals
      rw [hk]
      exact ⟨rfl, nofun⟩
  have shorter := Nat.lt_of_lt_of_le (less kind.2) moves.le
  exact .bind (ih r₂ shorter (inner kind.1)) fun ts r₃ _ within₃ => .pure within₃ rfl

theorem checked_follows (first : Token) (head : Header) (h : r.source.Within p) :
    Follows p id (checked first head) (checked (first.later p.feeds) head) r
      fun _ r' => r'.source.Within p := by
  unfold checked
  split
  · exact .reject first h.halted
  · exact .pure h rfl

/-- Only the first word and the number of words get into an error. -/
theorem headerOf_follows (words : List Token) (h : r.source.Within p) :
    Follows p id (headerOf words) (headerOf (words.map (Token.later p.feeds))) r
      fun _ r' => r'.source.Within p := by
  have miscounted (count count' : Nat) (same : count' = count) :
      Follows p id (do reject (← peek) (.nameCount count) [])
        (do reject (← peek) (.nameCount count') []) r
        fun (_ : Header) r' => r'.source.Within p := by
    subst same
    exact .bind (peek_within h) fun t r₁ _ ⟨_, within⟩ => .reject t within.halted
  rcases words with _ | ⟨a, _ | ⟨b, _ | ⟨c, _ | ⟨d, words⟩⟩⟩⟩
  · exact miscounted _ _ rfl
  · exact miscounted _ _ rfl
  · exact checked_follows a _ h
  · exact checked_follows a _ h
  · exact miscounted _ _ (@List.length_map _ _ (a :: b :: c :: d :: words) _)

theorem header_stays : Stays p header := by
  intro r h
  rw [header_eq]
  refine remaining_follows fun n m hn hm => ?_
  exact .bind (headerWords_follows h hn hm) fun words r₁ _ within => headerOf_follows words within

/-! ## § Expressions -/

/-- An operator that has been looked at is taken. -/
theorem discard_operator (h : r.source.Within p) (peeked : r.source.peeked = some t)
    (operator : t.kind = .operator) :
    Follows p id discard discard r fun _ r' =>
      r'.source.unread < r.source.unread ∧ r'.source.Within p ∧ r'.source.peeked = none :=
  discard_inner h peeked (by rw [operator]; rfl)

theorem operand_stays (he : ∀ toll, Stays p (exprs toll)) : Stays p (operand exprs) := by
  intro r h
  refine .bind (peek_within h) fun t r₁ _ ⟨peeked, within⟩ => ?_
  refine .ite (fun operator => ?_) fun _ => primary_stays he r₁ within
  refine .bind (discard_operator within peeked operator) fun _ r₂ _ ⟨_, within₂, _⟩ => .get ?_
  refine .ite (fun _ => ?_) fun _ => .reject t within₂.halted
  exact .bind (he 1 r₂ within₂) fun e r₃ _ within₃ => .pure within₃ rfl

theorem assignmentTarget_stays (target : Expr) : Stays p (assignmentTarget target) := by
  intro r h
  refine .get ?_
  have free : (r.amid p).free = r.free := rfl
  have workspace : (r.amid p).workspace = r.workspace := rfl
  rw [free, workspace]
  split
  next seen name _ =>
    refine .ite (fun _ => .pure h rfl) fun _ => ?_
    exact .set rfl (.pure h rfl)
  · exact .pure h rfl

theorem takeTokens_stays (count : Nat) : Stays p (takeTokens count) := by
  induction count with
  | zero => exact fun r h => .pure h rfl
  | succ count ih =>
    intro r h
    refine .bind (peekKind_within h) fun kind r₁ _ ⟨⟨t, peeked, hk⟩, within⟩ => ?_
    refine .ite (fun _ => .pure within rfl) fun inner => ?_
    have inner : t.kind.isLineEnd = false := by rw [hk, Bool.eq_false_iff]; exact inner
    exact .bind (discard_inner within peeked inner) fun _ r₂ _ ⟨_, within₂, _⟩ => ih r₂ within₂

/-- The line ahead of a passage is that of the whole text, so the reader is given up at the same
place. -/
theorem giveUp_stays [Machine] (missing : Nat) : Stays p (giveUp missing) := by
  intro r h
  refine .get ?_
  have ahead : (r.amid p).source.lineAhead = r.source.lineAhead := h.lineAhead
  have ended : (r.amid p).source.atLineEnd = r.source.atLineEnd := rfl
  dsimp only
  rw [ahead, ended]
  exact .bind (takeTokens_stays _ r h) fun _ r₁ _ within => .throw within rfl

theorem afterOperand_stays (he : Stays p expr) (left : Expr) :
    Stays p (afterOperand expr left) := by
  intro r h
  refine .bind (peek_within h) fun t r₁ _ ⟨peeked, within⟩ => ?_
  refine .ite (fun sign => ?_) fun _ => ?_
  · have inner : t.kind.isLineEnd = false := by rw [sign]; rfl
    refine .bind (discard_inner within peeked inner) fun _ r₂ _ ⟨_, within₂, _⟩ => ?_
    refine .ite (fun _ => ?_) fun _ => .reject t within₂.halted
    refine .bind (assignmentTarget_stays left r₂ within₂) fun target r₃ _ within₃ => ?_
    exact .bind (he r₃ within₃) fun value r₄ _ within₄ => .pure within₄ rfl
  · refine .ite (fun operator => ?_) fun _ => ?_
    · have discarded := discard_operator within peeked operator
      refine .bind discarded fun _ r₂ _ ⟨_, within₂, _⟩ => .get ?_
      refine .ite (fun _ => ?_) fun _ => .reject t within₂.halted
      exact .bind (he r₂ within₂) fun right r₃ _ within₃ => .pure within₃ rfl
    · exact .ite (fun _ => .pure within rfl) fun _ => .reject t within.halted

theorem afterStatement_follows {others others' : Reading (List Expr)} (e : Expr)
    (h : r.source.Within p)
    (ho : ∀ r', r'.source.unread < r.source.unread → r'.source.Within p →
      Follows p id others others' r' fun _ r'' => r''.source.Within p) :
    Follows p id (afterStatement others e) (afterStatement others' e) r
      fun _ r' => r'.source.Within p := by
  refine .bind (peekKind_within h) fun kind r₁ moves ⟨⟨t, peeked, hk⟩, within⟩ => ?_
  refine .ite (fun _ => .pure within rfl) fun semicolon => ?_
  have inner : t.kind.isLineEnd = false := by rw [hk, Decidable.not_not.1 semicolon]; rfl
  refine .bind (discard_inner within peeked inner) fun _ r₂ _ ⟨less, within₂, _⟩ => ?_
  refine .bind (peekKind_within within₂) fun kind r₃ moves₃ ⟨_, within₃⟩ => ?_
  refine .ite (fun _ => .pure within₃ rfl) fun _ => ?_
  have less₃ : r₃.source.unread < r.source.unread :=
    Nat.lt_of_le_of_lt moves₃.le (Nat.lt_of_lt_of_le less moves.le)
  exact .bind (ho r₃ less₃ within₃) fun es r₄ _ within₄ => .pure within₄ rfl

variable [Machine]

theorem expression_stays (depth toll : Nat) : Stays p (expression depth toll) := by
  induction depth generalizing toll with
  | zero => exact giveUp_stays toll
  | succ depth ih =>
    cases toll with
    | succ toll => exact ih toll
    | zero =>
      intro r h
      rw [expression_succ]
      exact .bind (operand_stays ih r h) fun left r₁ _ within =>
        afterOperand_stays (ih 0) left r₁ within

theorem outermost_stays : Stays p outermost := fun r h =>
  .get (expression_stays Machine.nesting (outermostToll r) r h)

/-! ## § Statements -/

theorem statement_stays : Stays p statement := by
  intro r h
  refine .bind (outermost_stays r h) fun e r₁ _ within => ?_
  refine .bind (peekKind_within within) fun kind r₂ _ ⟨⟨t, peeked, hk⟩, within₂⟩ => ?_
  refine .ite (fun colon => ?_) fun _ => .pure within₂ rfl
  have inner : t.kind.isLineEnd = false := by rw [hk, colon]; rfl
  refine .bind (discard_inner within₂ peeked inner) fun _ r₃ _ ⟨_, within₃, _⟩ => ?_
  exact .bind (outermost_stays r₃ within₃) fun result r₄ _ within₄ => .pure within₄ rfl

theorem statementsUpTo_follows {n m : Nat} (h : r.source.Within p) (hn : r.source.unread < n)
    (hm : r.source.unread < m) :
    Follows p id (statementsUpTo n) (statementsUpTo m) r fun _ r' => r'.source.Within p := by
  refine bounded_induction (C := fun n m r => r.source.Within p →
    Follows p id (statementsUpTo n) (statementsUpTo m) r fun _ r' => r'.source.Within p)
    (fun n m r ih h => ?_) hn hm h
  rw [statementsUpTo_succ, statementsUpTo_succ]
  refine .bind (peekKind_within h) fun kind r₁ moves ⟨_, within⟩ => ?_
  have after (e : Expr) (r₂ : Reader) (moves₂ : r₁.source.Moves r₂.source)
      (within₂ : r₂.source.Within p) :=
    afterStatement_follows e within₂ fun r₃ less within₃ =>
      ih r₃ (Nat.lt_of_lt_of_le less (moves.trans moves₂).le) within₃
  refine .ite (fun _ => after .empty r₁ (.refl _) within) fun _ => ?_
  exact .bind (statement_stays r₁ within) fun e r₂ moves₂ within₂ => after e r₂ moves₂ within₂

theorem statements_stays : Stays p statements := fun _ h =>
  remaining_follows fun _ _ hn hm => statementsUpTo_follows h hn hm

/-! ## § Definitions -/

/-- The lines of a body end with a blank line, at the latest with the last line of the passage. -/
theorem bodyLines_follows {n m : Nat} (h : r.source.Unspent p) (hn : r.source.unread < n)
    (hm : r.source.unread < m) :
    Follows p id (bodyLines n) (bodyLines m) r fun _ r' => r'.source.Ended p := by
  refine bounded_induction (C := fun n m r => r.source.Unspent p →
    Follows p id (bodyLines n) (bodyLines m) r fun _ r' => r'.source.Ended p)
    (fun n m r ih h => ?_) hn hm h
  refine .bind (peekKind_unspent h) fun kind r₁ moves ⟨⟨t, peeked, hk⟩, _, left⟩ => ?_
  refine .ite (fun ends => ?_) fun inner => ?_
  · have taken := discard_ended (left.imp_right And.left) peeked (hk ▸ ends)
    exact .bind taken fun _ r₂ _ ended => .pure ended rfl
  · -- The last line has nothing but its end.
    have within : r₁.source.Within p := by
      refine left.resolve_right fun last => inner ?_
      rw [last.2]
      rfl
    refine .bind (statements_stays r₁ within) fun first r₂ moves₂ within₂ => ?_
    refine .bind (endOfLine_within within₂) fun u r₃ moves₃ ⟨less, ended, left⟩ => ?_
    refine .ite (fun _ => .pure ended rfl) fun kind => ?_
    have unspent : r₃.source.Unspent p := left.imp_right And.right
    have shorter := Nat.lt_of_lt_of_le (less kind) (moves.trans moves₂).le
    exact .bind (ih r₃ shorter unspent) fun others r₄ _ ended => .pure ended rfl

theorem body_follows (h : r.source.Within p) :
    Follows p id body body r fun _ r' => r'.source.Ended p := by
  refine .bind (peekKind_within h) fun kind r₁ _ ⟨⟨t, peeked, hk⟩, within⟩ => ?_
  refine .ite (fun ends => ?_) fun _ => ?_
  · refine .bind (discard_end within peeked (hk ▸ ends)) fun _ r₂ _ ⟨unspent, _⟩ => ?_
    refine remaining_follows fun n m hn hm => ?_
    refine .bind (bodyLines_follows unspent hn hm) fun es r₃ _ ended => ?_
    refine .ite (fun _ => .get (.throw ended.halted ?_)) fun _ => .pure ended rfl
    -- The error is at the line that the source has come to.
    have line := laterLine_begun p.feeds r₃.source.scanner.feeds
    exact congrArg (fun line => Obstacle.parse ⟨.emptyBody, line, [], none⟩) line.symm
  · refine .bind (statements_stays r₁ within) fun es r₂ _ within₂ => ?_
    exact .bind (endOfLine_within within₂) fun u r₃ _ ⟨_, ended, _⟩ => .pure ended rfl

/-- A definition from the placeholder on. -/
theorem definitionBody_follows (head : Header) (h : r.source.Within p) :
    Follows p id (definitionBody head) (definitionBody head) r
      fun _ r' => r'.source.Ended p := by
  refine .bind (update_follows h.halted) fun _ r₁ _ same => ?_
  have within : r₁.source.Within p := same ▸ h
  refine .bind (expect_stays "=" rfl r₁ within) fun _ r₂ _ within₂ => ?_
  refine .bind (body_follows within₂) fun es r₃ _ ended => .get ?_
  refine .bind (update_follows ended.halted) fun _ r₄ _ same => .pure ?_ rfl
  exact same ▸ ended

theorem definition_follows (h : r.source.Within p) :
    Follows p id definition definition r fun _ r' => r'.source.Ended p := by
  rw [definition_eq]
  refine .bind (header_stays r h) fun head r₁ _ within => .get ?_
  refine .bind (update_follows within.halted) fun _ r₂ _ same => ?_
  have within₂ : r₂.source.Within p := same ▸ within
  have body := definitionBody_follows head (r := { r₂ with free := some [] }) within₂
  have left := body.leave id
    (·.abandonDefinition head.name head.arity (r₁.workspace.userOperator? head.arity head.name))
  exact ⟨left.same, left.outcome⟩

end Reading

end ArrayCalc
