import ArrayCalc.Proofs.PassageReading

/-!
# The lines of a passage

A line of a passage is the same line in the whole text, whether it can be read or not, and both
sources stand at the same place behind it.  Every line takes something from the passage, so its
lines come to an end.
-/

namespace ArrayCalc

variable {p : Surroundings}

/-- An error when `k` lines are put before the text that it is about. -/
def Error.later (k : Nat) : Error → Error
  | .lex e => .lex (e.later k)
  | .parse e => .parse (e.later k)
  | e => e

def Failure.later (k : Nat) : Failure → Failure
  | .error e => .error (e.later k)
  | .fault f => .fault f

namespace Source

variable {s : Source}

theorem amid_takeRawLine (h : s.Within p) :
    (s.amid p).takeRawLine = (s.takeRawLine.1, s.takeRawLine.2.amid p) := by
  have scanner : (s.amid p).scanner = s.scanner.amid p := rfl
  unfold takeRawLine
  rw [scanner, Scanner.amid_restOfLine h.scanner_shut]
  rfl

theorem Within.takeRawLine (h : s.Within p) (taken : s.peeked = none) :
    s.takeRawLine.2.Unspent p := by
  rcases h with behind | ⟨sealed, -⟩ | ⟨-, t, peeked, -⟩
  · exact .inl (.inl behind)
  · exact unspent_of_rest sealed.restOfLine rfl
  · exact nomatch taken.symm.trans peeked

theorem moves_takeRawLine (taken : s.peeked = none) : s.Moves s.takeRawLine.2 := by
  refine ⟨s.scanner.total_restOfLine, .inr ⟨?_, fun t peeked => nomatch taken.symm.trans peeked⟩⟩
  unfold unread
  rw [taken]
  exact s.scanner.length_restOfLine_le

end Source

namespace Line

open Reading (Follows)

variable {r : Reader} {s : Source}

theorem readingWords_follows (h : r.source.Within p) (taken : r.source.peeked = none) :
    Follows p id readingWords readingWords r
      fun line r' => r'.source.Ended p ∧ line ≠ .endOfInput := by
  have ended : r.source.takeRawLine.2.Ended p :=
    ⟨.inr ⟨.inl (h.takeRawLine taken), rfl⟩, rfl⟩
  have kept : r.source.Moves r.source.takeRawLine.2 ∧ r.source.takeRawLine.2.Ended p ∧
      Line.command ((Text.words r.source.takeRawLine.1).map String.ofList) ≠ .endOfInput :=
    ⟨Source.moves_takeRawLine taken, ended, nofun⟩
  refine ⟨?_, kept⟩
  have source : (r.amid p).source = r.source.amid p := rfl
  show EStateM.Result.ok (Line.command ((Text.words (r.amid p).source.takeRawLine.1).map
    String.ofList)) { r.amid p with source := (r.amid p).source.takeRawLine.2 } = _
  rw [source, Source.amid_takeRawLine h]
  rfl

theorem readingStatements_follows [Machine] (h : r.source.Within p) :
    Follows p id readingStatements readingStatements r
      fun line r' => r'.source.Ended p ∧ line ≠ .endOfInput := by
  refine .bind (Reading.statements_stays r h) fun es r₁ _ within => ?_
  exact .bind (Reading.endOfLine_within within) fun u r₂ _ ⟨_, ended, _⟩ => .pure ⟨ended, nofun⟩ rfl

/-- A line that has been looked at is read in the whole text as it is in the passage. -/
theorem readingOf_follows [Machine] {t : Token} (peeked : r.source.peeked = some t)
    (h : r.source.Within p ∨ r.source.Last ∧ t.kind = .newline) :
    Follows p id (readingOf t.kind) (readingOf t.kind) r fun line r' =>
      r'.source.Ended p ∧ (line = .endOfInput → t.kind = .endOfInput) := by
  have taken (ends : t.kind.isLineEnd = true) :=
    Reading.discard_ended (h.imp_right And.left) peeked ends
  have within (inner : t.kind ≠ .newline) : r.source.Within p :=
    h.resolve_right fun last => inner last.2
  obtain ⟨kind, text, line⟩ := t
  cases kind
  case endOfInput =>
    exact .bind (taken rfl) fun _ r₁ _ ended => .pure ⟨ended, fun _ => rfl⟩ rfl
  case newline => exact .bind (taken rfl) fun _ r₁ _ ended => .pure ⟨ended, nofun⟩ rfl
  case rightParen =>
    have discarded := Reading.discard_inner (within nofun) peeked rfl
    refine .bind discarded fun _ r₁ _ ⟨_, within₁, fresh⟩ => ?_
    exact (readingWords_follows within₁ fresh).mono fun _ _ k => ⟨k.1, fun e => absurd e k.2⟩
  case opKeyword =>
    have discarded := Reading.discard_inner (within nofun) peeked rfl
    refine .bind discarded fun _ r₁ _ ⟨_, within₁, _⟩ => ?_
    exact .bind (Reading.definition_follows within₁) fun f r₂ _ ended => .pure ⟨ended, nofun⟩ rfl
  all_goals
    exact (readingStatements_follows (within nofun)).mono fun _ _ k => ⟨k.1, fun e => absurd e k.2⟩

/-! ## § Obstacles -/

variable {v : Vocabulary} {s' : Source} {t : Token}

/-- What has been looked at is dropped. -/
theorem dropped_between (h : s.Halted p) : ({ s with peeked := none } : Source).Between p := by
  rcases h.between with (within | blank) | spent
  · rcases hp : s.peeked with _ | t
    · exact .inl (.inl (by rwa [← hp]))
    · exact .inl ((within.taken hp s.atLineEnd).imp_right And.right)
  · exact .inl (.inr ⟨blank.rest, rfl⟩)
  · exact .inr ⟨spent.rest, spent.previous, rfl⟩

/-- A reader that is stopped goes on at the same place, unless it has lost the end of its line. -/
theorem recover_amid (o : Obstacle) (h : s.HaltedBy p o) (v : Vocabulary) :
    (recover (o.later p.feeds) v (s.amid p)).1 = (recover o v s).1.later p.feeds ∧
      s.GoesOn p (recover o v s).2 (recover (o.later p.feeds) v (s.amid p)).2 ∧
      ((recover o v s).2.scanner.total < s.scanner.total →
        ∃ line, (recover o v s).1 = .error (.parse ⟨.tooDeep, line, [], none⟩)) := by
  cases o with
  | lex e => exact ⟨rfl, .heard (dropped_between h) rfl, fun less => absurd less (Nat.lt_irrefl _)⟩
  | parse e =>
    obtain ⟨skipped, between, moves⟩ := Source.amid_skipLine v h
    refine ⟨rfl, ?_, fun less => absurd (Nat.lt_of_lt_of_eq less moves.total.symm) (Nat.lt_irrefl _)⟩
    show s.GoesOn p (s.skipLine v) ((s.amid p).skipLine v)
    rw [skipped]
    exact .heard between moves.total
  | tooDeep count =>
    have line := laterLine_begun p.feeds s.scanner.feeds
    refine ⟨?_, (Source.amid_skipTorn h v count).1, fun _ => ⟨_, rfl⟩⟩
    exact congrArg (fun line => Failure.error (.parse ⟨.tooDeep, line, [], none⟩)) line.symm
  | fault f => exact ⟨rfl, .heard h.halted.between rfl, fun less => absurd less (Nat.lt_irrefl _)⟩

/-- The line that cannot be read is lost. -/
theorem recover_lt (h : s.Moves s') (peeked : s.peeked = some t) (kind : t.kind ≠ .endOfInput)
    (begun : s.atLineEnd = false) (o : Obstacle) (hf : ∀ f, o ≠ .fault f) :
    (recover o v s').2.unread < s.unread := by
  have skipped := h.skipLine_lt (v := v) peeked kind begun
  cases o with
  | lex e =>
    rcases h.shrinks with less | ⟨-, same⟩
    · exact Nat.lt_of_le_of_lt (Nat.le_add_right _ _) less
    · obtain rfl := same t peeked kind
      exact Source.taken_lt peeked kind s'.atLineEnd
  | parse e => exact skipped
  | tooDeep count =>
    rcases h.shrinks with less | ⟨-, same⟩
    · have dropped := (Source.amid_skipTorn (p := ⟨0, []⟩) (s := s') (.inl rfl) v count).2
      exact Nat.lt_of_le_of_lt dropped less
    · obtain rfl := same t peeked kind
      show (s'.skipTorn v count).unread < _
      rw [Source.skipTorn_of_peeked peeked]
      exact skipped
  | fault f => exact absurd rfl (hf f)

/-! ## § Reading a line -/

/-- A line whose first token cannot be scanned is lost with it. -/
theorem peekKind_lost : Outcome Reading.peekKind r (fun _ _ => True) fun o r' =>
    ∃ e, o = .lex e ∧ r'.source.unread < r.source.unread := by
  refine .bind (P := fun _ _ => True) (Reading.outcome_onSource (fun _ _ _ => trivial) ?_)
    fun _ _ _ => .pure trivial
  intro e s' hp
  exact ⟨e, rfl, (Source.peek_error_lt hp).2⟩

/-- Reading a line takes something, unless it fails or nothing is left. -/
theorem reading_shrinks [Machine] (h : r.source.Unspent p) (begun : r.source.atLineEnd = false) :
    Outcome reading r
      (fun line r' => (line ≠ .endOfInput → r'.source.unread < r.source.unread) ∧
        (line = .endOfInput → p.behind = []))
      fun o r' => (∀ f, o ≠ .fault f) →
        ∀ v, (recover o v r'.source).2.unread < r.source.unread := by
  have looked := (Reading.peekKind_unspent h).outcome.and peekKind_lost
    (P := fun kind r' => r.source.Moves r'.source ∧ (∃ t, r'.source.peeked = some t ∧
      t.kind = kind) ∧ r'.source.atLineEnd = r.source.atLineEnd ∧
      (r'.source.Within p ∨ r'.source.Last ∧ kind = .newline))
    (E := fun o r' => (∀ f, o ≠ .fault f) →
      ∀ v, (recover o v r'.source).2.unread < r.source.unread)
    (fun _ _ k _ => k) (fun o r' _ ⟨e, he, less⟩ _ v => ?_)
  · rw [reading_eq]
    refine .bind looked fun kind r₁ ⟨moves, ⟨t, peeked, hk⟩, same, left⟩ => ?_
    subst hk
    have read := (readingOf_follows peeked left).outcome
    by_cases kind : t.kind = .endOfInput
    · have within : r₁.source.Within p := by
        refine left.resolve_right fun last => ?_
        rw [kind] at last
        exact nomatch last.2
      have behind := (within.kind peeked).resolve_right fun other => other kind
      -- Only this line takes nothing, and it is the end of the input.
      rw [kind]
      have finished : (readingOf .endOfInput).run r₁ = .ok .endOfInput (Reading.taken r₁ t) :=
        Reading.run_bind (Reading.discard_run peeked)
      unfold Outcome
      rw [finished]
      exact ⟨fun other => absurd rfl other, fun _ => behind⟩
    · refine read.mono (fun line r₂ ⟨moves₂, ended, finished⟩ => ⟨fun _ => ?_, fun e => ?_⟩)
        fun o r₂ ⟨moves₂, _⟩ hf v => ?_
      · rcases moves₂.shrinks with less | ⟨-, stays⟩
        · exact Nat.lt_of_lt_of_le less moves.le
        · have unmoved := stays t peeked kind
          exact nomatch (unmoved ▸ ended.taken).symm.trans peeked
      · exact absurd (finished e) kind
      · exact Nat.lt_of_lt_of_le (recover_lt moves₂ peeked kind (same.trans begun) o hf) moves.le
  · subst he
    exact Nat.lt_of_le_of_lt (Nat.le_add_right _ _) less

/-- What a line that has been read or lost leaves of a passage. -/
structure Progress (p : Surroundings) (s s' : Source) (line : Result Line) : Prop where
  shrinks : line ≠ .ok .endOfInput → (∀ f, line ≠ .error (.fault f)) → s'.unread < s.unread
  finished : line = .ok .endOfInput → p.behind = []
  /-- The end of a line is lost only where the reader is given up. -/
  told : s'.scanner.total < s.scanner.total →
    ∃ number, line = .error (.error (.parse ⟨.tooDeep, number, [], none⟩))

/-- **The lines of a passage are the same in the whole text**, apart from the numbers of lines in
errors. -/
theorem read_amid [Machine] (h : s.Unspent p) (w : Workspace) :
    (read (s.amid p) w).1 = (read s w).1.mapError (Failure.later p.feeds) ∧
      (read (s.amid p) w).2.2 = (read s w).2.2 ∧
      s.GoesOn p (read s w).2.1 (read (s.amid p) w).2.1 ∧
      Progress p s (read s w).2.1 (read s w).1 := by
  have start : ({ s with atLineEnd := false } : Source).Unspent p := h.atLineEnd
  have shrinks := reading_shrinks (r := ⟨{ s with atLineEnd := false }, w, none⟩) start rfl
  have follows : Follows p id reading reading ⟨{ s with atLineEnd := false }, w, none⟩
      fun _ r' => r'.source.Ended p := by
    rw [reading_eq]
    refine .bind (Reading.peekKind_unspent start) fun kind r₁ _ ⟨⟨t, peeked, hk⟩, _, left⟩ => ?_
    subst hk
    exact (readingOf_follows peeked left).mono fun _ _ k => k.1
  have whole : reading.run ⟨{ s.amid p with atLineEnd := false }, w, none⟩ = _ := follows.same
  unfold read
  rw [whole]
  cases hr : reading.run ⟨{ s with atLineEnd := false }, w, none⟩ with
  | ok line r' =>
    obtain ⟨moves, ended⟩ := follows.outcome.of_ok hr
    obtain ⟨less, behind⟩ := shrinks.of_ok hr
    have goes : s.GoesOn p r'.source (r'.source.amid p) := .heard ended.halted.between moves.total
    refine ⟨rfl, rfl, goes, fun other _ => less fun e => ?_, fun e => ?_, fun lost => ?_⟩
    · exact other (congrArg Except.ok e)
    · exact behind (Except.ok.inj e)
    · exact absurd (Nat.lt_of_lt_of_eq lost moves.total.symm) (Nat.lt_irrefl _)
  | error o r' =>
    obtain ⟨moves, halted⟩ := follows.outcome.of_error hr
    have less := shrinks.of_error hr
    obtain ⟨same, goes, told⟩ := recover_amid o halted r'.workspace.vocabulary
    refine ⟨congrArg Except.error same, rfl, goes.of_total moves.total, ?_, nofun, fun lost => ?_⟩
    · intro _ other
      refine less (fun f e => ?_) _
      subst e
      exact other f rfl
    · obtain ⟨number, hn⟩ := told (Nat.lt_of_lt_of_eq lost moves.total.symm)
      exact ⟨number, congrArg Except.error hn⟩

end Line

end ArrayCalc
