import ArrayCalc.Proofs.Passages

/-!
# Sources of passages

Where reading a line ends, the source of a passage that ends with a blank line is still inside of
the passage, or before its last line, or at its end.  As long as it reads a line it never looks
beyond the end, so the source of the whole text does the same.
-/

namespace ArrayCalc.Source

variable {p : Surroundings} {v : Vocabulary} {s s' s'' : Source} {t : Token} {e : LexError}

/-- The source of the whole text, at the same place as that of the passage. -/
def amid (p : Surroundings) (s : Source) : Source :=
  ⟨s.scanner.amid p, s.peeked.map (Token.later p.feeds), s.atLineEnd⟩

/-- Whatever is scanned next is the same in the whole text. -/
def Shut (p : Surroundings) (s : Source) : Prop := s.peeked = none → s.scanner.Shut p

theorem amid_peek (h : s.Shut p) (v : Vocabulary) :
    (s.amid p).peek v = (laterResult p.feeds (s.peek v).1, (s.peek v).2.amid p) := by
  obtain ⟨scanner, peeked, ended⟩ := s
  cases peeked with
  | some t => rfl
  | none =>
    have next := Scanner.amid_next (h rfl) v
    dsimp only at next
    unfold peek amid
    dsimp only [Option.map_none]
    rw [next]
    rcases scanner.next v with ⟨_ | _, scanner⟩ <;> rfl

theorem amid_take (h : s.Shut p) (v : Vocabulary) :
    (s.amid p).take v = (laterResult p.feeds (s.take v).1, (s.take v).2.amid p) := by
  unfold take
  rw [amid_peek h]
  rcases s.peek v with ⟨_ | _, s'⟩ <;> rfl

/-! ## § Where a source stands -/

/-- There is a line feed to come before the last line, or it has been looked at. -/
def Inside (s : Source) : Prop :=
  Scanner.Sealed s.scanner.rest ∧ (∀ t, s.peeked = some t → t.kind ≠ .endOfInput) ∨
    s.scanner.rest = ['\n'] ∧ ∃ t, s.peeked = some t ∧ t.kind = .newline

/-- Only the last line is left, which is blank. -/
structure Blank (s : Source) : Prop where
  rest : s.scanner.rest = ['\n']
  peeked : s.peeked = none

/-- The end of the last line has been looked at. -/
structure Last (s : Source) : Prop where
  rest : s.scanner.rest = []
  previous : s.scanner.previous = none
  peeked : ∃ t, s.peeked = some t ∧ t.kind = .newline

/-- Nothing is left. -/
structure Spent (s : Source) : Prop where
  rest : s.scanner.rest = []
  previous : s.scanner.previous = none
  peeked : s.peeked = none

/-- A source in the middle of a line. -/
def Within (p : Surroundings) (s : Source) : Prop := p.behind = [] ∨ s.Inside

/-- A source that has a line to read. -/
def Unspent (p : Surroundings) (s : Source) : Prop := s.Within p ∨ s.Blank

/-- A source between two lines. -/
def Between (p : Surroundings) (s : Source) : Prop := s.Unspent p ∨ s.Spent

/-- A source that something may stop. -/
def Halted (p : Surroundings) (s : Source) : Prop :=
  s.Within p ∨ s.Between p ∧ s.atLineEnd = true

/-- A source that has taken the end of a line. -/
structure Ended (p : Surroundings) (s : Source) : Prop where
  halted : s.Halted p
  taken : s.peeked = none

theorem Within.halted (h : s.Within p) : s.Halted p := .inl h

theorem Halted.between (h : s.Halted p) : s.Between p := by
  rcases h with within | ⟨between, -⟩
  · exact .inl (.inl within)
  · exact between

theorem Unspent.shut (h : s.Unspent p) : s.Shut p := by
  intro fresh
  rcases h with (behind | ⟨sealed, -⟩ | ⟨-, t, peeked, -⟩) | blank
  · exact .inl behind
  · exact sealed.shut p
  · exact nomatch fresh.symm.trans peeked
  · refine .inr ?_
    rw [blank.rest]
    exact ⟨by decide, by decide⟩

theorem Within.shut (h : s.Within p) : s.Shut p := Unspent.shut (.inl h)

theorem Within.scanner_shut (h : s.Within p) : s.scanner.Shut p := by
  rcases h with behind | ⟨sealed, -⟩ | ⟨last, -⟩
  · exact .inl behind
  · exact sealed.shut p
  · refine .inr ?_
    rw [last]
    exact ⟨by decide, by decide⟩

/-- The line that scanning has come to is in the passage. -/
theorem Within.lineAhead (h : s.Within p) : (s.amid p).lineAhead = s.lineAhead := by
  have whole : (s.amid p).scanner.rest = s.scanner.rest ++ p.behind := rfl
  unfold Source.lineAhead
  rw [whole, h.scanner_shut.lineLength,
    List.take_append_of_le_length (Lexeme.lineLength_le s.scanner.rest)]

/-- A source that has nothing of its next line. -/
theorem unspent_of_rest (h : Scanner.Sealed s.scanner.rest ∨ s.scanner.rest = ['\n'])
    (peeked : s.peeked = none) : s.Unspent p := by
  rcases h with sealed | last
  · refine .inl (.inr (.inl ⟨sealed, ?_⟩))
    intro t ht
    exact nomatch peeked.symm.trans ht
  · exact .inr ⟨last, peeked⟩

theorem Unspent.atLineEnd {ended : Bool} (h : s.Unspent p) :
    ({ s with atLineEnd := ended } : Source).Unspent p :=
  h.imp_right fun blank => ⟨blank.rest, blank.peeked⟩

/-! ## § Tokens -/

theorem Within.peek_ok (h : s.Within p) (hp : s.peek v = (.ok t, s')) : s'.Within p := by
  refine h.imp_right fun inside => ?_
  rcases peek_cases hp with ⟨-, rfl⟩ | ⟨fresh, scanner, hn, rfl⟩
  · exact inside
  · rcases inside with ⟨sealed, -⟩ | ⟨-, u, peeked, -⟩
    · obtain ⟨kind, left | ⟨newline, last⟩⟩ := sealed.next_ok hn
      · refine .inl ⟨left, ?_⟩
        rintro _ ⟨⟩
        exact kind
      · exact .inr ⟨last, t, rfl, newline⟩
    · exact nomatch fresh.symm.trans peeked

/-- The next token of a line; the last line has nothing but its end. -/
theorem Unspent.peek_ok (h : s.Unspent p) (hp : s.peek v = (.ok t, s')) :
    s'.Within p ∨ s'.Last ∧ t.kind = .newline := by
  rcases h with within | blank
  · exact .inl (within.peek_ok hp)
  · refine .inr ?_
    have next := Scanner.next_last blank.rest v
    rw [peek_of_next blank.peeked next] at hp
    obtain ⟨ht, rfl⟩ := Prod.mk.inj hp
    obtain rfl := Except.ok.inj ht
    exact ⟨⟨rfl, rfl, _, rfl, rfl⟩, rfl⟩

/-- What has been looked at in the middle of a line. -/
theorem Within.kind (h : s.Within p) (peeked : s.peeked = some t) :
    p.behind = [] ∨ t.kind ≠ .endOfInput := by
  refine h.imp_right fun inside => ?_
  rcases inside with ⟨-, kind⟩ | ⟨-, u, hu, newline⟩
  · exact kind t peeked
  · obtain rfl := Option.some.inj (peeked.symm.trans hu)
    rw [newline]
    exact nofun

theorem peek_error_cases (hp : s.peek v = (.error e, s')) :
    s.peeked = none ∧ ∃ scanner, s.scanner.next v = (.error e, scanner) ∧
      s' = { s with scanner := scanner, atLineEnd := true } := by
  unfold peek at hp
  split at hp
  · exact nomatch (Prod.mk.inj hp).1
  next fresh =>
    split at hp
    · exact nomatch (Prod.mk.inj hp).1
    next scanner hn =>
      obtain ⟨he, rfl⟩ := Prod.mk.inj hp
      obtain rfl := Except.error.inj he
      exact ⟨fresh, scanner, hn, rfl⟩

/-- An error drops the rest of its line. -/
theorem Unspent.peek_error (h : s.Unspent p) (hp : s.peek v = (.error e, s')) : s'.Halted p := by
  obtain ⟨fresh, scanner, hn, rfl⟩ := peek_error_cases hp
  rcases h with (behind | ⟨sealed, -⟩ | ⟨-, t, peeked, -⟩) | blank
  · exact .inl (.inl behind)
  · exact .inr ⟨.inl (unspent_of_rest (sealed.next_error hn) fresh), rfl⟩
  · exact nomatch fresh.symm.trans peeked
  · rw [Scanner.next_last blank.rest] at hn
    exact nomatch (Prod.mk.inj hn).1

/-- What a source in the middle of a line is like when a token has been taken. -/
theorem Within.taken (h : s.Within p) (peeked : s.peeked = some t) (ended : Bool) :
    ({ s with peeked := none, atLineEnd := ended } : Source).Within p ∨
      t.kind = .newline ∧ ({ s with peeked := none, atLineEnd := ended } : Source).Blank := by
  rcases h with behind | ⟨sealed, -⟩ | ⟨last, u, hu, newline⟩
  · exact .inl (.inl behind)
  · exact .inl (.inr (.inl ⟨sealed, nofun⟩))
  · obtain rfl := Option.some.inj (peeked.symm.trans hu)
    exact .inr ⟨newline, last, rfl⟩

theorem Last.taken (h : s.Last) (ended : Bool) :
    ({ s with peeked := none, atLineEnd := ended } : Source).Spent := ⟨h.rest, h.previous, rfl⟩

/-- A token that is taken may end the line before the last one. -/
theorem Within.take_ok (h : s.Within p) (ht : s.take v = (.ok t, s')) :
    s'.Within p ∨ t.kind = .newline ∧ s'.Blank := by
  obtain ⟨s₁, hp, taken, peeked⟩ := peek_of_take ht
  rw [take_of_peeked peeked] at taken
  obtain ⟨-, rfl⟩ := Prod.mk.inj taken
  exact (h.peek_ok hp).taken peeked _

theorem Within.take_inner (h : s.Within p) (ht : s.take v = (.ok t, s'))
    (inner : t.kind.isLineEnd = false) : s'.Within p := by
  rcases h.take_ok ht with within | ⟨newline, -⟩
  · exact within
  · rw [newline] at inner
    exact nomatch inner

theorem Within.take_halted (h : s.Within p) (ht : s.take v = (.ok t, s')) : s'.Halted p := by
  rcases h.take_ok ht with within | ⟨newline, blank⟩
  · exact .inl within
  · refine .inr ⟨.inl (.inr blank), ?_⟩
    rw [take_atLineEnd ht, newline]
    rfl

theorem take_error_eq (ht : s.take v = (.error e, s')) : s.peek v = (.error e, s') := by
  unfold take at ht
  split at ht
  · exact nomatch (Prod.mk.inj ht).1
  next hp =>
    rw [hp]
    exact ht

/-! ## § What is left to read -/

/-- The number of characters and tokens that are left. -/
def unread (s : Source) : Nat :=
  s.scanner.rest.length + (match s.peeked with
    | some t => if t.kind = .endOfInput then 0 else 1
    | none => 0)

theorem unread_of_peeked (peeked : s.peeked = some t) (kind : t.kind ≠ .endOfInput) :
    s.unread = s.scanner.rest.length + 1 := by
  unfold unread
  rw [peeked]
  exact congrArg _ (if_neg kind)

theorem unread_lt_remaining (s : Source) : s.unread < s.remaining := by
  unfold unread remaining
  cases s.peeked with
  | none => exact Nat.lt_succ_self _
  | some t =>
    dsimp only
    rw [Option.toList_some, List.length_singleton]
    split <;> omega

theorem unread_amid (s : Source) (p : Surroundings) :
    (s.amid p).unread = s.unread + p.behind.length := by
  have longer : (s.scanner.rest ++ p.behind).length = s.scanner.rest.length + p.behind.length :=
    List.length_append
  obtain ⟨scanner, peeked, ended⟩ := s
  cases peeked with
  | none => exact longer
  | some t =>
    show (scanner.rest ++ p.behind).length + _ = scanner.rest.length + _ + p.behind.length
    rw [longer, Nat.add_right_comm]
    rfl

theorem unread_le_amid (s : Source) (p : Surroundings) : s.unread ≤ (s.amid p).unread := by
  rw [unread_amid]
  exact Nat.le_add_right _ _

/-- What reading does to a source: it takes something, unless it is content with a token that has
been looked at. -/
structure Moves (s s' : Source) : Prop where
  total : s'.scanner.total = s.scanner.total
  shrinks : s'.unread < s.unread ∨
    s'.unread ≤ s.unread ∧ ∀ t, s.peeked = some t → t.kind ≠ .endOfInput → s' = s

theorem Moves.refl (s : Source) : s.Moves s := ⟨rfl, .inr ⟨Nat.le_refl _, fun _ _ _ => rfl⟩⟩

theorem Moves.le (h : s.Moves s') : s'.unread ≤ s.unread := by
  rcases h.shrinks with less | ⟨le, -⟩
  · exact Nat.le_of_lt less
  · exact le

theorem Moves.trans (h : s.Moves s') (k : s'.Moves s'') : s.Moves s'' := by
  refine ⟨k.total.trans h.total, ?_⟩
  rcases h.shrinks with less | ⟨le, same⟩
  · exact .inl (Nat.lt_of_le_of_lt k.le less)
  rcases k.shrinks with less | ⟨le', same'⟩
  · exact .inl (Nat.lt_of_lt_of_le less le)
  refine .inr ⟨Nat.le_trans le' le, fun t peeked kind => ?_⟩
  obtain rfl := same t peeked kind
  exact same' t peeked kind

theorem moves_peek_ok (hp : s.peek v = (.ok t, s')) : s.Moves s' := by
  rcases peek_cases hp with ⟨-, rfl⟩ | ⟨fresh, scanner, hn, rfl⟩
  · exact .refl _
  · obtain ⟨le, less⟩ := Scanner.length_next_ok hn
    have total := s.scanner.total_next v
    rw [hn] at total
    refine ⟨total, .inr ⟨?_, fun u peeked => nomatch fresh.symm.trans peeked⟩⟩
    unfold unread
    rw [fresh]
    dsimp only
    split
    · exact le
    next kind => exact less kind

/-- An error takes something. -/
theorem peek_error_lt (hp : s.peek v = (.error e, s')) :
    s'.scanner.total = s.scanner.total ∧ s'.unread < s.unread := by
  obtain ⟨fresh, scanner, hn, rfl⟩ := peek_error_cases hp
  have total := s.scanner.total_next v
  rw [hn] at total
  refine ⟨total, ?_⟩
  unfold unread
  rw [fresh]
  exact Scanner.length_next_error hn

theorem moves_peek_error (hp : s.peek v = (.error e, s')) : s.Moves s' :=
  ⟨(peek_error_lt hp).1, .inl (peek_error_lt hp).2⟩

/-- Every token that is taken counts, the end of the input aside. -/
theorem taken_lt (peeked : s.peeked = some t) (kind : t.kind ≠ .endOfInput) (ended : Bool) :
    ({ s with peeked := none, atLineEnd := ended } : Source).unread < s.unread := by
  rw [unread_of_peeked peeked kind]
  exact Nat.lt_succ_self _

theorem moves_taken (peeked : s.peeked = some t) (ended : Bool) :
    s.Moves { s with peeked := none, atLineEnd := ended } := by
  refine ⟨rfl, ?_⟩
  by_cases kind : t.kind = .endOfInput
  · refine .inr ⟨Nat.le_add_right _ _, fun u hu other => ?_⟩
    obtain rfl := Option.some.inj (peeked.symm.trans hu)
    exact absurd kind other
  · exact .inl (taken_lt peeked kind ended)

theorem moves_take_ok (ht : s.take v = (.ok t, s')) : s.Moves s' := by
  obtain ⟨s₁, hp, taken, peeked⟩ := peek_of_take ht
  rw [take_of_peeked peeked] at taken
  obtain ⟨-, rfl⟩ := Prod.mk.inj taken
  exact (moves_peek_ok hp).trans (moves_taken peeked _)

theorem take_lt (ht : s.take v = (.ok t, s')) (kind : t.kind ≠ .endOfInput) :
    s'.unread < s.unread := by
  obtain ⟨s₁, hp, taken, peeked⟩ := peek_of_take ht
  rw [take_of_peeked peeked] at taken
  obtain ⟨-, rfl⟩ := Prod.mk.inj taken
  exact Nat.lt_of_lt_of_le (taken_lt peeked kind _) (moves_peek_ok hp).le

/-! ## § Lines -/

/-- The rest of a line is dropped in the whole text as it is in the passage. -/
theorem amid_skipTokens (v : Vocabulary) {n m : Nat} (h : s.Halted p) (hn : s.unread < n)
    (hm : s.unread < m) :
    (s.amid p).skipTokens v m = (s.skipTokens v n).amid p ∧ (s.skipTokens v n).Between p ∧
      s.Moves (s.skipTokens v n) := by
  induction n generalizing s m with
  | zero => exact nomatch hn
  | succ n ih =>
    cases m with
    | zero => exact nomatch hm
    | succ m =>
      unfold skipTokens
      have ended : (s.amid p).atLineEnd = s.atLineEnd := rfl
      rw [ended]
      by_cases finished : s.atLineEnd = true
      · rw [if_pos finished, if_pos finished]
        exact ⟨rfl, h.between, .refl s⟩
      -- A source between two lines is at the end of one, where nothing is dropped.
      have within : s.Within p := h.resolve_right fun k => finished k.2
      rw [if_neg finished, if_neg finished, amid_take within.shut]
      cases ht : s.take v with
      | mk result s₁ =>
        cases result with
        | error e =>
          have hp := take_error_eq ht
          exact ⟨rfl, (Unspent.peek_error (.inl within) hp).between, moves_peek_error hp⟩
        | ok t =>
          have moves := moves_take_ok ht
          have halted := within.take_halted ht
          by_cases kind : t.kind = .endOfInput
          · -- Behind the end of the input there is nothing to drop.
            have last : s₁.atLineEnd = true := by
              rw [take_atLineEnd ht, kind]
              rfl
            have here (k : Nat) : s₁.skipTokens v k = s₁ := by
              cases k with
              | zero => rfl
              | succ k => exact if_pos last
            have there (k : Nat) : (s₁.amid p).skipTokens v k = s₁.amid p := by
              cases k with
              | zero => rfl
              | succ k => exact if_pos last
            dsimp only [laterResult]
            rw [here, there]
            exact ⟨rfl, halted.between, moves⟩
          · have less := take_lt ht kind
            obtain ⟨same, between, moves'⟩ :=
              ih halted (by omega) (show s₁.unread < m by omega)
            exact ⟨same, between, moves.trans moves'⟩

theorem amid_skipLine (v : Vocabulary) (h : s.Halted p) :
    (s.amid p).skipLine v = (s.skipLine v).amid p ∧ (s.skipLine v).Between p ∧
      s.Moves (s.skipLine v) := by
  have more := Nat.lt_of_le_of_lt (s.unread_le_amid p) (s.amid p).unread_lt_remaining
  exact amid_skipTokens v h s.unread_lt_remaining more

theorem moves_skipTokens (s : Source) (v : Vocabulary) {n : Nat} (hn : s.unread < n) :
    s.Moves (s.skipTokens v n) :=
  (amid_skipTokens (p := ⟨0, []⟩) v (.inl (.inl rfl)) hn hn).2.2

/-- A line that has a token loses it, one way or the other. -/
theorem Moves.skipLine_lt (h : s.Moves s') (peeked : s.peeked = some t)
    (kind : t.kind ≠ .endOfInput) (begun : s.atLineEnd = false) :
    (s'.skipLine v).unread < s.unread := by
  rcases h.shrinks with less | ⟨-, same⟩
  · exact Nat.lt_of_le_of_lt (moves_skipTokens s' v s'.unread_lt_remaining).le less
  · obtain rfl := same t peeked kind
    have less := taken_lt peeked kind t.kind.isLineEnd
    have bound := s'.unread_lt_remaining
    unfold skipLine
    cases hn : s'.remaining with
    | zero => omega
    | succ n =>
      rw [skipTokens, if_neg (by rw [begun]; exact Bool.false_ne_true), take_of_peeked peeked]
      exact Nat.lt_of_le_of_lt (moves_skipTokens _ v (by omega)).le less

/-! ## § Torn lines -/

/-- Where the source of a passage goes on behind a line, alone and in the whole text. -/
inductive GoesOn (p : Surroundings) (s : Source) : Source → Source → Prop
  | heard {s' : Source} (between : s'.Between p) (total : s'.scanner.total = s.scanner.total) :
    GoesOn p s s' (s'.amid p)
  /-- The end of the line has been lost, and all lines behind it. -/
  | deaf {s' : Source} (spent : s'.Spent) (less : s'.scanner.total < s.scanner.total) :
    GoesOn p s s' (s'.amid ⟨p.feeds, []⟩)

theorem GoesOn.of_total (h : s.GoesOn p s' s'') {t : Source}
    (total : s.scanner.total = t.scanner.total) : t.GoesOn p s' s'' := by
  cases h with
  | heard between same => exact .heard between (same.trans total)
  | deaf spent less => exact .deaf spent (Nat.lt_of_lt_of_eq less total)

/-- Where nothing is left, nothing is dropped. -/
theorem Spent.skipLine (h : s.Spent) (v : Vocabulary) :
    (s.skipLine v).Spent ∧ (s.skipLine v).scanner.total = s.scanner.total := by
  obtain ⟨⟨text, previous, feeds⟩, peeked, ended⟩ := s
  obtain ⟨rfl, rfl, rfl⟩ := h
  cases ended <;> exact ⟨⟨rfl, rfl, rfl⟩, rfl⟩

theorem skipTorn_of_peeked (peeked : s.peeked = some t) (v : Vocabulary) (count : Nat) :
    s.skipTorn v count = s.skipLine v := by
  rw [skipTorn, peeked]

theorem skipTorn_of_fresh (fresh : s.peeked = none) (v : Vocabulary) (count : Nat) :
    s.skipTorn v count = ({ s with scanner := s.scanner.tear v count } : Source).skipLine v := by
  rw [skipTorn, fresh]

/-- The rest of a torn line is dropped in the whole text as it is in the passage. -/
theorem amid_skipTorn (h : s.Within p) (v : Vocabulary) (count : Nat) :
    s.GoesOn p (s.skipTorn v count) ((s.amid p).skipTorn v count) ∧
      (s.skipTorn v count).unread ≤ s.unread := by
  have looked : (s.amid p).peeked = s.peeked.map (Token.later p.feeds) := rfl
  cases hp : s.peeked with
  | some t =>
    rw [hp] at looked
    obtain ⟨same, between, moves⟩ := amid_skipLine v h.halted
    rw [skipTorn_of_peeked hp, skipTorn_of_peeked looked, same]
    exact ⟨.heard between moves.total, moves.le⟩
  | none =>
    rw [hp] at looked
    have unread : s.unread = s.scanner.rest.length := by
      unfold Source.unread
      rw [hp]
      rfl
    have torn := Scanner.torn_amid h.scanner_shut v count
    have scanner : (s.amid p).scanner = s.scanner.amid p := rfl
    rw [skipTorn_of_fresh hp, skipTorn_of_fresh looked, scanner, unread]
    generalize s.scanner.tear v count = alone at torn ⊢
    generalize (s.scanner.amid p).tear v count = whole at torn ⊢
    cases torn with
    | heard kept total le =>
      have within : ({ s with scanner := alone } : Source).Within p := by
        rcases h with behind | ⟨sealed, kind⟩ | ⟨-, t, peeked, -⟩
        · exact .inl behind
        · exact .inr (.inl ⟨kept sealed, kind⟩)
        · exact nomatch hp.symm.trans peeked
      obtain ⟨same, between, moves⟩ := amid_skipLine v within.halted
      have left : ({ s with scanner := alone } : Source).unread = alone.rest.length := by
        unfold Source.unread
        rw [hp]
        rfl
      refine ⟨?_, Nat.le_trans moves.le (left ▸ le)⟩
      have stopped := GoesOn.heard (p := p) between (moves.total.trans total)
      exact same ▸ stopped
    | deaf rest previous less =>
      have spent : ({ s with scanner := alone } : Source).Spent := ⟨rest, previous, hp⟩
      obtain ⟨left, total⟩ := spent.skipLine v
      obtain ⟨same, -, -⟩ := amid_skipLine (p := ⟨p.feeds, []⟩)
        (s := { s with scanner := alone }) v (.inl (.inl rfl))
      have stopped := GoesOn.deaf (p := p) left (total ▸ less)
      have nothing : (({ s with scanner := alone } : Source).skipLine v).unread = 0 := by
        unfold Source.unread
        rw [left.rest, left.peeked]
        rfl
      rw [nothing]
      exact ⟨same ▸ stopped, Nat.zero_le _⟩

end ArrayCalc.Source
