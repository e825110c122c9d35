import ArrayCalc.Token.Source

/-!
# What a source gives

To look at the next token is to scan it, unless that has been done before, and to take it is to look
at it first.
-/

namespace ArrayCalc.Source

variable {v : Vocabulary} {s s' : Source} {t u : Token} {e : LexError}

/-! ## § Looking -/

theorem peek_of_peeked (h : s.peeked = some t) (v : Vocabulary) : s.peek v = (.ok t, s) := by
  unfold peek
  rw [h]

theorem peek_of_next {scanner : Scanner} (hp : s.peeked = none)
    (hn : s.scanner.next v = (.ok t, scanner)) :
    s.peek v = (.ok t, { s with scanner := scanner, peeked := some t }) := by
  unfold peek
  rw [hp]
  dsimp only
  rw [hn]

/-- A source that has been looked at, and what it has been looked at for. -/
theorem peek_cases (h : s.peek v = (.ok t, s')) :
    (s.peeked = some t ∧ s' = s) ∨
      (s.peeked = none ∧ ∃ scanner, s.scanner.next v = (.ok t, scanner) ∧
        s' = { s with scanner := scanner, peeked := some t }) := by
  unfold peek at h
  split at h
  next hp =>
    obtain ⟨ha, rfl⟩ := Prod.mk.inj h
    obtain rfl := Except.ok.inj ha
    exact .inl ⟨hp, rfl⟩
  next hp =>
    split at h
    next scanner hn =>
      obtain ⟨ha, rfl⟩ := Prod.mk.inj h
      obtain rfl := Except.ok.inj ha
      exact .inr ⟨hp, scanner, hn, rfl⟩
    next => exact nomatch (Prod.mk.inj h).1

theorem peeked_of_peek (h : s.peek v = (.ok t, s')) : s'.peeked = some t := by
  rcases peek_cases h with ⟨hp, rfl⟩ | ⟨-, scanner, -, rfl⟩
  · exact hp
  · rfl

theorem peek_atLineEnd (h : s.peek v = (.ok t, s')) : s'.atLineEnd = s.atLineEnd := by
  rcases peek_cases h with ⟨-, rfl⟩ | ⟨-, scanner, -, rfl⟩
  · rfl
  · rfl

/-- A token that cannot be scanned is dropped. -/
theorem peek_error (h : s.peek v = (.error e, s')) : s'.peeked = none := by
  unfold peek at h
  split at h
  · exact nomatch (Prod.mk.inj h).1
  next hp =>
    split at h
    · exact nomatch (Prod.mk.inj h).1
    · obtain ⟨-, rfl⟩ := Prod.mk.inj h
      exact hp

/-! ## § Taking -/

theorem take_of_peeked (h : s.peeked = some t) (v : Vocabulary) :
    s.take v = (.ok t, { s with peeked := none, atLineEnd := t.kind.isLineEnd }) := by
  unfold take
  rw [peek_of_peeked h]

theorem take_eq_of_peek (h : s.peek v = (.ok t, s')) :
    s.take v = (.ok t, { s' with peeked := none, atLineEnd := t.kind.isLineEnd }) := by
  unfold take
  rw [h]

theorem peek_of_take (h : s.take v = (.ok t, s')) :
    ∃ s₁, s.peek v = (.ok t, s₁) ∧ s₁.take v = (.ok t, s') ∧ s₁.peeked = some t := by
  unfold take at h
  split at h
  next t' s₁ hp =>
    obtain ⟨ht, rfl⟩ := Prod.mk.inj h
    obtain rfl := Except.ok.inj ht
    have peeked := peeked_of_peek hp
    exact ⟨s₁, hp, take_of_peeked peeked v, peeked⟩
  next => exact nomatch (Prod.mk.inj h).1

theorem peeked_of_take (h : s.take v = (.ok t, s')) : s'.peeked = none := by
  obtain ⟨s₁, hp, -⟩ := peek_of_take h
  obtain ⟨-, rfl⟩ := Prod.mk.inj ((take_eq_of_peek hp).symm.trans h)
  rfl

theorem take_atLineEnd (h : s.take v = (.ok t, s')) : s'.atLineEnd = t.kind.isLineEnd := by
  obtain ⟨s₁, hp, -⟩ := peek_of_take h
  obtain ⟨-, rfl⟩ := Prod.mk.inj ((take_eq_of_peek hp).symm.trans h)
  rfl

theorem take_error (h : s.take v = (.error e, s')) : s'.peeked = none := by
  unfold take at h
  split at h
  · exact nomatch (Prod.mk.inj h).1
  next hp =>
    obtain ⟨-, rfl⟩ := Prod.mk.inj h
    exact peek_error hp

/-! ## § Dropping a line -/

/-- No operator and no name has been looked at that is not taken.  What is one, and what the other,
can change between two lines. -/
def Ready (s : Source) : Prop :=
  ∀ t, s.peeked = some t → t.kind ≠ .operator ∧ t.kind ≠ .identifier

theorem ready_of_peeked (h : s.peeked = none) : s.Ready := by
  intro t ht
  rw [h] at ht
  exact nomatch ht

theorem skipTokens_ready (count : Nat) (h : s.Ready) : (s.skipTokens v count).Ready := by
  induction count generalizing s with
  | zero => exact h
  | succ count ih =>
    unfold skipTokens
    split
    · exact h
    · split
      next ht => exact ih (ready_of_peeked (peeked_of_take ht))
      next ht => exact ready_of_peeked (take_error ht)

/-- What has been looked at is dropped with its line, unless the line has been taken. -/
theorem skipLine_ready (h : s.atLineEnd = true → s.Ready) : (s.skipLine v).Ready := by
  unfold skipLine remaining
  rw [skipTokens]
  split
  next ended => exact h ended
  next =>
    split
    next ht => exact skipTokens_ready _ (ready_of_peeked (peeked_of_take ht))
    next ht => exact ready_of_peeked (take_error ht)

theorem skipTorn_ready {count : Nat} (h : s.atLineEnd = true → s.Ready) :
    (s.skipTorn v count).Ready := by
  unfold skipTorn
  split
  next => exact skipLine_ready h
  next taken => exact skipLine_ready fun _ => ready_of_peeked taken

end ArrayCalc.Source
