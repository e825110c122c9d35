import ArrayCalc.Proofs.Sources
import ArrayCalc.Proofs.Vocabularies

/-!
# Copies of a source

A copy of a source holds the same line, but where the source ends the copy has a line feed and more
text.  Up to there both give the same tokens, even if the vocabulary of the copy is narrower; the
end of the source is the end of the line in the copy.
-/

namespace ArrayCalc

open OperatorWord (Usable)

variable {known : Signature → Prop} {v w : Vocabulary} {tail : List Char} {a b : Token}

namespace Scanner

variable {s t s' : Scanner} {c : Char} {rest : List Char} {n : Nat} {kind : TokenKind}

/-- A scanner `t` that has a line feed and `tail` behind the text of `s`. -/
structure Copy (tail : List Char) (s t : Scanner) : Prop where
  rest : t.rest = s.rest ++ '\n' :: tail
  previous : t.previous = s.previous
  feed : '\n' ∉ s.rest

/-- A scanner `s` at its end and `t` at the start of the next line. -/
structure Passed (tail : List Char) (s t : Scanner) : Prop where
  finished : s.rest = []
  rest : t.rest = tail
  previous : t.previous = none

theorem Copy.advance (h : Copy tail s t) (hn : n ≤ s.rest.length) :
    Copy tail (s.advance n) (t.advance n) where
  rest := by
    show t.rest.drop n = s.rest.drop n ++ '\n' :: tail
    rw [h.rest, Lexeme.drop_feed hn]
  previous := by
    unfold Scanner.advance
    dsimp only
    rw [h.rest, Lexeme.take_feed hn, h.previous]
  feed hm := h.feed (List.mem_of_mem_drop hm)

theorem Copy.skipBlanks (h : Copy tail s t) : Copy tail s.skipBlanks t.skipBlanks := by
  unfold Scanner.skipBlanks
  rw [h.rest, Lexeme.runLength_feed (by decide)]
  exact h.advance (Lexeme.runLength_le _ _)

theorem length_skipBlanks_le (s : Scanner) : s.skipBlanks.rest.length ≤ s.rest.length := by
  show (s.rest.drop _).length ≤ _
  rw [List.length_drop]
  omega

/-- What the next token is cut from. -/
theorem next_cases (h : s.next v = (.ok a, s')) :
    (s.skipBlanks.rest = [] ∧ a.kind = .endOfInput ∧ s' = s.skipBlanks) ∨
      ∃ c rest n, s.skipBlanks.rest = c :: rest ∧ s' = s.skipBlanks.advance n ∧
        (Lexeme.ofText v s.skipBlanks.previous c rest = .token a.kind n ∧
            a.text = String.ofList ((c :: rest).take n) ∨
          Lexeme.ofText v s.skipBlanks.previous c rest = .comment n ∧ a.kind = .newline) := by
  unfold Scanner.next at h
  dsimp only at h
  split at h
  next hr =>
    obtain ⟨ha, rfl⟩ := Prod.mk.inj h
    obtain rfl := Except.ok.inj ha
    exact .inl ⟨hr, rfl, rfl⟩
  next c rest hr =>
    split at h
    next kind n hl =>
      obtain ⟨ha, rfl⟩ := Prod.mk.inj h
      obtain rfl := Except.ok.inj ha
      exact .inr ⟨c, rest, n, hr, rfl, .inl ⟨hl, by rw [hr]⟩⟩
    next n hl =>
      obtain ⟨ha, rfl⟩ := Prod.mk.inj h
      obtain rfl := Except.ok.inj ha
      exact .inr ⟨c, rest, n, hr, rfl, .inr ⟨hl, rfl⟩⟩
    next => exact nomatch (Prod.mk.inj h).1

theorem next_token (hr : s.skipBlanks.rest = c :: rest)
    (hl : Lexeme.ofText v s.skipBlanks.previous c rest = .token kind n) :
    s.next v = (.ok ⟨kind, String.ofList ((c :: rest).take n), s.skipBlanks.line⟩,
      s.skipBlanks.advance n) := by
  unfold Scanner.next
  dsimp only
  rw [hr]
  dsimp only
  rw [hl]

/-- Where the line ends, the next token of the copy is its end. -/
theorem next_at_end (w : Vocabulary) (h : Copy tail s t) (hr : s.skipBlanks.rest = []) :
    ∃ b t', t.next w = (.ok b, t') ∧ b.kind.isLineEnd = true ∧ t'.rest = tail ∧
      t'.previous = none := by
  have rest := h.skipBlanks.rest
  rw [hr, List.nil_append] at rest
  have newline : Lexeme.ofText w t.skipBlanks.previous '\n' tail = .token .newline 1 := rfl
  refine ⟨_, _, next_token rest newline, rfl, ?_, ?_⟩
  · show t.skipBlanks.rest.drop 1 = tail
    rw [rest]
    rfl
  · unfold Scanner.advance
    rw [rest]
    rfl

/-- A comment ends the line in the copy as well. -/
theorem next_comment (w : Vocabulary) (h : Copy tail s t)
    (hr : s.skipBlanks.rest = '#' :: rest) :
    (s.skipBlanks.advance (Lexeme.lineLength ('#' :: rest))).rest = [] ∧
      ∃ b t', t.next w = (.ok b, t') ∧ b.kind.isLineEnd = true ∧ t'.rest = tail ∧
        t'.previous = none := by
  have copy := h.skipBlanks
  have feed := copy.feed
  have rest' := copy.rest
  rw [hr] at feed rest'
  obtain ⟨hs, ht⟩ := Lexeme.lineLength_feed feed tail
  constructor
  · show s.skipBlanks.rest.drop _ = []
    rw [hr, hs, List.drop_length]
  · have line : (t.skipBlanks.rest.take (Lexeme.lineLength t.skipBlanks.rest))
        = '#' :: rest ++ ['\n'] := by
      rw [rest', ht, List.take_length_add_append]
      rfl
    have next : t.next w = (.ok ⟨.newline, "\n", t.skipBlanks.line⟩,
        t.skipBlanks.advance (Lexeme.lineLength t.skipBlanks.rest)) := by
      unfold Scanner.next
      dsimp only
      rw [rest']
      rfl
    refine ⟨_, _, next, rfl, ?_, ?_⟩
    · show t.skipBlanks.rest.drop _ = tail
      rw [rest', ht, List.drop_length_add_append]
      rfl
    · unfold Scanner.advance
      dsimp only
      rw [line, List.getLast?_concat]
      rfl

/-- What the copy gives instead of a token that ends the line. -/
theorem next_lineEnd (w : Vocabulary) (h : Copy tail s t) (hs : s.next v = (.ok a, s'))
    (ha : a.kind.isLineEnd = true) :
    ∃ b t', t.next w = (.ok b, t') ∧ b.kind.isLineEnd = true ∧ Passed tail s' t' := by
  rcases next_cases hs with ⟨hr, -, rfl⟩ | ⟨c, rest, n, hr, rfl, ⟨hl, -⟩ | ⟨hl, -⟩⟩
  · obtain ⟨b, t', ht, hb, rest, previous⟩ := next_at_end w h hr
    exact ⟨b, t', ht, hb, hr, rest, previous⟩
  · have feed := h.skipBlanks.feed
    rw [hr, List.mem_cons, not_or] at feed
    by_cases hc : c = '#'
    · subst hc
      exact nomatch hl
    · have inner := Lexeme.ofText_inner v s.skipBlanks.previous rest (Ne.symm feed.1) hc
      rw [hl] at inner
      rw [show a.kind.isLineEnd = false from inner] at ha
      exact nomatch ha
  · obtain ⟨rfl, rfl⟩ := Lexeme.ofText_comment hl
    obtain ⟨finished, b, t', ht, hb, rest, previous⟩ := next_comment w h hr
    exact ⟨b, t', ht, hb, finished, rest, previous⟩

/-- The copy gives the token that the scanner gives, once its vocabulary cuts the same lexeme. -/
theorem next_of_lexeme (h : Copy tail s t) (hs : s.next v = (.ok a, s'))
    (ha : a.kind.isLineEnd = false) {P : TokenKind → Prop}
    (hw : ∀ c rest n, Lexeme.ofText v s.skipBlanks.previous c rest = .token a.kind n →
      a.text = String.ofList ((c :: rest).take n) →
      ∃ kind, P kind ∧ Lexeme.ofText w s.skipBlanks.previous c rest = .token kind n) :
    ∃ b t', t.next w = (.ok b, t') ∧ P b.kind ∧ b.text = a.text ∧ Copy tail s' t' := by
  have copy := h.skipBlanks
  rcases next_cases hs with ⟨-, hk, -⟩ | ⟨c, rest, n, hr, rfl, ⟨hl, htext⟩ | ⟨-, hk⟩⟩
  · rw [hk] at ha
    exact nomatch ha
  · obtain ⟨kind, hkind, hword⟩ := hw c rest n hl htext
    obtain ⟨longer, -, bound⟩ := Lexeme.ofText_feed hword tail
    have rest' : t.skipBlanks.rest = c :: (rest ++ '\n' :: tail) := by
      rw [copy.rest, hr, List.cons_append]
    rw [← copy.previous] at longer
    refine ⟨_, _, next_token rest' longer, hkind, ?_, copy.advance (by rwa [hr])⟩
    show String.ofList ((c :: rest ++ '\n' :: tail).take n) = a.text
    rw [htext, Lexeme.take_feed bound]
  · rw [hk] at ha
    exact nomatch ha

end Scanner

/-! ## § Tokens that have been looked at -/

/-- Two tokens that mean the same to a reader. -/
inductive Token.Alike (a b : Token) : Prop
  | inner (ha : a.kind.isLineEnd = false) (kind : b.kind = a.kind) (text : b.text = a.text)
  | lineEnd (ha : a.kind.isLineEnd = true) (hb : b.kind.isLineEnd = true)

theorem Token.Alike.inner_eq (h : a.Alike b) (ha : a.kind.isLineEnd = false) :
    b.kind = a.kind ∧ b.text = a.text := by
  cases h with
  | inner _ kind text => exact ⟨kind, text⟩
  | lineEnd ha' =>
    rw [ha] at ha'
    exact nomatch ha'

/-- Tokens that mean the same are of one kind, unless they end the line. -/
theorem Token.Alike.kind_iff (h : a.Alike b) {kind : TokenKind} (hk : kind.isLineEnd = false) :
    b.kind = kind ↔ a.kind = kind := by
  cases h with
  | inner _ same => rw [same]
  | lineEnd ha hb =>
    constructor
    all_goals
      rintro rfl
      simp_all

/-- Tokens that mean the same both end the line, or neither does. -/
theorem Token.Alike.isLineEnd (h : a.Alike b) : b.kind.isLineEnd = a.kind.isLineEnd := by
  cases h with
  | inner _ same => rw [same]
  | lineEnd ha hb => rw [ha, hb]

theorem TokenKind.endsExpression_of_isLineEnd {kind : TokenKind} (h : kind.isLineEnd = true) :
    kind.endsExpression = true := by
  cases kind <;> first | rfl | exact nomatch h

/-- Tokens that mean the same both end an expression, or neither does. -/
theorem Token.Alike.endsExpression (h : a.Alike b) :
    b.kind.endsExpression = a.kind.endsExpression := by
  cases h with
  | inner _ same => rw [same]
  | lineEnd ha hb =>
    rw [TokenKind.endsExpression_of_isLineEnd ha, TokenKind.endsExpression_of_isLineEnd hb]

namespace Source

variable {s t s' : Source}

/-- A source `t` that has a line feed and `tail` behind the text of `s`. -/
inductive Copy (tail : List Char) (s t : Source) : Prop
  | fresh (copy : s.scanner.Copy tail t.scanner) (hs : s.peeked = none) (ht : t.peeked = none)
  | inner {a b : Token} (copy : s.scanner.Copy tail t.scanner) (hs : s.peeked = some a)
      (ht : t.peeked = some b) (ha : a.kind.isLineEnd = false) (kind : b.kind = a.kind)
      (text : b.text = a.text)
  | lineEnd {a b : Token} (passed : s.scanner.Passed tail t.scanner) (hs : s.peeked = some a)
      (ht : t.peeked = some b) (ha : a.kind.isLineEnd = true) (hb : b.kind.isLineEnd = true)

theorem Copy.alike (h : Copy tail s t) (hs : s.peeked = some a) :
    ∃ b, t.peeked = some b ∧ a.Alike b := by
  cases h with
  | fresh _ hs' => exact nomatch hs'.symm.trans hs
  | inner _ hs' ht ha kind text =>
    obtain rfl := Option.some.inj (hs'.symm.trans hs)
    exact ⟨_, ht, .inner ha kind text⟩
  | lineEnd _ hs' ht ha hb =>
    obtain rfl := Option.some.inj (hs'.symm.trans hs)
    exact ⟨_, ht, .lineEnd ha hb⟩

/-- A bound for the number of tokens that are left on the line, its end aside. -/
def left (s : Source) : Nat :=
  s.scanner.rest.length + (match s.peeked with
    | some a => if a.kind.isLineEnd then 0 else 1
    | none => 0)

theorem left_lt_remaining (s : Source) : s.left < s.remaining := by
  unfold left remaining
  cases s.peeked with
  | none => simp
  | some a =>
    simp only [Option.toList_some, List.length_singleton]
    split <;> omega

theorem Copy.remaining_le (h : Copy tail s t) : s.remaining ≤ t.remaining := by
  unfold remaining
  cases h with
  | fresh copy hs ht =>
    rw [hs, ht, copy.rest, List.length_append]
    omega
  | inner copy hs ht =>
    rw [hs, ht, copy.rest, List.length_append]
    simp only [Option.toList_some, List.length_singleton]
    omega
  | lineEnd passed hs ht =>
    rw [hs, ht, passed.finished]
    simp

/-- To look at the next token leaves no more than there was. -/
theorem left_peek_le (h : s.peek v = (.ok a, s')) : s'.left ≤ s.left := by
  rcases peek_cases h with ⟨-, rfl⟩ | ⟨hp, scanner, hn, rfl⟩
  · exact Nat.le_refl _
  simp only [left, hp]
  have le := s.scanner.length_skipBlanks_le
  rcases Scanner.next_cases hn with ⟨-, hk, rfl⟩ | ⟨c, rest, n, hr, rfl, ⟨hl, -⟩ | ⟨-, hk⟩⟩
  · rw [hk]
    exact le
  · obtain ⟨-, pos, -⟩ := Lexeme.ofText_feed hl []
    have shorter : (s.scanner.skipBlanks.advance n).rest.length
        = s.scanner.skipBlanks.rest.length - n := List.length_drop
    rw [hr, List.length_cons] at le shorter
    split <;> omega
  · rw [hk]
    have shorter : (s.scanner.skipBlanks.advance n).rest.length
        = s.scanner.skipBlanks.rest.length - n := List.length_drop
    show (s.scanner.skipBlanks.advance n).rest.length + 0 ≤ _
    omega

/-- **Both sources give the same token**, as long as the copy has the words for it. -/
theorem Copy.peek (h : Copy tail s t) (hn : v.Narrows known w)
    (marks : ∀ s, known s → OperatorWord.splitMark? s.name = none)
    (hs : s.peek v = (.ok a, s'))
    (hu : a.kind = .operator → Usable known a.text) :
    ∃ b t', t.peek w = (.ok b, t') ∧ a.Alike b ∧ Copy tail s' t' ∧ s'.peeked = some a ∧
      t'.peeked = some b := by
  rcases peek_cases hs with ⟨hp, rfl⟩ | ⟨hp, scanner, hnext, rfl⟩
  · cases h with
    | fresh _ hs => exact nomatch hs.symm.trans hp
    | inner copy hs ht ha kind text =>
      obtain rfl := Option.some.inj (hs.symm.trans hp)
      exact ⟨_, _, peek_of_peeked ht w, .inner ha kind text, .inner copy hp ht ha kind text, hp, ht⟩
    | lineEnd passed hs ht ha hb =>
      obtain rfl := Option.some.inj (hs.symm.trans hp)
      exact ⟨_, _, peek_of_peeked ht w, .lineEnd ha hb, .lineEnd passed hp ht ha hb, hp, ht⟩
  · cases h with
    | inner _ hs => exact nomatch hp.symm.trans hs
    | lineEnd _ hs => exact nomatch hp.symm.trans hs
    | fresh copy _ ht =>
      by_cases ha : a.kind.isLineEnd = true
      · obtain ⟨b, scanner', hnext', hb, passed⟩ := Scanner.next_lineEnd w copy hnext ha
        exact ⟨b, _, peek_of_next ht hnext', .lineEnd ha hb, .lineEnd passed rfl rfl ha hb, rfl, rfl⟩
      · have ha := Bool.eq_false_iff.2 ha
        obtain ⟨b, scanner', hnext', hb, text, copy'⟩ :=
          Scanner.next_of_lexeme (w := w) (P := (· = a.kind)) copy hnext ha fun c rest n hl htext =>
            ⟨a.kind, rfl, Lexeme.ofText_narrow hn marks hl (htext ▸ hu)⟩
        exact ⟨b, _, peek_of_next ht hnext', .inner ha hb text, .inner copy' rfl rfl ha hb text,
          rfl, rfl⟩

/-- To take a token that does not end the line leaves the copy as it should be. -/
theorem Copy.take (h : Copy tail s t) (hs : s.peeked = some a) (ha : a.kind.isLineEnd = false)
    (x y : Bool) :
    Copy tail { s with peeked := none, atLineEnd := x }
        { t with peeked := none, atLineEnd := y } ∧
      ({ s with peeked := none, atLineEnd := x } : Source).left < s.left := by
  cases h with
  | fresh _ hs' => exact nomatch hs'.symm.trans hs
  | inner copy =>
    refine ⟨.fresh copy rfl rfl, ?_⟩
    simp [left, hs, ha]
  | lineEnd _ hs' _ ha' =>
    obtain rfl := Option.some.inj (hs'.symm.trans hs)
    rw [ha] at ha'
    exact nomatch ha'

/-- A source at the start of a line. -/
structure StartsLine (text : List Char) (s : Source) : Prop where
  rest : s.scanner.rest = text
  previous : s.scanner.previous = none
  peeked : s.peeked = none

/-- The source of a line that the other source has at its start. -/
theorem StartsLine.copy {line : List Char} (h : s.StartsLine line)
    (k : t.StartsLine (line ++ '\n' :: tail)) (feed : '\n' ∉ line) : Copy tail s t :=
  .fresh ⟨by rw [h.rest, k.rest], k.previous.trans h.previous.symm, h.rest ▸ feed⟩ h.peeked
    k.peeked

end Source

end ArrayCalc
