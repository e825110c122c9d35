import ArrayCalc.Machine.Standard
import ArrayCalc.Proofs.Paths

/-!
# Where reading resumes

An error ends the line that it is on: reading goes on at the start of a later line, or nothing is
left.  There are two exceptions.

What is wrong inside quotes is found when the token has been taken, and nothing of its line is
dropped then.

Whether a line has been taken to its end is known from the last token taken.  A body line that
starts with a token which starts nothing is refused before any of its tokens is taken, so that the
line before counts as the one to drop, and that has been taken already.

Where the reader is given up for want of levels, the scanner may lose a part of the line besides, or
all that is left.
-/

namespace ArrayCalc

namespace Scanner

variable {v : Vocabulary} {s s' c : Scanner} {t : Token} {e : LexError}

/-- The scanner `c` is at the start of a line behind the place of `s`, or at the end. -/
def NextLine (s c : Scanner) : Prop :=
  c.rest = [] ∨ c.previous = none ∧ ∃ line, s.rest = line ++ '\n' :: c.rest

theorem NextLine.of_suffix (h : s'.NextLine c) (suffix : s'.rest <:+ s.rest) : s.NextLine c := by
  refine h.imp_right fun ⟨previous, line, split⟩ => ⟨previous, ?_⟩
  obtain ⟨before, hb⟩ := suffix
  exact ⟨before ++ line, by rw [← hb, split, List.append_assoc]⟩

theorem line_le (suffix : c.rest <:+ s.rest) (total : c.total = s.total) : s.line ≤ c.line := by
  have fewer := suffix.sublist.count_le '\n'
  unfold Scanner.total at total
  unfold Scanner.line
  omega

theorem NextLine.line_lt (h : s.NextLine c) (total : c.total = s.total) :
    c.rest = [] ∨ s.line < c.line := by
  refine h.imp_right fun ⟨_, line, split⟩ => ?_
  unfold Scanner.total at total
  rw [split, List.count_append, List.count_cons_self] at total
  unfold Scanner.line
  omega

/-- Dropping the rest of a line leads to the next one. -/
theorem nextLine_advance (s : Scanner) : s.NextLine (s.advance (Lexeme.lineLength s.rest)) := by
  by_cases feed : '\n' ∈ s.rest
  · obtain ⟨line, tail, split, no_feed⟩ := List.eq_append_cons_of_mem feed
    have length := (Lexeme.lineLength_feed no_feed tail).2
    rw [← split] at length
    have left : s.rest.drop (line.length + 1) = tail := by
      rw [split, List.drop_length_add_append]
      rfl
    have taken : s.rest.take (line.length + 1) = line ++ ['\n'] := by
      rw [split, List.take_length_add_append]
      rfl
    rw [length]
    refine .inr ⟨?_, line, ?_⟩
    · unfold advance
      dsimp only
      rw [taken, List.getLast?_concat]
      rfl
    · show s.rest = line ++ '\n' :: s.rest.drop (line.length + 1)
      rw [left, split]
  · refine .inl ?_
    show s.rest.drop _ = []
    have whole := (Lexeme.lineLength_feed feed []).1
    rw [whole, List.drop_length]

theorem suffix_advance (s : Scanner) (n : Nat) : (s.advance n).rest <:+ s.rest :=
  List.drop_suffix n s.rest

/-- A line feed is no blank. -/
theorem skipBlanks_line (s : Scanner) : s.skipBlanks.line = s.line := by
  have none : (s.rest.take (Lexeme.runLength (fun c => c == ' ' || c == '\t') s.rest)).count '\n'
      = 0 := by
    rw [List.count_eq_zero, Lexeme.runLength, ← List.prefix_iff_eq_take.1 (List.takeWhile_prefix _)]
    intro hm
    exact absurd (List.all_eq_true.1 List.all_takeWhile _ hm) (by decide)
  show s.feeds + _ + 1 = s.feeds + 1
  rw [none, Nat.add_zero]

/-- A token is on the line that it starts on, and the end of a line leads to the next one. -/
theorem next_ok_line (hn : s.next v = (.ok t, s')) :
    s'.rest <:+ s.rest ∧ s'.total = s.total ∧ t.line = s.line ∧
      (t.kind.isLineEnd = true → s.NextLine s') := by
  have total := s.total_next v
  rw [hn] at total
  have blanks := s.suffix_advance (Lexeme.runLength (fun c => c == ' ' || c == '\t') s.rest)
  have line : t.line = s.line := by
    rw [← s.skipBlanks_line]
    unfold Scanner.next at hn
    dsimp only at hn
    split at hn
    · obtain ⟨ht, -⟩ := Prod.mk.inj hn
      rw [← Except.ok.inj ht]
    · split at hn
      · obtain ⟨ht, -⟩ := Prod.mk.inj hn
        rw [← Except.ok.inj ht]
      · obtain ⟨ht, -⟩ := Prod.mk.inj hn
        rw [← Except.ok.inj ht]
      · exact nomatch (Prod.mk.inj hn).1
  rcases next_cases hn with ⟨hr, -, rfl⟩ | ⟨c, rest, n, hr, rfl, lexeme⟩
  · exact ⟨blanks, total, line, fun _ => .inl hr⟩
  · refine ⟨(suffix_advance _ n).trans blanks, total, line, fun ends => ?_⟩
    have length : n = Lexeme.lineLength (c :: rest) := by
      rcases lexeme with ⟨hl, -⟩ | ⟨hl, -⟩
      · by_cases feed : c = '\n'
        · subst feed
          obtain ⟨-, rfl⟩ := Lexeme.token.inj hl
          have := (Lexeme.lineLength_feed (List.not_mem_nil) rest).2
          exact this.symm
        by_cases hash : c = '#'
        · subst hash
          exact nomatch hl
        have inner := Lexeme.ofText_inner v s.skipBlanks.previous rest feed hash
        rw [hl] at inner
        exact absurd (ends.symm.trans inner) (by decide)
      · exact (Lexeme.ofText_comment hl).2
    rw [length, ← hr]
    exact (nextLine_advance _).of_suffix blanks

theorem next_of_rest_nil (h : s.rest = []) (hn : s.next v = (.ok t, s')) :
    t.kind = .endOfInput := by
  have blanks : s.skipBlanks.rest = [] := by
    show s.rest.drop _ = []
    rw [h, List.drop_nil]
  rcases next_cases hn with ⟨-, kind, -⟩ | ⟨c, rest, n, hr, -⟩
  · exact kind
  · exact nomatch blanks.symm.trans hr

theorem next_error_line (hn : s.next v = (.error e, s')) :
    s'.rest <:+ s.rest ∧ s'.total = s.total ∧ e.line = s.line ∧ s.NextLine s' := by
  have total := s.total_next v
  rw [hn] at total
  have blanks := s.suffix_advance (Lexeme.runLength (fun c => c == ' ' || c == '\t') s.rest)
  have line : e.line = s.line := by
    rw [← s.skipBlanks_line]
    unfold Scanner.next at hn
    dsimp only at hn
    split at hn
    · exact nomatch (Prod.mk.inj hn).1
    · split at hn
      · exact nomatch (Prod.mk.inj hn).1
      · exact nomatch (Prod.mk.inj hn).1
      · obtain ⟨he, -⟩ := Prod.mk.inj hn
        rw [← Except.error.inj he]
  obtain ⟨c, rest, n, hr, rfl, hl⟩ := next_error hn
  have drops := Lexeme.ofText_drops v s.skipBlanks.previous c rest
  rw [hl] at drops
  have resumed : s.skipBlanks.NextLine (s.skipBlanks.abandon n) := by
    rcases drops with rfl | rfl
    · rw [← hr]
      exact (nextLine_advance _).imp_right fun ⟨_, split⟩ => ⟨rfl, split⟩
    · refine .inl ?_
      show s.skipBlanks.rest.drop _ = []
      rw [hr, List.drop_length]
  exact ⟨(suffix_advance _ n).trans blanks, total, line, resumed.of_suffix blanks⟩

/-- What is left of a token that the scanner has been given up in. -/
theorem tear_cases (v : Vocabulary) (s : Scanner) (count : Nat) :
    (s.tear v count).rest = [] ∨ ∃ n, s.tear v count = s.skipBlanks.advance n := by
  unfold tear
  dsimp only
  split
  next nothing => exact .inl nothing
  next =>
    split
    · exact .inl rfl
    · exact .inr ⟨_, rfl⟩

end Scanner

namespace Source

variable {V : Vocabulary → Prop} {v : Vocabulary} {s s' s'' : Source} {t : Token} {n : Nat}

/-! ## § On the way through a line -/

/-- A source that is on the way from `s`, which was in the middle of a line. -/
structure Onward (s s' : Source) : Prop where
  suffix : s'.scanner.rest <:+ s.scanner.rest
  total : s'.scanner.total = s.scanner.total
  /-- What has been looked at was scanned just before, and at the start of a line if the last token
  taken ended its line. -/
  looked : ∀ t, s'.peeked = some t → ∃ c v, c.next v = (.ok t, s'.scanner) ∧
    (s'.atLineEnd = true → s.scanner.NextLine c)
  ended : s'.atLineEnd = true → s'.peeked = none → s.scanner.NextLine s'.scanner
  last : ∀ t, s'.peeked = some t → t.kind.isLineEnd = true → s.scanner.NextLine s'.scanner

/-- What has been looked at is on the line of the scanner, unless it ends its line. -/
theorem Onward.peeked_line (h : s.Onward s') (hp : s'.peeked = some t) :
    t.line ≤ s'.line ∧
      (t.kind.isLineEnd = true → s'.scanner.rest = [] ∨ t.line < s'.line) := by
  obtain ⟨c, v, hn, -⟩ := h.looked t hp
  obtain ⟨suffix, total, line, ends⟩ := Scanner.next_ok_line hn
  rw [line]
  exact ⟨Scanner.line_le suffix total, fun e => (ends e).line_lt total⟩

theorem Onward.step (h : s.Onward s') (k : s'.Step V s'') : s.Onward s'' := by
  cases k with
  | @look v t _ _ hp =>
    rcases peek_cases hp with ⟨-, rfl⟩ | ⟨fresh, scanner, hn, rfl⟩
    · exact h
    · obtain ⟨suffix, total, -, ends⟩ := Scanner.next_ok_line hn
      refine ⟨suffix.trans h.suffix, total.trans h.total, ?_, fun _ => nofun, ?_⟩
      · rintro _ ⟨⟩
        exact ⟨_, v, hn, fun e => h.ended e fresh⟩
      · rintro _ ⟨⟩ e
        exact (ends e).of_suffix h.suffix
  | @take t hp => exact ⟨h.suffix, h.total, nofun, fun e _ => h.last t hp e, nofun⟩

theorem Onward.path (h : s.Onward s') (k : s'.Path V s'') : s.Onward s'' := by
  induction k with
  | refl => exact h
  | tail _ k ih => exact ih.step k

/-- A source whose next token is not before line `n`; and if the last token taken ended its line, it
is behind that line. -/
structure Past (n : Nat) (s : Source) : Prop where
  peeked : ∀ t, s.peeked = some t → n ≤ t.line
  fresh : s.peeked = none → n ≤ s.line ∧ (s.atLineEnd = true → s.scanner.rest = [] ∨ n < s.line)

theorem Past.of_peeked (hp : s.peeked = some t) : s.Past t.line := by
  refine ⟨fun u hu => ?_, fun fresh => nomatch fresh.symm.trans hp⟩
  obtain rfl := Option.some.inj (hp.symm.trans hu)
  exact Nat.le_refl _

theorem Past.step (h : s'.Past n) (onward : s.Onward s') (k : s'.Step V s'') : s''.Past n := by
  cases k with
  | @look v t _ _ hp =>
    rcases peek_cases hp with ⟨-, rfl⟩ | ⟨fresh, scanner, hn, rfl⟩
    · exact h
    · obtain ⟨-, -, line, -⟩ := Scanner.next_ok_line hn
      refine ⟨?_, nofun⟩
      rintro _ ⟨⟩
      rw [line]
      exact (h.fresh fresh).1
  | @take t hp =>
    have before := h.peeked t hp
    obtain ⟨here, ends⟩ := onward.peeked_line hp
    refine ⟨nofun, fun _ => ⟨Nat.le_trans before here, fun e => ?_⟩⟩
    exact (ends e).imp_right fun later => Nat.lt_of_le_of_lt before later

theorem Past.path (h : s'.Past n) (onward : s.Onward s') (k : s'.Path V s'') : s''.Past n := by
  induction k with
  | refl => exact h
  | tail path k ih => exact ih.step (onward.path path) k

/-! ## § Dropping a line -/

/-- Reading goes on at the start of a line behind `s`, or nothing is left. -/
structure Resumes (s s' : Source) : Prop where
  fresh : s'.peeked = none
  start : s.scanner.NextLine s'.scanner

/-- A token that cannot be scanned takes its line with it. -/
theorem peek_error_resumes {e : LexError} (onward : s.Onward s') (hp : s'.peek v = (.error e, s'')) :
    s.Resumes s'' ∧ s''.scanner.rest <:+ s'.scanner.rest ∧
      s''.scanner.total = s'.scanner.total ∧ e.line = s'.line ∧
      (s''.scanner.rest = [] ∨ s'.line < s''.line) := by
  obtain ⟨fresh, scanner, hn, rfl⟩ := peek_error_cases hp
  obtain ⟨suffix, total, line, resumed⟩ := Scanner.next_error_line hn
  exact ⟨⟨fresh, resumed.of_suffix onward.suffix⟩, suffix, total, line, resumed.line_lt total⟩

/-- What is left when the rest of a line has been dropped. -/
theorem skipTokens_resumes (v : Vocabulary) {count : Nat} (onward : s.Onward s')
    (taken : s'.atLineEnd = true → s'.peeked = none) (enough : s'.unread < count) :
    s.Resumes (s'.skipTokens v count) ∧ s'.line ≤ (s'.skipTokens v count).line ∧
      ∀ n, s'.Past n →
        (s'.skipTokens v count).scanner.rest = [] ∨ n < (s'.skipTokens v count).line := by
  induction count generalizing s' with
  | zero => exact absurd enough (Nat.not_lt_zero _)
  | succ count ih =>
    unfold skipTokens
    split
    next ended =>
      have fresh := taken ended
      exact ⟨⟨fresh, onward.ended ended fresh⟩, Nat.le_refl _, fun n h => (h.fresh fresh).2 ended⟩
    next =>
      cases ht : s'.take v with
      | mk result s₁ =>
        cases result with
        | error e =>
          have hp := take_error_eq ht
          obtain ⟨resumes, suffix, total, -, later⟩ := peek_error_resumes onward hp
          have fresh := (peek_error_cases hp).1
          refine ⟨resumes, Scanner.line_le suffix total, fun n h => ?_⟩
          exact later.imp_right fun later => Nat.lt_of_le_of_lt (h.fresh fresh).1 later
        | ok t =>
          obtain ⟨between, hp, ht', peeked⟩ := peek_of_take ht
          rw [take_of_peeked peeked] at ht'
          obtain ⟨-, rfl⟩ := Prod.mk.inj ht'
          have look : s'.Step (fun _ => True) between := .look trivial hp
          have take := Step.take (V := fun _ => True) peeked
          have onward₁ := onward.step look
          have onward₂ := onward₁.step take
          have line : s'.line ≤ between.line := by
            rcases peek_cases hp with ⟨-, rfl⟩ | ⟨-, scanner, hn, rfl⟩
            · exact Nat.le_refl _
            · obtain ⟨suffix, total, -⟩ := Scanner.next_ok_line hn
              exact Scanner.line_le suffix total
          by_cases kind : t.kind = .endOfInput
          · -- Behind the end of the input there is nothing to drop.
            have ends : t.kind.isLineEnd = true := by rw [kind]; rfl
            have here : ({ between with peeked := none, atLineEnd := t.kind.isLineEnd } :
                Source).skipTokens v count
                = { between with peeked := none, atLineEnd := t.kind.isLineEnd } := by
              cases count with
              | zero => rfl
              | succ count => exact if_pos ends
            dsimp only
            rw [here]
            refine ⟨⟨rfl, onward₁.last t peeked ends⟩, line, fun n h => ?_⟩
            exact ((h.step onward look).step onward₁ take).fresh rfl |>.2 ends
          · have less := Nat.lt_of_lt_of_le (taken_lt peeked kind t.kind.isLineEnd)
              (moves_peek_ok hp).le
            obtain ⟨resumes, later, behind⟩ := ih onward₂ (fun _ => rfl)
              (Nat.lt_of_lt_of_le less (Nat.le_of_lt_succ enough))
            refine ⟨resumes, Nat.le_trans line later, fun n h => behind n ?_⟩
            exact (h.step onward look).step onward₁ take

theorem skipLine_resumes (v : Vocabulary) (onward : s.Onward s')
    (taken : s'.atLineEnd = true → s'.peeked = none) :
    s.Resumes (s'.skipLine v) ∧ s'.line ≤ (s'.skipLine v).line ∧
      ∀ n, s'.Past n → (s'.skipLine v).scanner.rest = [] ∨ n < (s'.skipLine v).line :=
  skipTokens_resumes v onward taken s'.unread_lt_remaining

/-- At the end of a line nothing is dropped. -/
theorem skipLine_ended (v : Vocabulary) (ended : s.atLineEnd = true) : s.skipLine v = s := by
  unfold skipLine remaining
  exact if_pos ended

/-- Nothing is dropped behind the end of the text. -/
theorem skipTokens_nothing (v : Vocabulary) (count : Nat) (fresh : s.peeked = none)
    (nothing : s.scanner.rest = []) :
    (s.skipTokens v count).peeked = none ∧ (s.skipTokens v count).scanner.rest = [] := by
  induction count generalizing s with
  | zero => exact ⟨fresh, nothing⟩
  | succ count ih =>
    unfold skipTokens
    split
    · exact ⟨fresh, nothing⟩
    · cases ht : s.take v with
      | mk result s₁ =>
        cases result with
        | error e =>
          obtain ⟨-, scanner, hn, rfl⟩ := peek_error_cases (take_error_eq ht)
          obtain ⟨suffix, -⟩ := Scanner.next_error_line hn
          exact ⟨fresh, List.suffix_nil.1 (nothing ▸ suffix)⟩
        | ok t =>
          obtain ⟨between, hp, ht', peeked⟩ := peek_of_take ht
          rw [take_of_peeked peeked] at ht'
          obtain ⟨-, rfl⟩ := Prod.mk.inj ht'
          refine ih rfl ?_
          rcases peek_cases hp with ⟨looked, -⟩ | ⟨-, scanner, hn, rfl⟩
          · cases fresh.symm.trans looked
          · obtain ⟨suffix, -⟩ := Scanner.next_ok_line hn
            exact List.suffix_nil.1 (nothing ▸ suffix)

/-- What is left when the reader has been given up, and the rest of the line has been dropped. -/
theorem skipTorn_resumes (v : Vocabulary) (count : Nat) (onward : s.Onward s')
    (inside : s'.atLineEnd = false) :
    s.Resumes (s'.skipTorn v count) ∧ ((s'.skipTorn v count).scanner.rest = [] ∨
      s'.line ≤ (s'.skipTorn v count).line) ∧
      ∀ n, s'.Past n →
        (s'.skipTorn v count).scanner.rest = [] ∨ n < (s'.skipTorn v count).line := by
  have within (s'' : Source) (same : s''.atLineEnd = s'.atLineEnd) (ended : s''.atLineEnd = true) :
      s''.peeked = none := nomatch inside.symm.trans (same.symm.trans ended)
  unfold skipTorn
  split
  next =>
    obtain ⟨resumes, later, behind⟩ := skipLine_resumes v onward (within s' rfl)
    exact ⟨resumes, .inr later, behind⟩
  next fresh =>
    rcases s'.scanner.tear_cases v count with nothing | ⟨n, torn⟩
    · have torn (count' : Nat) := skipTokens_nothing v count'
        (s := { s' with scanner := s'.scanner.tear v count }) fresh nothing
      obtain ⟨fresh', nothing'⟩ := torn _
      exact ⟨⟨fresh', .inl nothing'⟩, .inl nothing', fun _ _ => .inl nothing'⟩
    · -- A part of the token is lost.
      have suffix := ((s'.scanner.skipBlanks).suffix_advance n).trans (s'.scanner.suffix_advance _)
      have total : (s'.scanner.skipBlanks.advance n).total = s'.scanner.total :=
        (Scanner.total_advance _ n).trans (Scanner.total_advance _ _)
      rw [torn]
      have further := Scanner.line_le suffix total
      have onward' : s.Onward { s' with scanner := s'.scanner.skipBlanks.advance n } := {
        suffix := suffix.trans onward.suffix
        total := total.trans onward.total
        looked := fun t ht => nomatch fresh.symm.trans ht
        ended := fun e => nomatch inside.symm.trans e
        last := fun t ht => nomatch fresh.symm.trans ht }
      obtain ⟨resumes, later, behind⟩ := skipLine_resumes v onward' (within _ rfl)
      refine ⟨resumes, .inr (Nat.le_trans further later), fun m past => behind m ?_⟩
      refine ⟨fun t ht => (nomatch fresh.symm.trans ht), fun _ => ⟨?_, fun e => ?_⟩⟩
      · exact Nat.le_trans (past.fresh fresh).1 further
      · exact nomatch inside.symm.trans e

/-! ## § Sources between two lines -/

/-- A source that lines have been read from, with whatever workspaces. -/
inductive Begun : Source → Prop
  | ofText (text : List Char) : Begun (.ofText text)
  | read {s s' : Source} {w w' : Workspace} {line : Result Line} (h : Begun s) (machine : Machine)
    (hr : @Line.read machine s w = (line, s', w')) : Begun s'
  | goOn {s : Source} (h : Begun s) (text : List Char) : Begun (s.goOn text)

/-- A source that has nothing of its next line, or just its first token. -/
structure Resting (s : Source) : Prop where
  looked : ∀ t, s.peeked = some t → ∃ (c : Scanner) (v : Vocabulary), c.next v = (.ok t, s.scanner)
  inner : ∀ t, s.peeked = some t → t.kind.isLineEnd = false

theorem resting_of_fresh (h : s.peeked = none) : s.Resting :=
  ⟨fun _ ht => (nomatch h.symm.trans ht), fun _ ht => (nomatch h.symm.trans ht)⟩

/-- Reading a line starts in the middle of it. -/
theorem Resting.onward (h : s.Resting) : s.Onward { s with atLineEnd := false } where
  suffix := List.suffix_refl _
  total := rfl
  looked t ht := by
    obtain ⟨c, v, hn⟩ := h.looked t ht
    exact ⟨c, v, hn, fun e => nomatch e⟩
  ended := nofun
  last t ht ends := nomatch (h.inner t ht).symm.trans ends

/-! ## § What an error leaves -/

/-- The first token of a line behind `s`, with which nothing starts, is left to be read again. -/
structure Rereads (s s' : Source) (t : Token) : Prop where
  peeked : s'.peeked = some t
  kind : t.kind.startsNothing = true
  first : ∃ c v, s.scanner.NextLine c ∧ c.next v = (.ok t, s'.scanner)
  later : s.line < t.line

/-- Reading goes on just behind a quoted text that cannot be decoded. -/
structure BehindQuotes (s' : Source) (e : LexError) (t : Token) : Prop where
  kind : t.kind = .string
  line : e.line = t.line
  fault : Text.Quoted.decode t.text.toList = .error (.lex e.cause)
  fresh : s'.peeked = none
  here : ∃ (c : Scanner) (v : Vocabulary), c.next v = (.ok t, s'.scanner)

/-- The reader has come across the token on its way through a line, which began at `s`. -/
def Meets (s : Source) (t : Token) (halted : Source) : Prop :=
  ({ s with atLineEnd := false } : Source).Seen Reading.AnyVocabulary t halted

/-- Reading goes on behind the lines of all tokens that the reader has come across.  If the error
names a token, it is one of these. -/
structure LeavesBehind (s halted : Source) (e : ParseError) (s' : Source) : Prop where
  resumes : s.Resumes s'
  line : s'.scanner.rest = [] ∨ e.line ≤ s'.line
  met : ∀ t, s.Meets t halted → s'.scanner.rest = [] ∨ t.line < s'.line
  named : e.found ≠ none → ∃ t, s.Meets t halted ∧ e.line = t.line ∧ e.found = some t.describe

/-- What a parse error leaves, after the reader has been halted. -/
def LeftByParseError (s halted : Source) (e : ParseError) (s' : Source) : Prop :=
  s.LeavesBehind halted e s' ∨
    ∃ t, s.Rereads s' t ∧ s.Meets t halted ∧ e.line = t.line ∧ e.found = some t.describe

/-- What a lexical error leaves. -/
def LeftByLexError (s : Source) (e : LexError) (s' : Source) : Prop :=
  s.Resumes s' ∧ (s'.scanner.rest = [] ∨ e.line < s'.line) ∨ ∃ t, s'.BehindQuotes e t

/-- What is left of a source by something that is wrong with a line. -/
def LeftBy (s halted : Source) : Failure → Source → Prop
  | .error (.lex e), s' => s.LeftByLexError e s'
  | .error (.parse e), s' => s.LeftByParseError halted e s'
  | _, s' => s'.peeked = none

/-- Tokens on the way are past what can be read again. -/
theorem Onward.past_of_meets (resting : s.Resting) (h : s.Meets t s') : s'.Past t.line := by
  obtain ⟨between, before, hp, after⟩ := h
  exact (Past.of_peeked hp).path (resting.onward.path before) after

theorem Blamed.skipLine {e : ParseError} (resting : s.Resting)
    (h : ({ s with atLineEnd := false } : Source).Blamed Reading.AnyVocabulary e s')
    (v : Vocabulary) : s.LeftByParseError s' e (s'.skipLine v) := by
  obtain ⟨t, seen, line, found, left⟩ := h
  have ⟨between, before, hp, after⟩ := seen
  have onward := resting.onward.path (before.trans after)
  by_cases stuck : s'.atLineEnd = true ∧ ∃ u, s'.peeked = some u
  · obtain ⟨ended, u, hu⟩ := stuck
    obtain ⟨rfl, kind⟩ := left ended u hu
    obtain ⟨c, v', hn, start⟩ := onward.looked u hu
    rw [skipLine_ended v ended]
    refine .inr ⟨u, ⟨hu, kind, ⟨c, v', start ended, hn⟩, ?_⟩, seen, line, found⟩
    obtain ⟨-, total, here, -⟩ := Scanner.next_ok_line hn
    rw [here]
    refine ((start ended).line_lt (total.symm.trans onward.total)).resolve_left fun nothing => ?_
    have finished := Scanner.next_of_rest_nil nothing hn
    rw [finished] at kind
    exact nomatch kind
  · have taken : s'.atLineEnd = true → s'.peeked = none := by
      intro ended
      cases hu : s'.peeked with
      | none => rfl
      | some u => exact absurd ⟨ended, u, hu⟩ stuck
    obtain ⟨resumes, -, behind⟩ := skipLine_resumes v onward taken
    refine .inl ⟨resumes, ?_, fun u met => behind _ (Onward.past_of_meets resting met),
      fun _ => ⟨t, seen, line, found⟩⟩
    refine (behind _ (Onward.past_of_meets resting seen)).imp_right fun later => ?_
    rw [line]
    exact Int.ofNat_le.2 (Nat.le_of_lt later)

theorem Refused.skipLine {e : ParseError} (resting : s.Resting)
    (h : ({ s with atLineEnd := false } : Source).Refused V e s') (v : Vocabulary) :
    s.LeftByParseError s' e (s'.skipLine v) := by
  obtain ⟨resumes, line, behind⟩ := skipLine_resumes v (resting.onward.path h.path) h.taken
  exact .inl ⟨resumes, .inr (Int.le_trans h.line (Int.ofNat_le.2 line)),
    fun t met => behind _ (Onward.past_of_meets resting met), fun found => absurd h.found found⟩

/-- The error is reported at the line of the scanner. -/
theorem Path.skipTorn (resting : s.Resting)
    (path : ({ s with atLineEnd := false } : Source).Path V s') (inside : s'.atLineEnd = false)
    (v : Vocabulary) (count : Nat) :
    s.LeftByParseError s' ⟨.tooDeep, s'.line, [], none⟩ (s'.skipTorn v count) := by
  obtain ⟨resumes, line, behind⟩ :=
    skipTorn_resumes v count (resting.onward.path path) inside
  exact .inl ⟨resumes, line.imp_right Int.ofNat_le.2,
    fun t met => behind _ (Onward.past_of_meets resting met), fun found => absurd rfl found⟩

theorem Malformed.left {e : LexError} (resting : s.Resting)
    (h : ({ s with atLineEnd := false } : Source).Malformed V e s') :
    s.LeftByLexError e { s' with peeked := none } := by
  obtain ⟨between, path, ⟨v, hp⟩ | ⟨t, hp, kind, rfl, fault, line⟩⟩ := h
  · have onward := resting.onward.path path
    obtain ⟨resumes, -, -, line, later⟩ := peek_error_resumes onward hp
    refine .inl ⟨⟨rfl, resumes.start⟩, later.imp_right fun later => ?_⟩
    rw [line]
    exact Int.ofNat_lt.2 later
  · obtain ⟨c, v, hn, -⟩ := (resting.onward.path path).looked t hp
    exact .inr ⟨t, kind, line, fault, rfl, c, v, hn⟩

theorem Resting.recover {o : Obstacle} (resting : s.Resting)
    (h : ({ s with atLineEnd := false } : Source).Stopped Reading.AnyVocabulary o s')
    (v : Vocabulary) : s.LeftBy s' (Line.recover o v s').1 (Line.recover o v s').2 := by
  cases o with
  | lex e => exact Malformed.left resting h
  | parse e =>
    rcases h with blamed | refused
    · exact blamed.skipLine resting v
    · exact refused.skipLine resting v
  | tooDeep count => exact Path.skipTorn resting h.1 h.2 v count
  | fault f => exact h.2

theorem LeftByParseError.resting {e : ParseError} (h : s.LeftByParseError s'' e s') :
    s'.Resting := by
  rcases h with left | ⟨t, rereads, -⟩
  · exact resting_of_fresh left.resumes.fresh
  · refine ⟨fun u hu => ?_, fun u hu => ?_⟩
    · obtain rfl := Option.some.inj (rereads.peeked.symm.trans hu)
      obtain ⟨c, v, -, hn⟩ := rereads.first
      exact ⟨c, v, hn⟩
    · obtain rfl := Option.some.inj (rereads.peeked.symm.trans hu)
      have kind := rereads.kind
      cases hk : t.kind <;> rw [hk] at kind <;> first | rfl | contradiction

theorem LeftByLexError.resting {e : LexError} (h : s.LeftByLexError e s') : s'.Resting := by
  rcases h with ⟨resumes, -⟩ | ⟨t, behind⟩
  · exact resting_of_fresh resumes.fresh
  · exact resting_of_fresh behind.fresh

/-- What is left when a line has been read, or could not be. -/
inductive Left [Machine] (s : Source) (w : Workspace) : Result Line → Source → Prop
  | read {line : Line} {s' : Source} (fresh : s'.peeked = none) : Left s w (.ok line) s'
  | halted {obstacle : Obstacle} {r : Reader} {failure : Failure} {s' : Source}
    (run : Line.reading.run ⟨{ s with atLineEnd := false }, w, none⟩ = .error obstacle r)
    (left : s.LeftBy r.source failure s') : Left s w (.error failure) s'

theorem Resting.read [Machine] {w w' : Workspace} {line : Result Line} (resting : s.Resting)
    (hr : Line.read s w = (line, s', w')) : s.Left w line s' := by
  have outcome := Line.reading_path (r := ⟨{ s with atLineEnd := false }, w, none⟩) rfl
  cases Line.attempt hr with
  | @whole line' _ hx =>
    have finished := outcome.of_ok hx
    cases line' with
    | statements => exact .read finished.2.1
    | _ => exact .read finished
  | @halted o r' hx =>
    exact .halted hx (resting.recover (outcome.of_error hx) r'.workspace.vocabulary)

theorem LeftBy.resting {failure : Failure} (h : s.LeftBy s'' failure s') : s'.Resting := by
  unfold LeftBy at h
  split at h
  · exact h.resting
  · exact h.resting
  · exact resting_of_fresh h

theorem Left.resting [Machine] {w : Workspace} {line : Result Line} (h : s.Left w line s') :
    s'.Resting := by
  cases h with
  | read fresh => exact resting_of_fresh fresh
  | halted _ left => exact left.resting

theorem Begun.resting (h : s.Begun) : s.Resting := by
  induction h with
  | ofText text => exact resting_of_fresh rfl
  | goOn _ text => exact resting_of_fresh rfl
  | read _ machine hr ih => exact (@Resting.read _ _ machine _ _ _ ih hr).resting

end Source

namespace Line

variable {s s' : Source} {w w' : Workspace}

/-- **Behind a parse error reading goes on at the start of a later line**, which is behind the lines
of all tokens that the reader has come across, or nothing is left.  The exception is a line of a body
that starts with a token which starts nothing: that token is still there, and its line will be read
again. -/
theorem read_parseError [Machine] {e : ParseError} (begun : s.Begun)
    (h : read s w = (.error (.error (.parse e)), s', w')) :
    ∃ obstacle r, reading.run ⟨{ s with atLineEnd := false }, w, none⟩ = .error obstacle r ∧
      s.LeftByParseError r.source e s' := by
  obtain _ | ⟨run, left⟩ := begun.resting.read h
  exact ⟨_, _, run, left⟩

/-- Why a line is not read, if it is not. -/
def failure? : Result Line → Option Failure
  | .ok _ => none
  | .error failure => some failure

theorem read_of_failure [Machine] (failure : Failure) (left : Source)
    (h : failure? (read s w).1 = some failure ∧ (read s w).2.1 = left) :
    read s w = (.error failure, left, (read s w).2.2) := by
  obtain ⟨h, source⟩ := h
  refine Prod.ext ?_ (Prod.ext source rfl)
  cases hr : (read s w).1 with
  | ok => exact nomatch hr ▸ h
  | error =>
    rw [hr] at h
    exact congrArg Except.error (Option.some.inj h)

/-- A body whose second line starts with a bracket. -/
def bracketed : Source := .ofText "op f x =\n] 5\n".toList

/-- The bracket is refused, and it is what is read next. -/
theorem read_parseError_bracketed : ∃ e s' w' halted,
    read bracketed (.ofSettings {}) = (.error (.error (.parse e)), s', w') ∧
      bracketed.LeftByParseError halted e s' ∧ e.line = 2 ∧
      s'.peeked = some ⟨.rightBracket, "]", 2⟩ := by
  have refused := read_of_failure
    (.error (.parse ⟨.unexpected "RightBracket(])", 2, ["operand"], some "RightBracket(])"⟩))
    ⟨⟨" 5\n".toList, some ']', 1⟩, some ⟨.rightBracket, "]", 2⟩, true⟩
    (show _ ∧ (read bracketed (.ofSettings {})).2.1 = _ by decide +kernel)
  obtain ⟨_, r, -, left⟩ := read_parseError (.ofText _) refused
  exact ⟨_, _, _, r.source, refused, left, rfl, rfl⟩

/-- **Behind a lexical error reading goes on at the start of a later line**, or nothing is left.  The
exception is a quoted text that cannot be decoded: reading goes on just behind it. -/
theorem read_lexError [Machine] {e : LexError} (begun : s.Begun)
    (h : read s w = (.error (.error (.lex e)), s', w')) : s.LeftByLexError e s' := by
  obtain _ | ⟨-, left⟩ := begun.resting.read h
  exact left

/-- A quoted text that cannot be decoded, and a number behind it. -/
def misquoted : Source := .ofText "'\\q' 5\n".toList

/-- The number is what is read next. -/
theorem read_lexError_misquoted : ∃ e s' w',
    read misquoted (.ofSettings {}) = (.error (.error (.lex e)), s', w') ∧
      misquoted.LeftByLexError e s' ∧ e.line = 1 ∧ s'.peeked = none ∧
      s'.scanner.rest = " 5\n".toList := by
  have refused := read_of_failure (.error (.lex ⟨.unknownEscape 'q', 1⟩))
    ⟨⟨" 5\n".toList, some '\'', 0⟩, none, false⟩
    (show _ ∧ (read misquoted (.ofSettings {})).2.1 = _ by decide +kernel)
  exact ⟨_, _, _, refused, read_lexError (.ofText _) refused, rfl, rfl, rfl⟩

end Line

end ArrayCalc
