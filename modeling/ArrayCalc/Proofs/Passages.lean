import ArrayCalc.Proofs.Copies
import ArrayCalc.Proofs.FirstLines

/-!
# Passages

A passage is a part of a text that starts and ends with a line.  A scanner of the passage alone and
one of the whole text give the same tokens as long as there is a line feed to come in the passage,
apart from the numbers of their lines.  Raw quotes are what a passage must not have, since raw text
goes on behind it.
-/

namespace ArrayCalc

/-! ## § Later lines -/

/-- The number of a line when `k` lines are put before it.  Zero is no number of a line. -/
def laterLine (k : Nat) (line : Int) : Int := if line = 0 then 0 else line + k

theorem laterLine_begun (k feeds : Nat) :
    laterLine k ((feeds + 1 : Nat) : Int) = ((feeds + k + 1 : Nat) : Int) := by
  have known : ((feeds + 1 : Nat) : Int) ≠ 0 := Int.natCast_ne_zero.2 (Nat.succ_ne_zero _)
  rw [laterLine, if_neg known]
  omega

theorem laterLine_zero (line : Int) : laterLine 0 line = line := by
  unfold laterLine
  split
  next h => exact h.symm
  next => exact Int.add_zero line

namespace Token

def later (k : Nat) (t : Token) : Token :=
  { t with line := if t.line = 0 then 0 else t.line + k }

theorem later_text (k : Nat) (t : Token) : (t.later k).text = t.text := rfl

theorem later_line (k : Nat) (t : Token) : ((t.later k).line : Int) = laterLine k t.line := by
  show ((if t.line = 0 then 0 else t.line + k : Nat) : Int) = _
  unfold laterLine
  by_cases h : t.line = 0
  · rw [if_pos h, if_pos (by rw [h]; rfl)]
    rfl
  · rw [if_neg h, if_neg (Int.natCast_ne_zero.2 h)]
    exact Int.natCast_add _ _

end Token

def LexError.later (k : Nat) (e : LexError) : LexError := { e with line := laterLine k e.line }

def ParseError.later (k : Nat) (e : ParseError) : ParseError :=
  { e with line := laterLine k e.line }

/-- What a scanner gives when `k` lines are put before the text. -/
def laterResult (k : Nat) : Except LexError Token → Except LexError Token
  | .ok t => .ok (t.later k)
  | .error e => .error (e.later k)

/-- What stands around a passage. -/
structure Surroundings where
  /-- The number of line feeds before it. -/
  feeds : Nat
  /-- The text behind it. -/
  behind : List Char

variable {p : Surroundings} {v : Vocabulary}

namespace Scanner

variable {s s' : Scanner} {n : Nat} {a : Token} {e : LexError} {c : Char} {rest : List Char}

/-- The scanner of the whole text, at the same place as that of the passage. -/
def amid (p : Surroundings) (s : Scanner) : Scanner :=
  ⟨s.rest ++ p.behind, s.previous, s.feeds + p.feeds⟩

/-- The text in front of the scanner has a line feed and no raw quotes, or there is no more behind
it. -/
def Shut (p : Surroundings) (s : Scanner) : Prop :=
  p.behind = [] ∨ '\n' ∈ s.rest ∧ Text.Quoted.backquote ∉ s.rest

theorem amid_rest_cons (hr : s.rest = c :: rest) : (s.amid p).rest = c :: (rest ++ p.behind) := by
  rw [amid, hr]
  rfl

/-- What is taken of the passage is taken of the whole text. -/
theorem take_amid (hn : p.behind = [] ∨ n ≤ s.rest.length) :
    (s.amid p).rest.take n = s.rest.take n := by
  show (s.rest ++ p.behind).take n = _
  rcases hn with hp | hn
  · rw [hp, List.append_nil]
  · exact List.take_append_of_le_length hn

theorem amid_advance (hn : p.behind = [] ∨ n ≤ s.rest.length) :
    (s.amid p).advance n = (s.advance n).amid p := by
  have taken : (s.rest ++ p.behind).take n = s.rest.take n := take_amid hn
  have left : (s.rest ++ p.behind).drop n = s.rest.drop n ++ p.behind := by
    rcases hn with hp | hn
    · rw [hp, List.append_nil, List.append_nil]
    · exact List.drop_append_of_le_length hn
  unfold advance amid
  dsimp only
  rw [taken, left, Nat.add_right_comm]

theorem runLength_shut (hs : s.Shut p) {q : Char → Bool} (hq : q '\n' = false) :
    Lexeme.runLength q (s.rest ++ p.behind) = Lexeme.runLength q s.rest := by
  rcases hs with hp | ⟨feed, -⟩
  · rw [hp, List.append_nil]
  · obtain ⟨line, tail, rest⟩ := List.append_of_mem feed
    rw [rest, List.append_assoc, List.cons_append, Lexeme.runLength_feed hq,
      Lexeme.runLength_feed hq]

theorem amid_skipBlanks (hs : s.Shut p) : (s.amid p).skipBlanks = s.skipBlanks.amid p := by
  show (s.amid p).advance (Lexeme.runLength _ (s.rest ++ p.behind)) = _
  rw [runLength_shut hs (by rfl)]
  exact amid_advance (.inr (Lexeme.runLength_le _ _))

/-- A line feed is no blank. -/
theorem shut_skipBlanks (hs : s.Shut p) : s.skipBlanks.Shut p := by
  refine hs.imp_right fun ⟨feed, raw⟩ => ⟨?_, fun hm => raw (List.mem_of_mem_drop hm)⟩
  show '\n' ∈ s.rest.drop _
  obtain ⟨line, tail, rest⟩ := List.append_of_mem feed
  rw [rest, Lexeme.runLength_feed (by rfl), Lexeme.drop_feed (Lexeme.runLength_le _ _)]
  exact List.mem_append_right _ List.mem_cons_self

/-- The first lexeme of a text with a line feed, and the line that it is on. -/
theorem first_line (feed : '\n' ∈ c :: rest) (raw : Text.Quoted.backquote ∉ c :: rest)
    (v : Vocabulary) (previous : Option Char) :
    ∃ line tail, c :: rest = line ++ '\n' :: tail ∧ '\n' ∉ line ∧
      (∀ more, Lexeme.ofText v previous c (rest ++ more) = Lexeme.ofText v previous c rest) ∧
      (c = '\n' ∧ line = [] ∧ Lexeme.ofText v previous c rest = .token .newline 1 ∨
        c ≠ '\n' ∧ Lexeme.EndsBy line.length (Lexeme.ofText v previous c rest)) := by
  by_cases hc : c = '\n'
  · subst hc
    exact ⟨[], rest, rfl, List.not_mem_nil, fun more => rfl, .inl ⟨rfl, rfl, rfl⟩⟩
  · have feed : '\n' ∈ rest := (List.mem_cons.1 feed).resolve_left fun e => hc e.symm
    obtain ⟨line, tail, rfl, no_feed⟩ := List.eq_append_cons_of_mem feed
    have not_raw : c ≠ Text.Quoted.backquote := fun e => raw (e ▸ List.mem_cons_self)
    have first : '\n' ∉ c :: line := by
      rw [List.mem_cons, not_or]
      exact ⟨fun e => hc e.symm, no_feed⟩
    obtain ⟨lexeme, ends, settled⟩ := Lexeme.ofText_settles not_raw first v previous
    dsimp only at settled
    refine ⟨c :: line, tail, rfl, first, fun more => ?_, .inr ⟨hc, ?_⟩⟩
    · rw [List.append_assoc, List.cons_append, settled, settled]
    · rw [settled]
      exact ends

/-- Where nothing is left of a passage, nothing stands behind it. -/
theorem Shut.behind_nil (hs : s.Shut p) (hr : s.rest = []) : p.behind = [] := by
  rcases hs with hp | ⟨feed, -⟩
  · exact hp
  · rw [hr] at feed
    exact nomatch feed

theorem amid_rest_nil (hs : s.Shut p) (hr : s.rest = []) : (s.amid p).rest = [] := by
  rw [amid, hr, hs.behind_nil hr]
  rfl

/-- The next lexeme of the passage is that of the whole text, and within the passage. -/
theorem lexeme_shut (hs : s.Shut p) (hr : s.rest = c :: rest) (v : Vocabulary)
    (previous : Option Char) :
    Lexeme.ofText v previous c (rest ++ p.behind) = Lexeme.ofText v previous c rest ∧
      (p.behind = [] ∨ (Lexeme.ofText v previous c rest).length ≤ s.rest.length) := by
  rcases hs with hp | ⟨feed, raw⟩
  · rw [hp, List.append_nil]
    exact ⟨rfl, .inl rfl⟩
  · rw [hr] at feed raw
    obtain ⟨line, tail, split, -, same, first⟩ := first_line feed raw v previous
    refine ⟨same p.behind, .inr ?_⟩
    rw [hr, split, List.length_append, List.length_cons]
    rcases first with ⟨-, rfl, newline⟩ | ⟨-, ends⟩
    · rw [newline]
      exact Nat.le_add_left 1 _
    · have := ends.length_le
      omega

/-- **In a passage the scanner of the whole text gives the same tokens.** -/
theorem amid_next (hs : s.Shut p) (v : Vocabulary) :
    (s.amid p).next v = (laterResult p.feeds (s.next v).1, (s.next v).2.amid p) := by
  have shut := shut_skipBlanks hs
  have line : (s.skipBlanks.amid p).line = s.skipBlanks.line + p.feeds :=
    Nat.add_right_comm _ _ _
  unfold next
  rw [amid_skipBlanks hs]
  dsimp only
  cases hr : s.skipBlanks.rest with
  | nil =>
    rw [amid_rest_nil shut hr, line]
    rfl
  | cons c rest =>
    obtain ⟨same, bound⟩ := lexeme_shut shut hr v s.skipBlanks.previous
    have taken := amid_advance bound
    have previous : (s.skipBlanks.amid p).previous = s.skipBlanks.previous := rfl
    rw [amid_rest_cons hr, previous]
    dsimp only
    rw [same]
    cases hl : Lexeme.ofText v s.skipBlanks.previous c rest with
    | token kind n =>
      rw [hl] at taken bound
      have word := take_amid (n := n) bound
      rw [amid_rest_cons hr, hr] at word
      dsimp only
      rw [word, line]
      exact Prod.ext rfl taken
    | comment n =>
      rw [hl] at taken
      dsimp only
      rw [line]
      exact Prod.ext rfl taken
    | bad cause n =>
      rw [hl] at taken
      have error : ((s.skipBlanks.amid p).line : Int) = laterLine p.feeds s.skipBlanks.line := by
        exact (laterLine_begun p.feeds s.skipBlanks.feeds).symm
      dsimp only
      rw [error]
      have abandoned := congrArg (fun s : Scanner => { s with previous := none }) taken
      exact Prod.ext rfl abandoned

theorem Shut.lineLength (hs : s.Shut p) :
    Lexeme.lineLength (s.rest ++ p.behind) = Lexeme.lineLength s.rest := by
  rcases hs with hp | ⟨feed, -⟩
  · rw [hp, List.append_nil]
  · obtain ⟨line, tail, rest, no_feed⟩ := List.eq_append_cons_of_mem feed
    rw [rest, List.append_assoc, List.cons_append, (Lexeme.lineLength_feed no_feed _).2,
      (Lexeme.lineLength_feed no_feed _).2]

/-- The rest of a line is in the passage. -/
theorem amid_restOfLine (hs : s.Shut p) :
    (s.amid p).restOfLine = (s.restOfLine.1, s.restOfLine.2.amid p) := by
  unfold restOfLine
  have previous : (s.amid p).previous = s.previous := rfl
  rw [previous]
  cases s.previous with
  | none => rfl
  | some c =>
    have bound := Lexeme.lineLength_le s.rest
    have whole : (s.amid p).rest = s.rest ++ p.behind := rfl
    dsimp only
    rw [whole, hs.lineLength, amid_advance (.inr bound), List.take_append_of_le_length bound]

/-! ## § Passages that end with a blank line -/

/-- A text without raw quotes that ends with a blank line. -/
def Sealed (text : List Char) : Prop :=
  ∃ body, text = body ++ ['\n', '\n'] ∧ Text.Quoted.backquote ∉ body

theorem Sealed.feed {text : List Char} (h : Sealed text) : '\n' ∈ text := by
  obtain ⟨body, rfl, -⟩ := h
  exact List.mem_append_right _ List.mem_cons_self

theorem Sealed.raw {text : List Char} (h : Sealed text) : Text.Quoted.backquote ∉ text := by
  obtain ⟨body, rfl, raw⟩ := h
  intro hm
  rcases List.mem_append.1 hm with hm | hm
  · exact raw hm
  · exact absurd hm (by decide)

theorem Sealed.shut (h : Sealed s.rest) (p : Surroundings) : s.Shut p := .inr ⟨h.feed, h.raw⟩

/-- A sealed text behind a part of its first line, and behind all of that. -/
theorem Sealed.drop {text line tail : List Char} (h : Sealed text)
    (split : text = line ++ '\n' :: tail) (feed : '\n' ∉ line) :
    (∀ n ≤ line.length, Sealed (text.drop n)) ∧
      (Sealed (text.drop (line.length + 1)) ∨ text.drop (line.length + 1) = ['\n']) := by
  obtain ⟨body, rfl, raw⟩ := h
  obtain ⟨more, rfl, behind⟩ :
      ∃ more, body = line ++ more ∧ '\n' :: tail = more ++ ['\n', '\n'] := by
    rcases List.append_eq_append_iff.1 split with ⟨more, rfl, behind⟩ | ⟨more, rfl, behind⟩
    · -- The first line has no line feed, so it does not go beyond the body.
      cases more with
      | nil => exact ⟨[], by rw [List.append_nil, List.append_nil], behind.symm⟩
      | cons c more =>
        obtain rfl : '\n' = c := (List.cons.inj behind).1
        exact absurd (List.mem_append_right _ List.mem_cons_self) feed
    · exact ⟨more, rfl, behind⟩
  constructor
  · intro n hn
    refine ⟨(line ++ more).drop n, ?_, fun hm => raw (List.mem_of_mem_drop hm)⟩
    exact List.drop_append_of_le_length (by rw [List.length_append]; omega)
  · have rest : (line ++ more ++ ['\n', '\n']).drop (line.length + 1) = tail := by
      rw [split, List.drop_append, List.drop_of_length_le (Nat.le_succ _), List.nil_append,
        Nat.add_sub_cancel_left]
      rfl
    rw [rest]
    cases more with
    | nil => exact .inr (List.cons.inj behind).2
    | cons c more =>
      obtain ⟨rfl, rfl⟩ := List.cons.inj behind
      refine .inl ⟨more, rfl, fun hm => raw ?_⟩
      exact List.mem_append_right _ (List.mem_cons_of_mem _ hm)

theorem Sealed.skipBlanks (h : Sealed s.rest) : Sealed s.skipBlanks.rest := by
  obtain ⟨line, tail, split, feed⟩ := List.eq_append_cons_of_mem h.feed
  refine (h.drop split feed).1 _ ?_
  rw [split, Lexeme.runLength_feed (by rfl)]
  exact Lexeme.runLength_le _ _

/-- What the first lexeme of a sealed text leaves of it. -/
theorem Sealed.lexeme (h : Sealed (c :: rest)) (v : Vocabulary) (previous : Option Char) :
    match Lexeme.ofText v previous c rest with
    | .token kind n => kind ≠ .endOfInput ∧ (Sealed ((c :: rest).drop n) ∨
        kind = .newline ∧ (c :: rest).drop n = ['\n'])
    | .comment n | .bad _ n => Sealed ((c :: rest).drop n) ∨ (c :: rest).drop n = ['\n'] := by
  obtain ⟨line, tail, split, feed, -, first⟩ := first_line h.feed h.raw v previous
  obtain ⟨within, behind⟩ := h.drop split feed
  rcases first with ⟨-, rfl, newline⟩ | ⟨hc, ends⟩
  · rw [newline]
    exact ⟨nofun, behind.imp_right fun last => ⟨rfl, last⟩⟩
  · cases hl : Lexeme.ofText v previous c rest with
    | token kind n =>
      rw [hl] at ends
      cases ends with
      | token _ bound =>
        have hash : c ≠ '#' := by
          rintro rfl
          exact nomatch hl
        have inner := Lexeme.ofText_inner v previous rest hc hash
        rw [hl] at inner
        refine ⟨?_, .inl (within n bound)⟩
        rintro rfl
        exact nomatch inner
    | comment n =>
      rw [hl] at ends
      cases ends
      exact behind
    | bad cause n =>
      rw [hl] at ends
      cases ends
      exact behind

/-- Where a lexeme error ends. -/
theorem next_error (h : s.next v = (.error e, s')) :
    ∃ c rest n, s.skipBlanks.rest = c :: rest ∧ s' = s.skipBlanks.abandon n ∧
      Lexeme.ofText v s.skipBlanks.previous c rest = .bad e.cause n := by
  unfold Scanner.next at h
  dsimp only at h
  split at h
  · exact nomatch (Prod.mk.inj h).1
  next c rest hr =>
    split at h
    · exact nomatch (Prod.mk.inj h).1
    · exact nomatch (Prod.mk.inj h).1
    next cause n hl =>
      obtain ⟨he, rfl⟩ := Prod.mk.inj h
      obtain rfl := Except.error.inj he
      exact ⟨c, rest, n, hr, rfl, hl⟩

/-- A token leaves a sealed text sealed, or it ends the line before the last one. -/
theorem Sealed.next_ok (h : Sealed s.rest) (hn : s.next v = (.ok a, s')) :
    a.kind ≠ .endOfInput ∧ (Sealed s'.rest ∨ a.kind = .newline ∧ s'.rest = ['\n']) := by
  have blanks := Sealed.skipBlanks h
  rcases next_cases hn with ⟨hr, -⟩ | ⟨c, rest, n, hr, rfl, lexeme⟩
  · rw [hr] at blanks
    exact nomatch blanks.feed
  · rw [hr] at blanks
    have left := blanks.lexeme v s.skipBlanks.previous
    show _ ∧ (Sealed (s.skipBlanks.rest.drop n) ∨ _ ∧ s.skipBlanks.rest.drop n = _)
    rw [hr]
    rcases lexeme with ⟨hl, -⟩ | ⟨hl, hk⟩
    · rw [hl] at left
      exact left
    · rw [hl] at left
      rw [hk]
      exact ⟨nofun, left.imp_right fun last => ⟨rfl, last⟩⟩

theorem Sealed.next_error (h : Sealed s.rest) (hn : s.next v = (.error e, s')) :
    Sealed s'.rest ∨ s'.rest = ['\n'] := by
  have blanks := Sealed.skipBlanks h
  obtain ⟨c, rest, n, hr, rfl, hl⟩ := Scanner.next_error hn
  rw [hr] at blanks
  have left := blanks.lexeme v s.skipBlanks.previous
  rw [hl] at left
  show Sealed (s.skipBlanks.rest.drop n) ∨ s.skipBlanks.rest.drop n = _
  rw [hr]
  exact left

theorem Sealed.restOfLine (h : Sealed s.rest) :
    Sealed s.restOfLine.2.rest ∨ s.restOfLine.2.rest = ['\n'] := by
  unfold Scanner.restOfLine
  cases s.previous with
  | none => exact .inl h
  | some c =>
    obtain ⟨line, tail, split, feed⟩ := List.eq_append_cons_of_mem h.feed
    have length : Lexeme.lineLength s.rest = line.length + 1 := by
      rw [split]
      exact (Lexeme.lineLength_feed feed tail).2
    show Sealed (s.rest.drop (Lexeme.lineLength s.rest)) ∨
      s.rest.drop (Lexeme.lineLength s.rest) = _
    rw [length]
    exact (h.drop split feed).2

/-- The last line of a sealed text is blank. -/
theorem next_last (h : s.rest = ['\n']) (v : Vocabulary) :
    s.next v = (.ok ⟨.newline, "\n", s.line⟩, ⟨[], none, s.feeds + 1⟩) := by
  obtain ⟨text, previous, feeds⟩ := s
  obtain rfl : text = ['\n'] := h
  rfl

/-! ## § What is left to scan -/

/-- The number of line feeds, those that have been scanned included. -/
def total (s : Scanner) : Nat := s.feeds + s.rest.count '\n'

theorem total_advance (s : Scanner) (n : Nat) : (s.advance n).total = s.total := by
  show s.feeds + (s.rest.take n).count '\n' + (s.rest.drop n).count '\n' = _
  rw [Nat.add_assoc, ← List.count_append, List.take_append_drop]
  rfl

theorem total_next (s : Scanner) (v : Vocabulary) : (s.next v).2.total = s.total := by
  have blanks : s.skipBlanks.total = s.total := s.total_advance _
  unfold next
  dsimp only
  split
  · exact blanks
  · split
    all_goals exact (total_advance _ _).trans blanks

theorem total_restOfLine (s : Scanner) : s.restOfLine.2.total = s.total := by
  unfold restOfLine
  cases s.previous with
  | none => rfl
  | some c => exact total_advance _ _

theorem length_restOfLine_le (s : Scanner) : s.restOfLine.2.rest.length ≤ s.rest.length := by
  unfold restOfLine
  cases s.previous with
  | none => exact Nat.le_refl _
  | some c =>
    show (s.rest.drop _).length ≤ _
    rw [List.length_drop]
    exact Nat.sub_le _ _

/-- What is taken from a text that is not empty. -/
theorem length_advance_lt {n : Nat} (hr : s.rest = c :: rest) (hn : 0 < n) :
    (s.advance n).rest.length < s.rest.length := by
  show (s.rest.drop n).length < _
  rw [List.length_drop, hr, List.length_cons]
  omega

/-- Every token takes something, the end of the input aside. -/
theorem length_next_ok (hn : s.next v = (.ok a, s')) :
    s'.rest.length ≤ s.rest.length ∧
      (a.kind ≠ .endOfInput → s'.rest.length < s.rest.length) := by
  have blanks := s.length_skipBlanks_le
  rcases next_cases hn with ⟨-, hk, rfl⟩ | ⟨c, rest, n, hr, rfl, lexeme⟩
  · exact ⟨blanks, fun h => absurd hk h⟩
  · have pos := Lexeme.ofText_pos v s.skipBlanks.previous c rest
    have taken : 0 < n := by
      rcases lexeme with ⟨hl, -⟩ | ⟨hl, -⟩
      · rwa [hl] at pos
      · rwa [hl] at pos
    have shorter := Nat.lt_of_lt_of_le (length_advance_lt hr taken) blanks
    exact ⟨Nat.le_of_lt shorter, fun _ => shorter⟩

theorem length_next_error (hn : s.next v = (.error e, s')) : s'.rest.length < s.rest.length := by
  obtain ⟨c, rest, n, hr, rfl, hl⟩ := next_error hn
  have pos := Lexeme.ofText_pos v s.skipBlanks.previous c rest
  rw [hl] at pos
  exact Nat.lt_of_lt_of_le (length_advance_lt hr pos) s.length_skipBlanks_le

/-! ## § Torn tokens -/

/-- What a scanner that is given up in a passage comes to, alone and in the whole text. -/
inductive Torn (p : Surroundings) (s : Scanner) : Scanner → Scanner → Prop
  | heard {s' : Scanner} (kept : Sealed s.rest → Sealed s'.rest) (total : s'.total = s.total)
    (le : s'.rest.length ≤ s.rest.length) : Torn p s s' (s'.amid p)
  /-- The end of a line is lost, and then all lines behind it are lost, too. -/
  | deaf {s' : Scanner} (rest : s'.rest = []) (previous : s'.previous = none)
    (less : s'.total < s.total) : Torn p s s' (s'.amid ⟨p.feeds, []⟩)

/-- A part of the first lexeme of a sealed text, unless it is lost with the end of its line. -/
theorem Sealed.part (h : Sealed (c :: rest)) (v : Vocabulary) (previous : Option Char) (count : Nat)
    (inner : ((c :: rest).take (min count (Lexeme.ofText v previous c rest).length)).getLast?
      ≠ some '\n') :
    Sealed ((c :: rest).drop (min count (Lexeme.ofText v previous c rest).length)) := by
  obtain ⟨line, tail, split, feed, -, first⟩ := first_line h.feed h.raw v previous
  have bound : (Lexeme.ofText v previous c rest).length ≤ line.length + 1 := by
    rcases first with ⟨-, rfl, newline⟩ | ⟨-, ends⟩
    · rw [newline]
      exact Nat.le_refl 1
    · exact ends.length_le
  generalize hn : min count (Lexeme.ofText v previous c rest).length = n at inner ⊢
  refine (h.drop split feed).1 n (Nat.le_of_not_lt fun more => inner ?_)
  obtain rfl : n = line.length + 1 := by omega
  have lost : (line ++ ['\n']).length = line.length + 1 := List.length_append
  rw [split, List.append_cons, List.take_left' lost, List.getLast?_concat]

/-- A scanner that is given up in a passage loses the same in the whole text, unless it loses the
end of a line. -/
theorem torn_amid (hs : s.Shut p) (v : Vocabulary) (count : Nat) :
    Torn p s (s.tear v count) ((s.amid p).tear v count) := by
  have shut := shut_skipBlanks hs
  have blanks : s.skipBlanks.total = s.total := s.total_advance _
  have previous : (s.skipBlanks.amid p).previous = s.skipBlanks.previous := rfl
  unfold tear
  rw [amid_skipBlanks hs]
  dsimp only
  cases hr : s.skipBlanks.rest with
  | nil =>
    rw [amid_rest_nil shut hr]
    exact .heard Sealed.skipBlanks blanks s.length_skipBlanks_le
  | cons c rest =>
    obtain ⟨same, bound⟩ := lexeme_shut shut hr v s.skipBlanks.previous
    rw [amid_rest_cons hr, previous]
    dsimp only
    rw [same]
    have within := bound.imp_right (Nat.le_trans (Nat.min_le_right count _))
    have taken := take_amid within
    rw [amid_rest_cons hr, hr] at taken
    rw [taken]
    split
    next deaf =>
      refine .deaf rfl rfl (Nat.lt_of_lt_of_eq ?_ blanks)
      have feed : '\n' ∈ s.skipBlanks.rest := by
        rw [hr]
        exact List.mem_of_mem_take (List.mem_of_getLast? deaf.2)
      exact Nat.add_lt_add_left (List.count_pos_iff.2 feed) _
    next heard =>
      rw [amid_advance within]
      refine .heard (fun sealed => ?_) ((total_advance _ _).trans blanks) ?_
      · have first := Sealed.skipBlanks sealed
        show Sealed (s.skipBlanks.rest.drop _)
        rw [hr] at first ⊢
        refine first.part v _ count fun last => heard ⟨?_, last⟩
        rintro rfl
        exact first.raw List.mem_cons_self
      · show (s.skipBlanks.rest.drop _).length ≤ _
        rw [List.length_drop]
        exact Nat.le_trans (Nat.sub_le _ _) s.length_skipBlanks_le

end Scanner

end ArrayCalc
