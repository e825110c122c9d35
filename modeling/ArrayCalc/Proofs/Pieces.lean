import ArrayCalc.Proofs.Resumption

/-!
# The pieces of a text

Scanning cuts a text into pieces.  A piece is a run of blanks, and behind it what a token or an error
takes: the text of the token, a comment with the end of its line, or what the error drops.  Put
together again the pieces are the text, up to blanks at its end, and the line of a token or an error
is found by counting the line feeds before it.
-/

namespace ArrayCalc

variable {v : Vocabulary} {r : Except LexError Token}

/-! ## § Rests of lines -/

/-- The rest of a line that has `behind` behind it.  Only the last line of a text may lack its line
feed. -/
def IsLineRest (text behind : List Char) : Prop :=
  (∃ line, text = line ++ ['\n'] ∧ '\n' ∉ line) ∨ '\n' ∉ text ∧ behind = []

theorem isLineRest_of_notMem {text : List Char} (feed : '\n' ∉ text) : IsLineRest text [] :=
  .inr ⟨feed, rfl⟩

theorem isLineRest_of_line {line tail : List Char} (feed : '\n' ∉ line) :
    IsLineRest ((line ++ '\n' :: tail).take (line.length + 1))
      ((line ++ '\n' :: tail).drop (line.length + 1)) := by
  refine .inl ⟨line, ?_, feed⟩
  rw [List.take_length_add_append]
  rfl

theorem isLineRest_lineLength (text : List Char) :
    IsLineRest (text.take (Lexeme.lineLength text)) (text.drop (Lexeme.lineLength text)) := by
  by_cases feed : '\n' ∈ text
  · obtain ⟨line, tail, rfl, no_feed⟩ := List.eq_append_cons_of_mem feed
    rw [(Lexeme.lineLength_feed no_feed tail).2]
    exact isLineRest_of_line no_feed
  · rw [(Lexeme.lineLength_feed feed []).1, List.take_length, List.drop_length]
    exact isLineRest_of_notMem feed

namespace Lexeme

variable {c : Char} {rest : List Char} {previous : Option Char} {cause : LexError.Cause} {n : Nat}

/-- No text is the end of the text. -/
theorem ofText_kind {kind : TokenKind} (h : ofText v previous c rest = .token kind n) :
    kind ≠ .endOfInput := by
  rintro rfl
  by_cases feed : c = '\n'
  · subst feed
    exact nomatch h
  by_cases hash : c = '#'
  · subst hash
    exact nomatch h
  have inner := ofText_inner v previous rest feed hash
  rw [h] at inner
  exact nomatch inner

/-- Raw text without its end takes all there is. -/
theorem raw_bad (h : ofText v previous Text.Quoted.backquote rest = .bad cause n) :
    cause = .unterminatedRawString ∧ n = rest.length + 1 := by
  have lexeme : raw (Text.Quoted.backquote :: rest) = .bad cause n := h
  unfold raw at lexeme
  dsimp only at lexeme
  split at lexeme
  · exact nomatch lexeme
  · obtain ⟨rfl, rfl⟩ := Lexeme.bad.inj lexeme
    exact ⟨rfl, List.length_cons⟩

/-- Any other error takes the rest of its line. -/
theorem isLineRest_of_bad (hc : c ≠ Text.Quoted.backquote)
    (h : ofText v previous c rest = .bad cause n) :
    IsLineRest ((c :: rest).take n) ((c :: rest).drop n) := by
  by_cases feed : '\n' ∈ c :: rest
  · by_cases first : c = '\n'
    · subst first
      exact nomatch h
    have feed : '\n' ∈ rest := (List.mem_cons.1 feed).resolve_left fun e => first e.symm
    obtain ⟨line, tail, rfl, no_feed⟩ := List.eq_append_cons_of_mem feed
    have no_feed : '\n' ∉ c :: line := by
      rw [List.mem_cons, not_or]
      exact ⟨fun e => first e.symm, no_feed⟩
    obtain ⟨lexeme, ends, settled⟩ := ofText_settles hc no_feed v previous
    dsimp only at settled
    rw [settled] at h
    subst h
    cases ends
    exact isLineRest_of_line no_feed
  · have whole : n = (c :: rest).length := by
      have drops := ofText_drops v previous c rest
      rw [h] at drops
      rcases drops with rfl | rfl
      · exact (lineLength_feed feed []).1
      · rfl
    rw [whole, List.take_length, List.drop_length]
    exact isLineRest_of_notMem feed

end Lexeme

/-! ## § Pieces -/

/-- What a call of the scanner takes from a text, and what it gives. -/
structure Piece where
  /-- The blanks that are passed over. -/
  blanks : List Char
  /-- What the token or the error takes. -/
  taken : List Char
  result : Except LexError Token

namespace Piece

def text (p : Piece) : List Char := p.blanks ++ p.taken

def texts (ps : List Piece) : List Char := (ps.map text).flatten

def isBlank (c : Char) : Bool := c == ' ' || c == '\t'

/-- The line that a token or an error is said to be on. -/
def lineOf : Except LexError Token → Int
  | .ok t => t.line
  | .error e => e.line

/-- How what is taken answers for a token or an error.  A token has its own text, but a comment is
the end of its line; an error takes the rest of its line or, in raw text, all that is left. -/
def Accounts (taken behind : List Char) : Except LexError Token → Prop
  | .ok t =>
    if taken.head? = some '#' then
      t.kind = .newline ∧ t.text = "\n" ∧ IsLineRest taken behind
    else t.kind ≠ .endOfInput ∧ t.text = String.ofList taken
  | .error e =>
    if taken.head? = some Text.Quoted.backquote then
      e.cause = .unterminatedRawString ∧ behind = []
    else IsLineRest taken behind

/-- A piece that stands between two texts. -/
structure Fits (before behind : List Char) (p : Piece) : Prop where
  blank : ∀ c ∈ p.blanks, isBlank c = true
  starts : ∃ c rest, p.taken = c :: rest ∧ isBlank c = false
  accounts : Accounts p.taken behind p.result
  line : lineOf p.result = 1 + ((before ++ p.blanks).count '\n' : Nat)

/-- Each of the pieces stands between the others. -/
def Laid (before : List Char) (pieces : List Piece) (behind : List Char) : Prop :=
  ∀ ps p qs, pieces = ps ++ p :: qs → p.Fits (before ++ texts ps) (texts qs ++ behind)

theorem Laid.nil (before behind : List Char) : Laid before [] behind :=
  fun _ _ _ h => nomatch (List.append_eq_nil_iff.1 h.symm).2

theorem Laid.cons {before behind : List Char} {p : Piece} {ps : List Piece}
    (first : p.Fits before (texts ps ++ behind)) (h : Laid (before ++ p.text) ps behind) :
    Laid before (p :: ps) behind := by
  intro qs q rs split
  cases qs with
  | nil =>
    obtain ⟨rfl, rfl⟩ := List.cons.inj split
    rwa [texts, List.map_nil, List.flatten_nil, List.append_nil]
  | cons p' qs =>
    obtain ⟨rfl, rfl⟩ := List.cons.inj split
    have later := h qs q rs rfl
    rwa [List.append_assoc] at later

variable {previous : Option Char} {c : Char} {rest : List Char} {kind : TokenKind} {n line : Nat}
  {cause : LexError.Cause}

theorem head?_taken {l : Lexeme} (h : Lexeme.ofText v previous c rest = l) :
    ((c :: rest).take l.length).head? = some c := by
  have pos := Lexeme.ofText_pos v previous c rest
  rw [h] at pos
  exact List.head?_take.trans (if_neg (Nat.ne_of_gt pos))

theorem accounts_token (h : Lexeme.ofText v previous c rest = .token kind n)
    (inner : kind ≠ .endOfInput) :
    Accounts ((c :: rest).take n) ((c :: rest).drop n)
      (.ok ⟨kind, String.ofList ((c :: rest).take n), line⟩) := by
  have hash : c ≠ '#' := by
    rintro rfl
    exact nomatch h
  have first : ((c :: rest).take n).head? ≠ some '#' :=
    (head?_taken h).symm ▸ fun e => hash (Option.some.inj e)
  unfold Accounts
  dsimp only
  rw [if_neg first]
  exact ⟨inner, rfl⟩

theorem accounts_comment (h : Lexeme.ofText v previous c rest = .comment n) :
    Accounts ((c :: rest).take n) ((c :: rest).drop n) (.ok ⟨.newline, "\n", line⟩) := by
  have first : ((c :: rest).take n).head? = some c := head?_taken h
  obtain ⟨rfl, rfl⟩ := Lexeme.ofText_comment h
  unfold Accounts
  dsimp only
  rw [if_pos first]
  exact ⟨rfl, rfl, isLineRest_lineLength _⟩

theorem accounts_bad {line : Int} (h : Lexeme.ofText v previous c rest = .bad cause n) :
    Accounts ((c :: rest).take n) ((c :: rest).drop n) (.error ⟨cause, line⟩) := by
  have first : ((c :: rest).take n).head? = some c := head?_taken h
  unfold Accounts
  dsimp only
  rw [first]
  split
  next raw =>
    obtain rfl := Option.some.inj raw
    obtain ⟨rfl, rfl⟩ := Lexeme.raw_bad h
    exact ⟨rfl, List.drop_length⟩
  next raw => exact Lexeme.isLineRest_of_bad (fun e => raw (congrArg some e)) h

end Piece

/-! ## § Scanning to the end -/

namespace Scanner

open Piece (isBlank texts Laid)

variable {s s' : Scanner} {t : Token} {e : LexError}

/-- The tokens and errors up to the end of the text, which is the last of them. -/
def results (v : Vocabulary) (s : Scanner) : List (Except LexError Token) :=
  match h : s.next v with
  | (.error e, s') =>
    have := length_next_error h
    .error e :: results v s'
  | (.ok t, s') =>
    if hk : t.kind = .endOfInput then [.ok t]
    else
      have := (length_next_ok h).2 hk
      .ok t :: results v s'
termination_by s.rest.length

/-- A result that is not the end of the text. -/
def BeforeEnd (r : Except LexError Token) : Prop := ∀ t, r = .ok t → t.kind ≠ .endOfInput

theorem beforeEnd_of_kind (kind : t.kind ≠ .endOfInput) : BeforeEnd (.ok t) :=
  fun _ h => Except.ok.inj h ▸ kind

theorem beforeEnd_or (r : Except LexError Token) :
    BeforeEnd r ∨ ∃ t, r = .ok t ∧ t.kind = .endOfInput := by
  cases r with
  | error e => exact .inl nofun
  | ok t =>
    by_cases kind : t.kind = .endOfInput
    · exact .inr ⟨t, rfl, kind⟩
    · exact .inl (beforeEnd_of_kind kind)

theorem results_inner (inner : BeforeEnd r) (h : s.next v = (r, s')) :
    s.results v = r :: s'.results v := by
  rw [results]
  split
  next h' =>
    obtain ⟨rfl, rfl⟩ := Prod.mk.inj (h.symm.trans h')
    rfl
  next h' =>
    obtain ⟨rfl, rfl⟩ := Prod.mk.inj (h.symm.trans h')
    rw [dif_neg (inner _ rfl)]

theorem results_end (h : s.next v = (.ok t, s')) (kind : t.kind = .endOfInput) :
    s.results v = [.ok t] := by
  rw [results]
  split
  next h' => exact nomatch (Prod.mk.inj (h.symm.trans h')).1
  next h' =>
    obtain ⟨same, rfl⟩ := Prod.mk.inj (h.symm.trans h')
    obtain rfl := Except.ok.inj same
    rw [dif_pos kind]

/-- A scanner passes over the blanks, and over no more. -/
theorem skipBlanks_spec (s : Scanner) :
    ∃ blanks, (∀ c ∈ blanks, isBlank c = true) ∧ s.rest = blanks ++ s.skipBlanks.rest ∧
      s.skipBlanks.feeds = s.feeds + blanks.count '\n' ∧
      ∀ c rest, s.skipBlanks.rest = c :: rest → isBlank c = false := by
  have run : s.rest.take (Lexeme.runLength isBlank s.rest) = s.rest.takeWhile isBlank :=
    Lexeme.take_runLength isBlank s.rest
  have whole : s.rest = s.rest.takeWhile isBlank ++ s.skipBlanks.rest := by
    rw [← run]
    exact (List.take_append_drop _ _).symm
  have behind : s.skipBlanks.rest = s.rest.dropWhile isBlank := by
    refine List.append_cancel_left (whole.symm.trans ?_)
    exact List.takeWhile_append_dropWhile.symm
  refine ⟨s.rest.takeWhile isBlank, List.all_eq_true.1 List.all_takeWhile, whole, ?_, ?_⟩
  · rw [← run]
    rfl
  · intro c rest first
    rw [behind] at first
    have head := List.head?_dropWhile_not isBlank s.rest
    rwa [first] at head

theorem next_nil (v : Vocabulary) (hr : s.skipBlanks.rest = []) :
    s.next v = (.ok ⟨.endOfInput, "EOF", s.skipBlanks.line⟩, s.skipBlanks) := by
  unfold next
  dsimp only
  rw [hr]

theorem next_cons (v : Vocabulary) {c : Char} {rest : List Char}
    (hr : s.skipBlanks.rest = c :: rest) :
    s.next v = match Lexeme.ofText v s.skipBlanks.previous c rest with
      | .token kind n =>
        (.ok ⟨kind, String.ofList ((c :: rest).take n), s.skipBlanks.line⟩, s.skipBlanks.advance n)
      | .comment n => (.ok ⟨.newline, "\n", s.skipBlanks.line⟩, s.skipBlanks.advance n)
      | .bad cause n => (.error ⟨cause, s.skipBlanks.line⟩, s.skipBlanks.abandon n) := by
  unfold next
  dsimp only
  generalize s.skipBlanks.rest = text at hr
  subst hr
  rfl

/-- What a call of the scanner takes is a piece with the result of the call. -/
theorem next_piece (inner : BeforeEnd r) (h : s.next v = (r, s')) :
    ∃ p : Piece, p.result = r ∧ s.rest = p.text ++ s'.rest ∧
      s'.feeds = s.feeds + p.text.count '\n' ∧
      ∀ before : List Char, before.count '\n' = s.feeds → p.Fits before s'.rest := by
  obtain ⟨blanks, blank, whole, feeds, starts⟩ := s.skipBlanks_spec
  cases hr : s.skipBlanks.rest with
  | nil =>
    rw [next_nil v hr] at h
    obtain ⟨rfl, -⟩ := Prod.mk.inj h
    exact absurd rfl (inner _ rfl)
  | cons c rest =>
    -- It is enough to look at the lexeme behind the blanks.
    suffices ∃ n, 0 < n ∧ s'.rest = s.skipBlanks.rest.drop n ∧
        s'.feeds = s.skipBlanks.feeds + (s.skipBlanks.rest.take n).count '\n' ∧
        Piece.lineOf r = s.skipBlanks.line ∧
        Piece.Accounts ((c :: rest).take n) ((c :: rest).drop n) r by
      obtain ⟨n, pos, behind, more, line, accounts⟩ := this
      rw [hr] at whole behind more
      refine ⟨⟨blanks, (c :: rest).take n, r⟩, rfl, ?_, ?_, fun before same => ?_⟩
      · show s.rest = blanks ++ (c :: rest).take n ++ s'.rest
        rw [behind, List.append_assoc, List.take_append_drop]
        exact whole
      · show s'.feeds = s.feeds + (blanks ++ (c :: rest).take n).count '\n'
        rw [more, feeds, List.count_append, Nat.add_assoc]
      · refine ⟨blank, ?_, behind ▸ accounts, ?_⟩
        · obtain ⟨m, rfl⟩ := Nat.exists_eq_succ_of_ne_zero (Nat.ne_of_gt pos)
          exact ⟨c, rest.take m, rfl, starts c rest hr⟩
        · show Piece.lineOf r = _
          rw [List.count_append, same, ← feeds, line, Scanner.line]
          omega
    have pos := Lexeme.ofText_pos v s.skipBlanks.previous c rest
    rw [next_cons v hr] at h
    cases hl : Lexeme.ofText v s.skipBlanks.previous c rest with
    | token kind n =>
      rw [hl] at h pos
      obtain ⟨rfl, rfl⟩ := Prod.mk.inj h
      exact ⟨n, pos, rfl, rfl, rfl, Piece.accounts_token hl (inner _ rfl)⟩
    | comment n =>
      rw [hl] at h pos
      obtain ⟨rfl, rfl⟩ := Prod.mk.inj h
      exact ⟨n, pos, rfl, rfl, rfl, Piece.accounts_comment hl⟩
    | bad cause n =>
      rw [hl] at h pos
      obtain ⟨rfl, rfl⟩ := Prod.mk.inj h
      exact ⟨n, pos, rfl, rfl, rfl, Piece.accounts_bad hl⟩

/-- At the end there are only blanks left, which are passed over, and the line is the last one. -/
theorem next_end (h : s.next v = (.ok t, s')) (kind : t.kind = .endOfInput) :
    (∀ c ∈ s.rest, isBlank c = true) ∧ s'.rest = [] ∧ t = ⟨.endOfInput, "EOF", s.line⟩ := by
  obtain ⟨blanks, blank, whole, feeds, -⟩ := s.skipBlanks_spec
  rcases next_cases h with ⟨hr, -⟩ | ⟨c, rest, n, -, -, ⟨hl, -⟩ | ⟨-, newline⟩⟩
  · rw [next_nil v hr] at h
    obtain ⟨same, rfl⟩ := Prod.mk.inj h
    obtain rfl := Except.ok.inj same
    rw [hr, List.append_nil] at whole
    exact ⟨whole ▸ blank, hr, by rw [skipBlanks_line]⟩
  · exact absurd kind (Lexeme.ofText_kind hl)
  · exact nomatch kind.symm.trans newline

/-- A whole run of the scanner: by induction on the text that is left, with the text before it. -/
theorem results_partition (v : Vocabulary) (s : Scanner) (before : List Char)
    (same : before.count '\n' = s.feeds) :
    ∃ pieces blanks, s.rest = texts pieces ++ blanks ∧ (∀ c ∈ blanks, isBlank c = true) ∧
      Laid before pieces blanks ∧
      s.results v = pieces.map Piece.result ++
        [.ok ⟨.endOfInput, "EOF", 1 + (before ++ s.rest).count '\n'⟩] := by
  induction hn : s.rest.length using Nat.strongRecOn generalizing s before with
  | ind n ih =>
    subst hn
    obtain ⟨r, s', h⟩ : ∃ r s', s.next v = (r, s') := ⟨_, _, rfl⟩
    rcases beforeEnd_or r with inner | ⟨t, rfl, kind⟩
    · obtain ⟨p, rfl, whole, feeds, fits⟩ := next_piece inner h
      have shorter : s'.rest.length < s.rest.length := by
        obtain ⟨c, rest, taken, -⟩ := (fits before same).starts
        rw [whole, Piece.text, taken]
        simp only [List.length_append, List.length_cons]
        omega
      have more : (before ++ p.text).count '\n' = s'.feeds := by
        rw [List.count_append, same, feeds]
      obtain ⟨pieces, blanks, behind, blank, laid, results⟩ := ih _ shorter s' _ more rfl
      refine ⟨p :: pieces, blanks, ?_, blank, Laid.cons (behind ▸ fits before same) laid, ?_⟩
      · rw [whole, behind, texts, texts, List.map_cons, List.flatten_cons, List.append_assoc]
      · rw [results_inner inner h, results, whole, List.append_assoc]
        rfl
    · obtain ⟨blank, -, rfl⟩ := next_end h kind
      refine ⟨[], s.rest, rfl, blank, Laid.nil _ _, ?_⟩
      have none : s.rest.count '\n' = 0 :=
        List.count_eq_zero.2 fun hm => absurd (blank _ hm) (by decide)
      rw [results_end h rfl, List.count_append, same, none, Scanner.line, Nat.add_zero,
        Nat.add_comm 1]
      rfl

/-- **Scanning loses nothing, invents nothing and counts the lines.**  The pieces stand in the text
one after the other, up to blanks at its end; each has the result of one call of the scanner, and
the last result is the end of the text. -/
theorem ofSource_partition (v : Vocabulary) (source : List Char) :
    ∃ pieces blanks, source.filter (· != '\r') = texts pieces ++ blanks ∧
      (∀ c ∈ blanks, isBlank c = true) ∧ Laid [] pieces blanks ∧
      (ofSource source).results v = pieces.map Piece.result ++
        [.ok ⟨.endOfInput, "EOF", 1 + (source.filter (· != '\r')).count '\n'⟩] :=
  results_partition v (ofSource source) [] rfl

end Scanner

end ArrayCalc
