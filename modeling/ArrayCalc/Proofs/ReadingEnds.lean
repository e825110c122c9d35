import ArrayCalc.Proofs.Pieces
import ArrayCalc.Proofs.RunsInParts

/-!
# Reading comes to an end

Every token and every error takes something from the text, and so does every line, whatever becomes
of it, since a line that fails has lost a token at least.  So there are no more lines than characters
before the end of the input, and behind it there is nothing to come.

The loops inside of a line take something in every round as well.  They are given bounds to count
down from, and never get to the end of those.
-/

namespace ArrayCalc

variable {v : Vocabulary} {α β : Type}

/-! ## § The bounds of loops -/

theorem Obstacle.later_zero (o : Obstacle) : o.later 0 = o := by
  cases o with
  | lex e => exact congrArg lex e.later_zero
  | parse e => exact congrArg parse e.later_zero
  | _ => rfl

namespace Reading

variable {f : α → α} {x y : Reading α} {r : Reader} {P : α → Reader → Prop}

/-- Two readers of the whole text that follow each other are the same. -/
theorem Follows.alone (h : Follows .nothing f x y r P) (hf : ∀ a, f a = a) : y.run r = x.run r := by
  have amid (r : Reader) : r.amid .nothing = r := by
    unfold Reader.amid
    rw [r.source.amid_nothing]
  have same := h.same
  rw [amid] at same
  rw [same]
  unfold outcomeAmid
  split
  next a r' hx => rw [hf, amid, hx]
  next o r' hx =>
    rw [amid, hx]
    exact congrArg (EStateM.Result.error · r') o.later_zero

/-- The loops of a reader give the same with every bound beyond what is left to read.  What `expr`
reads is any expression. -/
structure EndByThemselves [Machine] (r : Reader) : Prop where
  items : ∀ depth toll n, r.source.unread < n →
    (items (expression depth toll) n).run r
      = (items (expression depth toll) r.source.remaining).run r
  subscripts : ∀ depth toll n, r.source.unread < n →
    (subscripts (expression depth toll) n).run r
      = (subscripts (expression depth toll) r.source.remaining).run r
  indices : ∀ depth toll base n, r.source.unread < n →
    (indices (expression depth toll) n base).run r
      = (indices (expression depth toll) r.source.remaining base).run r
  statements : ∀ n, r.source.unread < n → (statementsUpTo n).run r = statements.run r
  headerWords : ∀ n, r.source.unread < n →
    (headerWords n).run r = (headerWords r.source.remaining).run r
  bodyLines : ∀ n, r.source.unread < n →
    (bodyLines n).run r = (bodyLines r.source.remaining).run r
  skipLine : ∀ v n, r.source.unread < n → r.source.skipTokens v n = r.source.skipLine v

theorem endByThemselves [Machine] (r : Reader) : EndByThemselves r := by
  have within : r.source.Within .nothing := .inl rfl
  have enough := r.source.unread_lt_remaining
  have expr := expression_stays (p := .nothing)
  constructor
  case items =>
    exact fun d toll n hn => (items_follows (expr d toll) within enough hn).alone fun _ => rfl
  case subscripts =>
    exact fun d toll n hn => (subscripts_follows (expr d toll) within enough hn).alone fun _ => rfl
  case indices =>
    exact fun d toll base n hn =>
      (indices_follows (expr d toll) base within enough hn).alone fun _ => rfl
  case statements =>
    exact fun n hn => (statementsUpTo_follows within enough hn).alone fun _ => rfl
  case headerWords =>
    refine fun n hn => (headerWords_follows within enough hn).alone fun words => ?_
    exact (List.map_congr_left fun t _ => t.later_zero).trans (List.map_id words)
  case bodyLines =>
    exact fun n hn => (bodyLines_follows (.inl within) enough hn).alone fun _ => rfl
  case skipLine =>
    intro v n hn
    have same := (Source.amid_skipTokens v within.halted enough hn).1
    rwa [Source.amid_nothing, Source.amid_nothing] at same

end Reading

/-! ## § What a line takes -/

namespace Scanner

variable {s s' : Scanner} {t : Token}

/-- **Every token and every error takes something**, unless it is the end, where nothing is left. -/
theorem next_takes (v : Vocabulary) (s : Scanner) :
    (∃ t, (s.next v).1 = .ok t ∧ t.kind = .endOfInput ∧ (s.next v).2.rest = []) ∨
      (s.next v).2.rest <:+ s.rest ∧ (s.next v).2.rest.length < s.rest.length := by
  obtain ⟨r, s', h⟩ : ∃ r s', s.next v = (r, s') := ⟨_, _, rfl⟩
  rw [h]
  rcases beforeEnd_or r with inner | ⟨t, rfl, kind⟩
  · have shorter : s'.rest.length < s.rest.length := by
      cases r with
      | error e => exact length_next_error h
      | ok t => exact (length_next_ok h).2 (inner t rfl)
    obtain ⟨p, -, whole, -⟩ := next_piece inner h
    exact .inr ⟨⟨p.text, whole.symm⟩, shorter⟩
  · exact .inl ⟨t, rfl, kind, (next_end h kind).2.1⟩

end Scanner

namespace Source

variable {s s' : Source} {t : Token} {w w' : Workspace} {line : Result Line}

/-- Nothing is left of a source. -/
structure Exhausted (s : Source) : Prop where
  rest : s.scanner.rest = []
  peeked : s.peeked = none

/-- No token that has been looked at is the end of the input. -/
def Open (s : Source) : Prop := ∀ t, s.peeked = some t → t.kind ≠ .endOfInput

theorem Resting.open (h : s.Resting) : s.Open := by
  intro t peeked
  have inner := h.inner t peeked
  rintro kind
  rw [kind] at inner
  exact nomatch inner

/-- Where the end of the input has been looked at, nothing is left behind it. -/
theorem Open.peek_end (h : s.Open) (hp : s.peek v = (.ok t, s')) (kind : t.kind = .endOfInput) :
    s'.scanner.rest = [] := by
  rcases peek_cases hp with ⟨peeked, -⟩ | ⟨-, scanner, hn, rfl⟩
  · exact absurd kind (h t peeked)
  · exact (Scanner.next_end hn kind).2.1

end Source

namespace Line

variable {s s' : Source} {r : Reader} {w w' : Workspace} {line : Result Line}

theorem peekKind_end (h : r.source.Open) : Outcome Reading.peekKind r
    (fun kind r' => kind = .endOfInput → r'.source.scanner.rest = []) fun _ _ => True :=
  .bind (P := fun t r' => t.kind = .endOfInput → r'.source.scanner.rest = [])
    (Reading.outcome_onSource (fun _ _ hp => h.peek_end hp) fun _ _ _ => trivial)
    fun _ _ k => .pure k

/-- Where a line that is read or not has taken its tokens, it has taken something, or it is the end
of the input and nothing is left. -/
theorem reading_takes [Machine] (h : r.source.Open) :
    Outcome reading r (fun line r' => line = .endOfInput → r'.source.scanner.rest = [])
      fun _ r' => r'.source.peeked = none → r'.source.unread < r.source.unread := by
  have within : r.source.Unspent .nothing := .inl (.inl rfl)
  have looked := ((Reading.peekKind_unspent within).outcome.and (peekKind_end h)
    (fun _ _ k l => And.intro k l) fun _ _ _ _ => trivial).and peekKind_lost
    (fun _ _ k _ => k) fun _ r' _ ⟨_, _, less⟩ (_ : r'.source.peeked = none) => less
  rw [reading_eq]
  refine .bind looked fun kind r₁ ⟨⟨moves, ⟨t, peeked, hk⟩, _, left⟩, finished⟩ => ?_
  subst hk
  by_cases kind : t.kind = .endOfInput
  · rw [kind]
    refine .bind (P := fun _ r' => r'.source.scanner.rest = []) ?_ fun _ _ rest => .pure fun _ => rest
    unfold Outcome
    rw [Reading.discard_run peeked]
    exact finished kind
  · have read := (readingOf_follows peeked left).outcome
    refine read.mono (fun line r₂ ⟨_, _, same⟩ e => absurd (same e) kind)
      fun o r₂ ⟨moves₂, _⟩ taken => ?_
    rcases moves₂.shrinks with less | ⟨-, stays⟩
    · exact Nat.lt_of_lt_of_le less moves.le
    · obtain same := stays t peeked kind
      rw [same] at taken
      exact nomatch taken.symm.trans peeked

/-- A line takes something, also if it fails, unless it is the end of the input. -/
theorem read_takes [Machine] (resting : s.Resting) (hr : read s w = (line, s', w'))
    (inner : line ≠ .ok .endOfInput) : s'.unread < s.unread := by
  have within : ({ s with atLineEnd := false } : Source).Unspent .nothing := .inl (.inl rfl)
  have shrinks := reading_shrinks (r := ⟨{ s with atLineEnd := false }, w, none⟩) within rfl
  cases attempt hr with
  | whole hx => exact (shrinks.of_ok hx).1 fun e => inner (congrArg Except.ok e)
  | @halted o r' hx =>
    have stopped := (reading_path (r := ⟨{ s with atLineEnd := false }, w, none⟩) rfl).of_error hx
    have taken := (reading_takes (r := ⟨{ s with atLineEnd := false }, w, none⟩)
      resting.open).of_error hx
    cases o with
    -- A fault leaves what it finds, and it comes of a token that has been taken.
    | fault f => exact taken stopped.2
    | _ => exact shrinks.of_error hx nofun r'.workspace.vocabulary

theorem read_exhausts [Machine] (resting : s.Resting) (hr : read s w = (.ok .endOfInput, s', w')) :
    s'.Exhausted := by
  have peeked : s'.peeked = none := by
    cases resting.read hr with
    | read fresh => exact fresh
  cases attempt hr with
  | whole hx =>
    have taken := (reading_takes (r := ⟨{ s with atLineEnd := false }, w, none⟩)
      resting.open).of_ok hx
    exact ⟨taken rfl, peeked⟩

/-- Behind the end of the input the end comes again. -/
theorem read_exhausted [Machine] (h : s.Exhausted) (w : Workspace) :
    ∃ s', read s w = (.ok .endOfInput, s', w) ∧ s'.Exhausted := by
  obtain ⟨⟨rest, previous, feeds⟩, peeked, ended⟩ := s
  obtain ⟨rfl, rfl⟩ := h
  exact ⟨_, rfl, rfl, rfl⟩

/-! ## § Line after line -/

/-- What reading gives again and again.  In between the workspace may become any other: it is
`meanwhile i w` before the line `i`, counted from zero, if the lines before have left `w`. -/
def readings [Machine] (meanwhile : Nat → Workspace → Workspace) (s : Source) (w : Workspace) :
    Nat → Result Line
  | 0 => (read s (meanwhile 0 w)).1
  | i + 1 =>
    let (_, s, w) := read s (meanwhile 0 w)
    readings (fun j => meanwhile (j + 1)) s w i

theorem readings_exhausted [Machine] (h : s.Exhausted) (meanwhile : Nat → Workspace → Workspace)
    (w : Workspace) (i : Nat) : readings meanwhile s w i = .ok .endOfInput := by
  induction i generalizing meanwhile s w with
  | zero =>
    obtain ⟨s', hr, -⟩ := read_exhausted h (meanwhile 0 w)
    rw [readings, hr]
  | succ i ih =>
    obtain ⟨s', hr, h'⟩ := read_exhausted h (meanwhile 0 w)
    rw [readings, hr]
    exact ih h' _ _

/-- By induction on what is left to read, which every line before the end makes less. -/
theorem readings_end [Machine] (begun : s.Begun) (meanwhile : Nat → Workspace → Workspace)
    (w : Workspace) :
    ∃ k ≤ s.unread, ∀ i, readings meanwhile s w i = .ok .endOfInput ↔ k ≤ i := by
  induction hn : s.unread using Nat.strongRecOn generalizing s meanwhile w with
  | ind n ih =>
    subst hn
    obtain ⟨line, s', w', hr⟩ : ∃ line s' w', read s (meanwhile 0 w) = (line, s', w') :=
      ⟨_, _, _, rfl⟩
    by_cases last : line = .ok .endOfInput
    · subst last
      have exhausted := read_exhausts begun.resting hr
      refine ⟨0, Nat.zero_le _, fun i => iff_of_true ?_ (Nat.zero_le i)⟩
      cases i with
      | zero => rw [readings, hr]
      | succ i =>
        rw [readings, hr]
        exact readings_exhausted exhausted _ _ i
    · have less := read_takes begun.resting hr last
      obtain ⟨k, bound, ends⟩ := ih _ less (begun.read _ hr) (fun j => meanwhile (j + 1)) w' rfl
      refine ⟨k + 1, Nat.lt_of_le_of_lt bound less, fun i => ?_⟩
      cases i with
      | zero =>
        rw [readings, hr]
        exact iff_of_false last (Nat.not_succ_le_zero k)
      | succ i =>
        rw [readings, hr]
        exact (ends i).trans Nat.succ_le_succ_iff.symm

/-- **Reading a text comes to an end**, whatever the workspaces are.  Each call of the scanner takes
something unless nothing is left, and the loops of a reader end by themselves.  Line after line, with
failures counted as lines, the end of the input comes after at most one line for each character, and
from then on it comes every time. -/
theorem reading_ends [Machine] (text : List Char) :
    (∀ (v : Vocabulary) (s : Scanner),
      (∃ t, (s.next v).1 = .ok t ∧ t.kind = .endOfInput ∧ (s.next v).2.rest = []) ∨
        (s.next v).2.rest <:+ s.rest ∧ (s.next v).2.rest.length < s.rest.length) ∧
    (∀ r : Reader, Reading.EndByThemselves r) ∧
    ∀ (meanwhile : Nat → Workspace → Workspace) (w : Workspace), ∃ k ≤ text.length,
      ∀ i, readings meanwhile (.ofText text) w i = .ok .endOfInput ↔ k ≤ i := by
  refine ⟨Scanner.next_takes, Reading.endByThemselves, fun meanwhile w => ?_⟩
  obtain ⟨k, bound, ends⟩ := readings_end (.ofText text) meanwhile w
  exact ⟨k, Nat.le_trans bound (List.length_filter_le _ _), ends⟩

end Line

end ArrayCalc
