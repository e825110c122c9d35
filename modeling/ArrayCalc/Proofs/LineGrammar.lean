import ArrayCalc.Machine.Standard
import ArrayCalc.Proofs.GrammarComplete

/-!
# Reading follows the grammar

What is read of a line are the statements that the grammar gives, and a line that is in the grammar
is read unless it nests too deep for the machine.
-/

namespace ArrayCalc

open Grammar

variable {v : Vocabulary} {w : Workspace} {s s' : Source} {t : Token} {ts us xs : List Token}

namespace Line

open Reading (Facing Blames)

/-- The kinds of tokens that a line starts with if it holds statements. -/
def startsStatements : TokenKind → Bool
  | .newline | .endOfInput | .rightParen | .opKeyword => false
  | _ => true

variable {r : Reader} {last : Token} {es : List Expr} {depth : Nat} {Q : Line → Reader → Prop}
  {E : Obstacle → Reader → Prop}

theorem endOfLine_sound (h : Facing w r (t :: us)) (ht : t ∈ ts) :
    Outcome Reading.endOfLine r (fun _ _ => t.kind.isLineEnd = true) fun o _ => Blames w ts o := by
  refine .bind (Reading.take_facing h) fun a r₁ ⟨ha, _⟩ => ?_
  subst ha
  split
  next ends => exact .pure ends
  next => exact Reading.reject_blames _ _ ht

theorem endOfLine_complete (h : Facing w r (t :: us)) (ends : t.kind.isLineEnd = true) :
    Outcome Reading.endOfLine r (fun _ _ => True) E := by
  refine .bind (Reading.take_facing h) fun a r₁ ⟨ha, _⟩ => ?_
  subst ha
  rw [if_pos ends]
  exact .pure trivial

/-- The end of a line is the last of its tokens. -/
theorem gives_end (h : s.Gives v xs) :
    ∃ ts last, xs = ts ++ [last] ∧ last.kind.isLineEnd = true := by
  induction h with
  | last _ ends => exact ⟨[], _, rfl, ends⟩
  | cons _ _ _ ih =>
    obtain ⟨ts, last, rfl, ends⟩ := ih
    exact ⟨_ :: ts, last, rfl, ends⟩

/-- What was taken last does not matter for the tokens of a line. -/
theorem gives_fresh (h : s.Gives v ts) (ended : Bool) :
    ({ s with atLineEnd := ended } : Source).Gives v ts := by
  have fresh {t : Token} {s' : Source} (h : s.take v = (.ok t, s')) :
      ({ s with atLineEnd := ended } : Source).take v = (.ok t, s') := by
    obtain ⟨s₁, hp, h₁, peeked⟩ := Source.peek_of_take h
    rw [Source.take_of_peeked peeked] at h₁
    rcases Source.peek_cases hp with ⟨hs, rfl⟩ | ⟨hs, scanner, hn, rfl⟩
    · rw [← h₁]
      have again : ({ s₁ with atLineEnd := ended } : Source).peeked = some t := hs
      exact Source.take_of_peeked again v
    · rw [← h₁]
      have none : ({ s with atLineEnd := ended } : Source).peeked = none := hs
      have take := Source.take_eq_of_peek (Source.peek_of_next none hn)
      exact take
  cases h with
  | last h ends => exact .last (fresh h) ends
  | cons h inner rest => exact .cons (fresh h) inner rest

/-- The reader that a line is read with. -/
theorem facing_start (h : s.Gives w.vocabulary ts) :
    Facing w ⟨{ s with atLineEnd := false }, w, none⟩ ts :=
  ⟨rfl, rfl, gives_fresh h false⟩

section Machine

variable [Machine]

theorem reading_statements (h : Facing w r (t :: us)) (start : startsStatements t.kind = true)
    (hx : ∀ {r'}, Facing w r' (t :: us) → Outcome readingStatements r' Q E) :
    Outcome reading r Q E := by
  rw [reading_eq]
  refine .bind (Reading.peekKind_facing h) fun kind r₁ ⟨hkind, h₁⟩ => ?_
  subst hkind
  unfold readingOf
  split
  case h_5 => exact hx h₁
  all_goals
    next hk =>
      rw [hk] at start
      exact nomatch start

theorem reading_sound (h : Facing w r (ts ++ [last]))
    (start : (ts ++ [last]).head?.all (startsStatements ·.kind) = true) :
    Outcome reading r
      (fun line _ => ∃ es, line = .statements es ∧ Statements w Machine.nesting ts es)
      fun o _ => Blames w (ts ++ [last]) o := by
  obtain ⟨t, us, eq⟩ := h.gives.ne_nil
  rw [eq] at h
  refine reading_statements h (by simpa [eq] using start) fun {r'} h' => ?_
  rw [← eq] at h'
  refine .bind (Reading.statements_sound w h') fun es r₁ taken => ?_
  obtain ⟨vs, x, xs, split, hp, -, h₁⟩ := taken
  have blamed : x ∈ ts ++ [last] := by simp [split]
  refine .bind (endOfLine_sound h₁ blamed) fun _ r₂ ends => .pure ?_
  obtain rfl := h₁.gives.eq_nil ends
  obtain ⟨rfl, -⟩ := List.append_inj' split rfl
  exact ⟨es, rfl, hp⟩

theorem reading_complete (h : Facing w r (ts ++ [last])) (ends : last.kind.isLineEnd = true)
    (start : (ts ++ [last]).head?.all (startsStatements ·.kind) = true)
    (hp : Statements w depth ts es) :
    Outcome reading r (fun line _ => line = .statements es)
      fun o _ => o.IsTooDeep ∧ Machine.nesting < depth := by
  obtain ⟨t, us, eq⟩ := h.gives.ne_nil
  rw [eq] at h
  refine reading_statements h (by simpa [eq] using start) fun {r'} h' => ?_
  rw [← eq] at h'
  refine .bind (Reading.statements_complete w depth hp ends h') fun fs r₁ ⟨hf, h₁⟩ => ?_
  subst hf
  exact .bind (endOfLine_complete h₁ ends) fun _ _ _ => .pure rfl

/-- Why a line that is not in the grammar is refused. -/
def Refused (w : Workspace) (ts : List Token) : Failure → Prop
  | .error (.lex e) => Blames w ts (.lex e)
  | .error (.parse e) => Blames w ts (.parse e) ∨ e.cause = .tooDeep
  | .fault f => Blames w ts (.fault f)
  | _ => False

theorem read_sound (h : s.Gives w.vocabulary (ts ++ [last]))
    (start : (ts ++ [last]).head?.all (startsStatements ·.kind) = true) :
    (∃ es, (read s w).1 = .ok (.statements es) ∧ Statements w Machine.nesting ts es) ∨
      ∃ failure, (read s w).1 = .error failure ∧ Refused w (ts ++ [last]) failure := by
  have outcome := reading_sound (facing_start h) start
  unfold read
  cases hx : reading.run ⟨{ s with atLineEnd := false }, w, none⟩ with
  | ok line r =>
    obtain ⟨es, rfl, hp⟩ := outcome.of_ok hx
    exact .inl ⟨es, rfl, hp⟩
  | error o r =>
    have blame := outcome.of_error hx
    cases o with
    | lex e => exact .inr ⟨_, rfl, blame⟩
    | parse e => exact .inr ⟨_, rfl, .inl blame⟩
    | tooDeep count => exact .inr ⟨_, rfl, .inr rfl⟩
    | fault f => exact .inr ⟨_, rfl, blame⟩

theorem read_complete (h : s.Gives w.vocabulary (ts ++ [last]))
    (start : (ts ++ [last]).head?.all (startsStatements ·.kind) = true)
    (hp : Statements w depth ts es) :
    (read s w).1 = .ok (.statements es) ∨
      Machine.nesting < depth ∧
        ∃ line, (read s w).1 = .error (.error (.parse ⟨.tooDeep, line, [], none⟩)) := by
  obtain ⟨ts', last', eq, ends⟩ := gives_end h
  obtain ⟨rfl, hl⟩ := List.append_inj' eq rfl
  obtain rfl := List.singleton_inj.1 hl
  have outcome := reading_complete (facing_start h) ends start hp
  unfold read
  cases hx : reading.run ⟨{ s with atLineEnd := false }, w, none⟩ with
  | ok line r =>
    obtain rfl := outcome.of_ok hx
    exact .inl rfl
  | error o r =>
    obtain ⟨⟨count, rfl⟩, deep⟩ := outcome.of_error hx
    exact .inr ⟨deep, _, rfl⟩

/-- **A line is read exactly if it is in the grammar**, unless it nests too deep.  What is read are
statements of the grammar, which gives no line two readings; and they are read if the machine has the
levels that they take.  A line that nests deeper may be refused for its depth, but for nothing else,
and one that is not in the grammar is refused with a reason. -/
theorem read_iff_grammar (s : Source) (w : Workspace) (ts : List Token) (last : Token)
    (gives : s.Gives w.vocabulary (ts ++ [last]))
    (start : (ts ++ [last]).head?.all (startsStatements ·.kind) = true) :
    (∀ es, (read s w).1 = .ok (.statements es) → ∃ depth, Statements w depth ts es) ∧
    (∀ depth es, Statements w depth ts es →
      (read s w).1 = .ok (.statements es) ∨
        Machine.nesting < depth ∧
          ∃ line, (read s w).1 = .error (.error (.parse ⟨.tooDeep, line, [], none⟩))) ∧
    (∀ depth depth' es fs, Statements w depth ts es → Statements w depth' ts fs → es = fs) ∧
    ((∀ depth es, ¬ Statements w depth ts es) →
      ∃ failure, (read s w).1 = .error failure ∧ Refused w (ts ++ [last]) failure) := by
  refine ⟨fun es hr => ?_, fun depth es => read_complete gives start,
    fun _ _ _ _ => Statements.unique, fun none => ?_⟩
  · rcases read_sound gives start with ⟨fs, hr', hp⟩ | ⟨failure, hr', -⟩
    · obtain rfl := Line.statements.inj (Except.ok.inj (hr.symm.trans hr'))
      exact ⟨_, hp⟩
    · exact nomatch hr.symm.trans hr'
  · rcases read_sound gives start with ⟨es, -, hp⟩ | refused
    · exact (none _ es hp).elim
    · exact refused

theorem read_of_toOption {line : Line} (h : (read s w).1.toOption = some line) :
    (read s w).1 = .ok line := by
  cases hr : (read s w).1 with
  | ok line' =>
    rw [hr] at h
    exact congrArg Except.ok (Option.some.inj h)
  | error =>
    rw [hr] at h
    exact nomatch h

end Machine

/-- A line with a bit of everything: an assignment to a subscripted vector, a missing subscript, a
missing statement, a condition and a semicolon at the end. -/
def medley : List Token :=
  [⟨.identifier, "x", 1⟩, ⟨.leftBracket, "[", 1⟩, ⟨.number, "1", 1⟩, ⟨.semicolon, ";", 1⟩,
    ⟨.rightBracket, "]", 1⟩, ⟨.assign, "=", 1⟩, ⟨.number, "2", 1⟩, ⟨.string, "'ab'", 1⟩,
    ⟨.operator, "max", 1⟩, ⟨.operator, "-", 1⟩, ⟨.identifier, "y", 1⟩, ⟨.semicolon, ";", 1⟩,
    ⟨.semicolon, ";", 1⟩, ⟨.identifier, "x", 1⟩, ⟨.colon, ":", 1⟩, ⟨.operator, "+/", 1⟩,
    ⟨.leftParen, "(", 1⟩, ⟨.number, "3", 1⟩, ⟨.rightParen, ")", 1⟩, ⟨.semicolon, ";", 1⟩]

def medleyText : Source := .ofText "x[1;] = 2 'ab' max -y;; x: +/(3);\n".toList

/-- The statements of the medley. -/
def medleyStatements : List Expr :=
  [.assign (.index (.sessionVar "x") [.constant (.int 1), .empty])
      (.binary "max" (.strand [.constant (.int 2), .string ['a', 'b']])
        (.unary "-" (.sessionVar "y"))),
    .empty, .conditional (.sessionVar "x") (.unary "+/" (.constant (.int 3)))]

theorem read_iff_grammar_medley :
    medleyText.Gives (Workspace.ofSettings {}).vocabulary (medley ++ [⟨.newline, "\n", 1⟩]) ∧
      ∃ depth, Statements (.ofSettings {}) depth medley medleyStatements := by
  have gives : medleyText.Gives (Workspace.ofSettings {}).vocabulary
      (medley ++ [⟨.newline, "\n", 1⟩]) := by decide +kernel
  have line : (read medleyText (.ofSettings {})).1.toOption = some (.statements medleyStatements) := by
    decide +kernel
  exact ⟨gives, (read_iff_grammar medleyText (.ofSettings {}) medley ⟨.newline, "\n", 1⟩ gives rfl).1 _
    (read_of_toOption line)⟩

/-! ## § Too many parentheses -/

/-- A number in `n` pairs of parentheses. -/
def nestedText (n : Nat) : List Char := List.replicate n '(' ++ '1' :: List.replicate n ')'

def nested (n : Nat) : List Token :=
  List.replicate n ⟨.leftParen, "(", 1⟩ ++ ⟨.number, "1", 1⟩ :: List.replicate n ⟨.rightParen, ")", 1⟩

theorem nested_succ (n : Nat) :
    nested (n + 1) = ⟨.leftParen, "(", 1⟩ :: (nested n ++ [⟨.rightParen, ")", 1⟩]) := by
  rw [nested, nested, List.replicate_succ, List.replicate_succ']
  simp

theorem gives_closing (v : Vocabulary) (p : Option Char) (n : Nat) (b : Bool) :
    (⟨⟨List.replicate n ')', p, 0⟩, none, b⟩ : Source).Gives v
      (List.replicate n ⟨.rightParen, ")", 1⟩ ++ [⟨.endOfInput, "EOF", 1⟩]) := by
  induction n generalizing p b with
  | zero => exact .last rfl rfl
  | succ n ih => exact .cons rfl rfl (ih _ _)

theorem gives_opening {v : Vocabulary} {text : List Char} {ts : List Token}
    (h : ∀ p b, (⟨⟨text, p, 0⟩, none, b⟩ : Source).Gives v ts) (p : Option Char) (n : Nat) (b : Bool) :
    (⟨⟨List.replicate n '(' ++ text, p, 0⟩, none, b⟩ : Source).Gives v
      (List.replicate n ⟨.leftParen, "(", 1⟩ ++ ts) := by
  induction n generalizing p b with
  | zero => exact h p b
  | succ n ih => exact .cons rfl rfl (ih _ _)

theorem gives_nested (n : Nat) :
    (Source.ofText (nestedText (n + 1))).Gives (Workspace.ofSettings {}).vocabulary
      (nested (n + 1) ++ [⟨.endOfInput, "EOF", 1⟩]) := by
  have one (p : Option Char) (b : Bool) :
      (⟨⟨'1' :: List.replicate (n + 1) ')', p, 0⟩, none, b⟩ : Source).Gives
        (Workspace.ofSettings {}).vocabulary
        (⟨.number, "1", 1⟩ :: List.replicate (n + 1) ⟨.rightParen, ")", 1⟩
          ++ [⟨.endOfInput, "EOF", 1⟩]) :=
    .cons rfl rfl (gives_closing _ _ _ _)
  have no_return : ∀ c ∈ nestedText (n + 1), (c != '\r') = true := by
    intro c hc
    simp only [nestedText, List.mem_append, List.mem_cons, List.mem_replicate] at hc
    rcases hc with ⟨-, rfl⟩ | rfl | ⟨-, rfl⟩ <;> rfl
  rw [Source.ofText, Scanner.ofSource, List.filter_eq_self.2 no_return, nested, List.append_assoc]
  exact gives_opening one none (n + 1) true

/-- Each pair of parentheses takes three levels, and the number one. -/
theorem expression_nested (n : Nat) :
    Expression (.ofSettings {}) (3 * n + 1) 0 (nested n) (.constant (.int 1)) := by
  induction n with
  | zero =>
    have one : leaf? (.ofSettings {}) ⟨.number, "1", 1⟩ = some (.constant (.int 1)) := by
      decide +kernel
    exact Element.expression (.leaf one)
  | succ n ih =>
    rw [nested_succ]
    rw [← expression_add _ _ 2] at ih
    exact Element.expression (.parens rfl ih rfl)

theorem lt_of_expression_nested {n : Nat} {e : Expr}
    (h : Expression (.ofSettings {}) depth 0 (nested n) e) : 3 * n < depth := by
  induction n generalizing depth e with
  | zero =>
    cases depth with
    | zero => exact h.elim
    | succ depth => exact Nat.zero_lt_succ _
  | succ n ih =>
    cases depth with
    | zero => exact h.elim
    | succ depth =>
      rw [nested_succ] at h
      have inner := expression_nested n
      rw [← expression_add _ _ 2] at inner
      obtain ⟨_, within⟩ := inner.within_parens rfl rfl h
      match depth, within with
      | depth + 2, within =>
        have := ih within
        omega

theorem lt_of_statements_nested {n : Nat}
    (h : Statements (.ofSettings {}) depth (nested n) es) : 3 * n < depth := by
  have no_mark {t : Token} (ht : t ∈ nested n) : t.kind ≠ .colon ∧ t.kind ≠ .semicolon := by
    simp only [nested, List.mem_append, List.mem_cons, List.mem_replicate] at ht
    rcases ht with ⟨-, rfl⟩ | rfl | ⟨-, rfl⟩ <;> exact ⟨by decide, by decide⟩
  generalize line : nested n = ts at h
  cases h with
  | last h =>
    cases h with
    | plain h => exact lt_of_expression_nested (line ▸ h)
    | conditional _ kind => exact ((no_mark (by simp [line])).1 kind).elim
  | closed _ kind | cons _ kind => exact ((no_mark (by simp [line])).2 kind).elim

/-- **The grammar has no bound for its depth, but the reader has one**: a number in 2500 pairs of
parentheses is in the grammar, and the standard machine does not read the line. -/
theorem nested_not_read :
    (Source.ofText (nestedText 2500)).Gives (Workspace.ofSettings {}).vocabulary
        (nested 2500 ++ [⟨.endOfInput, "EOF", 1⟩]) ∧
      Statements (.ofSettings {}) 7501 (nested 2500) [.constant (.int 1)] ∧
      ∃ line, (read (.ofText (nestedText 2500)) (.ofSettings {})).1 =
        .error (.error (.parse ⟨.tooDeep, line, [], none⟩)) := by
  have gives := gives_nested 2499
  have derived : Statements (.ofSettings {}) 7501 (nested 2500) [.constant (.int 1)] :=
    .last (.plain (expression_nested 2500))
  refine ⟨gives, derived, ?_⟩
  rcases read_complete gives rfl derived with hr | ⟨-, refused⟩
  · rcases read_sound gives rfl with ⟨es, -, hp⟩ | ⟨failure, hr', -⟩
    · have lt : 3 * 2500 < 980 := lt_of_statements_nested hp
      exact absurd lt (by decide)
    · exact nomatch hr.symm.trans hr'
  · exact refused

end Line

end ArrayCalc
