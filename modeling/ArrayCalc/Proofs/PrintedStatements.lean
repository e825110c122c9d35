import ArrayCalc.Proofs.LineGrammar
import ArrayCalc.Proofs.Paths
import ArrayCalc.Proofs.PrintedTrees
import ArrayCalc.Proofs.Situations

/-!
# Statements that are read again

The tokens that statements have been read from are the tokens of their line, and each name and
operator among them is cut in the same way wherever it is written again.  So the text of a statement,
on a line of its own, is read as the statement.

There are three exceptions.  Some trees are not told from others by their text.  At the start of a
line a sign before a point starts a number, even if it was an operator behind a semicolon.  And the
parentheses of a text may nest deeper than a reader goes.
-/

namespace ArrayCalc

open Grammar

variable {v : Vocabulary} {w : Workspace} {s s' : Source} {t : Token} {ts : List Token} {e : Expr}
  {es : List Expr}

/-! ## § The tokens of a line -/

theorem Lexeme.ofText_blank {blank : Char} (h : blank = ' ' ∨ blank = '\t') (v : Vocabulary)
    (previous : Option Char) (rest : List Char) :
    ofText v previous blank rest = .token .char 1 := by
  rcases h with rfl | rfl <;> rfl

/-- A name or an operator that has been scanned. -/
theorem Scanner.next_respelled {scanner scanner' : Scanner} (base : v.inputBase = 10)
    (h : scanner.next v = (.ok t, scanner')) : Respelled v t := by
  intro name
  have hk : Lexeme.IsName t.kind := name.imp_right And.left
  rcases Scanner.next_cases h with ⟨-, kind, -⟩ | ⟨c, rest, n, -, -, ⟨cut, text⟩ | ⟨-, kind⟩⟩
  · rcases hk with hk | hk <;> exact nomatch hk.symm.trans kind
  · have outer : t.kind = .operator → String.ofList ((c :: rest).take n) ≠ "o" := by
      rw [← text]
      rintro kind
      rcases name with hi | ⟨-, outer⟩
      · exact nomatch hi.symm.trans kind
      · exact outer
    have word : t.text.toList = (c :: rest).take n := by rw [text, String.toList_ofList]
    have sound := Lexeme.sound_ofText cut
    have visible : c ≠ ' ' ∧ c ≠ '\t' := by
      rw [← not_or]
      intro blank
      rw [Lexeme.ofText_blank blank] at cut
      obtain ⟨kind, -⟩ := Lexeme.token.inj cut
      rcases hk with hk | hk <;> exact nomatch kind.trans hk
    have again {d : Char} (hd : d ∈ Lexeme.separators) (tail : List Char) :=
      Lexeme.ofText_cut base (Lexeme.separates_of_mem hd) cut hk outer tail
    obtain ⟨pos, bound, -⟩ := again (d := ' ') (by decide) []
    have first := Lexeme.take_pos pos c rest []
    rw [List.append_nil, List.append_nil] at first
    rw [word]
    refine ⟨⟨c, rest.take (n - 1), first, visible, fun p d tail hp hd => ?_⟩, ?_,
      Lexeme.ofText_no_return cut hk, ?_⟩
    · rw [List.length_take, Nat.min_eq_left bound]
      exact (again hd tail).2.2 p hp
    · simpa using sound.no_feed hk
    · rcases hk with hk | hk <;> rw [hk] <;> rfl
  · rcases hk with hk | hk <;> exact nomatch hk.symm.trans kind

/-- The names and operators of a line, apart from one that has been looked at before. -/
theorem Source.Gives.respelled (base : v.inputBase = 10) (h : s.Gives v ts)
    (looked : ∀ t, s.peeked = some t → Respelled v t) : ∀ t ∈ ts, Respelled v t := by
  have taken {s s' : Source} {t : Token} (h : s.take v = (.ok t, s'))
      (looked : ∀ t, s.peeked = some t → Respelled v t) : Respelled v t := by
    obtain ⟨s₁, hp, -, -⟩ := Source.peek_of_take h
    rcases Source.peek_cases hp with ⟨peeked, -⟩ | ⟨-, scanner, hn, -⟩
    · exact looked t peeked
    · exact Scanner.next_respelled base hn
  induction h with
  | last h => exact List.forall_mem_singleton.2 (taken h looked)
  | cons h _ _ ih =>
    refine List.forall_mem_cons.2 ⟨taken h looked, ih fun t ht => ?_⟩
    exact nomatch (Source.peeked_of_take h).symm.trans ht

/-- Looking at a token does not change the line. -/
theorem Source.Gives.of_peek (hp : s.peek v = (.ok t, s')) (h : s'.Gives v ts) : s.Gives v ts := by
  have same : s.take v = s'.take v := by
    rw [Source.take_eq_of_peek hp, Source.take_of_peeked (Source.peeked_of_peek hp)]
  cases h with
  | last h ends => exact .last (same.trans h) ends
  | cons h inner rest => exact .cons (same.trans h) inner rest

/-- A path to the end of a line goes along the tokens of the line. -/
theorem Source.Path.gives {V : Vocabulary → Prop} (known : ∀ v', V v' → v' = v)
    (h : s.Path V s') (inside : s.atLineEnd = false) (ended : s'.atLineEnd = true) :
    ∃ ts last, s.Gives v (ts ++ [last]) := by
  induction h using Relation.ReflTransGen.head_induction_on with
  | refl => exact nomatch inside.symm.trans ended
  | @head s s₁ step _ ih =>
    cases step with
    | look hv hp =>
      obtain rfl := known _ hv
      have inside₁ : s₁.atLineEnd = false := by
        rcases Source.peek_cases hp with ⟨-, rfl⟩ | ⟨-, scanner, -, rfl⟩ <;> exact inside
      obtain ⟨ts, last, gives⟩ := ih inside₁
      exact ⟨ts, last, .of_peek hp gives⟩
    | @take t hp =>
      have taken := Source.take_of_peeked hp v
      cases kind : t.kind.isLineEnd with
      | true => exact ⟨[], t, .last taken kind⟩
      | false =>
        obtain ⟨ts, last, gives⟩ := ih kind
        exact ⟨t :: ts, last, .cons taken kind gives⟩

namespace Line

/-! ## § Statements of a line -/

/-- What does not start with a statement is not read as statements. -/
theorem reading_other [Machine] {r : Reader} (h : Reading.Facing w r (t :: ts))
    (start : startsStatements t.kind = false) :
    Outcome reading r (fun line _ => ∀ es, line ≠ .statements es) fun _ _ => True := by
  have any {α : Type} (x : Reading α) (r : Reader) :
      Outcome x r (fun _ _ => True) fun _ _ => True := by
    unfold Outcome
    split <;> trivial
  refine .bind (Reading.peekKind_facing h) fun kind r₁ ⟨hkind, h₁⟩ => ?_
  subst hkind
  split
  · exact .bind (any _ _) fun _ _ _ => .pure nofun
  · exact .bind (any _ _) fun _ _ _ => .pure nofun
  · exact .bind (any _ _) fun _ _ _ => .get (.set (.pure nofun))
  · exact .bind (any _ _) fun _ _ _ => .bind (any _ _) fun _ _ _ => .pure nofun
  next newline eof paren keyword =>
    cases kind : t.kind <;> rw [kind] at start newline eof paren keyword <;> contradiction

/-- **What has been read as statements is the phrase of its line.** -/
theorem statements_of_read [Machine] {w' : Workspace}
    (h : read s w = (.ok (.statements es), s', w')) :
    ∃ ts last, s.Gives w.vocabulary (ts ++ [last]) ∧
      Statements w Machine.nesting ts es := by
  have path := reading_path (r := ⟨{ s with atLineEnd := false }, w, none⟩) rfl
  have line : (read s w).1 = .ok (.statements es) := congrArg Prod.fst h
  cases attempt h with
  | whole hr =>
    obtain ⟨walk, -, ended⟩ := path.of_ok hr
    obtain ⟨ts, last, gives⟩ := walk.path.gives (fun v known => known rfl) rfl ended
    have gives := gives_fresh gives s.atLineEnd
    obtain ⟨t, us, first⟩ := gives.ne_nil
    have facing := first ▸ facing_start gives
    cases start : startsStatements t.kind with
    | true =>
      have head : (ts ++ [last]).head?.all (startsStatements ·.kind) = true := by
        rw [first]
        exact start
      rcases read_sound gives head with ⟨fs, hr', hp⟩ | ⟨failure, hr', -⟩
      · obtain rfl := Line.statements.inj (Except.ok.inj (line.symm.trans hr'))
        exact ⟨ts, last, gives, hp⟩
      · exact nomatch line.symm.trans hr'
    | false => exact absurd rfl ((reading_other facing start).of_ok hr es)

/-- A statement that is there is a phrase of its own. -/
theorem statement_of_mem {inner : Phrase} (h : StatementsOver inner ts es) (he : e ∈ es)
    (some : e ≠ .empty) : ∃ us, us ⊆ ts ∧ Statement inner us e := by
  have optional {us : List Token} {f : Expr} (h : Optional (Statement inner) us f)
      (some : f ≠ .empty) : Statement inner us f := by
    cases h with
    | present h => exact h
    | absent => exact absurd rfl some
  induction h with
  | last h =>
    obtain rfl := List.mem_singleton.1 he
    exact ⟨_, fun _ ht => ht, h⟩
  | closed h _ =>
    obtain rfl := List.mem_singleton.1 he
    exact ⟨_, List.subset_append_left _ _, optional h some⟩
  | cons h _ _ ih =>
    rcases List.mem_cons.1 he with rfl | he
    · exact ⟨_, List.subset_append_left _ _, optional h some⟩
    · obtain ⟨us, sub, h⟩ := ih he
      exact ⟨us, fun t ht => by simp [sub ht], h⟩

theorem startsStatements_of_statement {depth : Nat} (h : Statement (Expression w depth 0) ts e) :
    ∃ t us, ts = t :: us ∧ startsStatements t.kind = true := by
  obtain ⟨t, us, rfl, kind⟩ := Statement.starts (Expression.clear w depth 0) h
  have starts (kind : TokenKind) (h : startsExpression kind = true) :
      startsStatements kind = true := by
    revert h
    cases kind <;> decide
  exact ⟨t, us, rfl, starts _ kind⟩

theorem signedPoint_of_feed {text : List Char} (h : SignedPoint (text ++ ['\n'])) :
    SignedPoint text := by
  obtain ⟨sign, rest, hs, eq⟩ := h
  rcases text with _ | ⟨c, _ | ⟨d, more⟩⟩
  · obtain ⟨rfl, -⟩ := List.cons.inj eq
    rcases hs with hs | hs <;> exact absurd hs (by decide)
  · exact absurd (List.cons.inj (List.cons.inj eq).2).1 (by decide)
  · obtain ⟨rfl, others⟩ := List.cons.inj eq
    obtain ⟨rfl, -⟩ := List.cons.inj others
    exact ⟨c, more, hs, rfl⟩

open Session (Reached)

/-- **The text of a statement is read as the statement.**  Whatever statements a line has been read
as in a session with decimal input, each that is there and legible has a text which, on a line of its
own, is read as that statement alone.  The text must not start with a sign before a point, and its
parentheses must not nest deeper than a reader goes, which is what it is refused for then. -/
theorem read_text [Machine] {settings : Settings} (hs : settings.check = .ok settings)
    (decimal : settings.inputBase = 10) {ss : List Source} (h : Reached settings ⟨s :: ss, w⟩)
    {w' : Workspace} (hr : read s w = (.ok (.statements es), s', w')) (he : e ∈ es)
    (some : e ≠ .empty) (legible : e.Legible) (start : ¬SignedPoint e.text.toList) :
    (read (.ofText (e.text ++ "\n").toList) w').1 = .ok (.statements [e]) ∨
      Machine.nesting < e.levels ∧ ∃ line, (read (.ofText (e.text ++ "\n").toList) w').1
        = .error (.error (.parse ⟨.tooDeep, line, [], none⟩)) := by
  have order := h.inOrder hs
  have settled := order.settled
  have base : w.settings.inputBase = 10 := by rw [settled.settings, decimal]
  have same : w' = w := by
    cases read_ok settled.declared settled.spares hr
    rfl
  subst same
  obtain ⟨ts, last, gives, derived⟩ := statements_of_read hr
  obtain ⟨us, sub, statement⟩ := statement_of_mem derived he some
  have ready : s.Ready := order.ready s List.mem_cons_self
  -- What has been looked at between two lines is no word.
  have words := gives.respelled base fun t ht name => by
    obtain ⟨no_operator, no_name⟩ := ready t ht
    rcases name with name | ⟨operator, -⟩
    · exact absurd name no_name
    · exact absurd operator no_operator
  have ordinary : w'.Ordinary := ⟨base, settled.declared, settled.spares⟩
  obtain ⟨vs, writes, written⟩ := statement.written ordinary
    (fun t ht => words t (List.mem_append_left _ (sub ht))) legible
  have given := writes.gives fun point => start (signedPoint_of_feed point)
  have text : (e.text ++ "\n").toList = e.text.toList ++ ['\n'] := String.toList_append
  rw [text]
  obtain ⟨t, xs, rfl, kind⟩ := startsStatements_of_statement written
  exact read_complete given kind (.last written)

theorem read_of_line [Machine] {line : Line} (h : (read s w).1 = .ok line) :
    read s w = (.ok line, (read s w).2.1, (read s w).2.2) := Prod.ext h rfl

/-- **The text of an expression is read as the expression,** if it does not nest too deep and does not
start with a sign before a point. -/
theorem read_written [Machine] {text : List Char} {depth : Nat} (declared : w.declared = [])
    (spares : w.SparesOuter) (writes : Writes w.vocabulary text ts)
    (derived : Expression w depth 0 ts e) (shallow : depth ≤ Machine.nesting)
    (start : ¬SignedPoint text) :
    ∃ s, read (.ofText (text ++ ['\n'])) w = (.ok (.statements [e]), s, w) := by
  have gives := writes.gives fun point => start (signedPoint_of_feed point)
  obtain ⟨t, us, rfl, kind⟩ := startsStatements_of_statement (.plain derived)
  have line := (read_complete gives kind (.last (.plain derived))).resolve_right fun deep =>
    Nat.not_lt.2 shallow deep.1
  obtain ⟨s, w', read⟩ : ∃ s w', read (.ofText (text ++ ['\n'])) w
      = (.ok (.statements [e]), s, w') := ⟨_, _, read_of_line line⟩
  cases read_ok declared spares read
  exact ⟨s, read⟩

/-- The text of a tree, on a line of its own, is read as the tree. -/
theorem read_readable [Machine] (declared : w.declared = []) (spares : w.SparesOuter)
    (h : Readable w e) (shallow : e.levels ≤ Machine.nesting) (start : ¬SignedPoint e.text.toList) :
    ∃ s, read (.ofText (e.text ++ "\n").toList) w = (.ok (.statements [e]), s, w) := by
  obtain ⟨ts, writes, derived⟩ := h.expression
  have text : (e.text ++ "\n").toList = e.text.toList ++ ['\n'] := String.toList_append
  rw [text]
  exact read_written declared spares writes derived shallow start

/-- A condition with a text among its operands, and a result with a missing subscript. -/
def guarded : Expr :=
  .conditional (.strand [.constant (.int 2), .string ['a', 'b'], .sessionVar "x"])
    (.binary "+" (.index (.sessionVar "x") [.constant (.int 1), .empty])
      (.unary "-/" (.binary "o.*" (.constant (.int 3)) (.sessionVar "x"))))

def guardedLine : Source := .ofText "x = -1; 2 'ab' x : x[1;] + -/ 3 o.* x\n".toList

theorem read_text_guarded :
    guarded.text = "2 ('ab') x : x[1; ] + -/ 3 o.* x" ∧
      (read (.ofText (guarded.text ++ "\n").toList) (read guardedLine (.ofSettings {})).2.2).1
        = .ok (.statements [guarded]) := by
  have line : (read guardedLine (.ofSettings {})).1
      = .ok (.statements [.assign (.sessionVar "x") (.constant (.int (-1))), guarded]) :=
    read_of_toOption (by decide +kernel)
  have reached : Reached {} ⟨[guardedLine], .ofSettings {}⟩ :=
    ⟨_, .single (.opened [] (.ofSettings {}) _)⟩
  have legible : guarded.Legible := ⟨by decide, by decide⟩
  have text : guarded.text = "2 ('ab') x : x[1; ] + -/ 3 o.* x" := by decide +kernel
  have start : ¬SignedPoint guarded.text.toList := by
    rw [text]
    rintro ⟨sign, rest, hs, eq⟩
    obtain ⟨rfl, -⟩ := List.cons.inj eq
    exact absurd hs (by decide)
  have mem : guarded ∈ [Expr.assign (.sessionVar "x") (.constant (.int (-1))), guarded] := by simp
  have some : guarded ≠ .empty := nofun
  refine ⟨text, (read_text rfl rfl reached (read_of_line line) mem some legible
    start).resolve_right ?_⟩
  rintro ⟨deep, -⟩
  exact absurd deep (by decide)

end Line

end ArrayCalc
