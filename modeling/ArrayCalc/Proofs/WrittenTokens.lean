import ArrayCalc.Proofs.GrammarSound
import ArrayCalc.Proofs.Spelling

/-!
# Tokens of written text

Written text consists of words with blanks, brackets and semicolons between them, on one line.  Each
word is a token by itself, so the tokens of a text are those of its parts in a row.

Blanks in front of a token do not matter to the scanner, and neither does a missing word between two
of the marks.
-/

namespace ArrayCalc

open Lexeme (separators endsOperand)

variable {v : Vocabulary} {kind : TokenKind} {word x y : List Char} {ts us : List Token}

/-! ## § Words -/

/-- A word that is a token of its own between a character that ends no operand and a separator. -/
structure Spelled (v : Vocabulary) (kind : TokenKind) (word : List Char) : Prop where
  cut : ∃ c rest, word = c :: rest ∧ (c ≠ ' ' ∧ c ≠ '\t') ∧
    ∀ p d tail, endsOperand p = false → d ∈ separators →
      Lexeme.ofText v (some p) c (rest ++ d :: tail) = .token kind word.length
  no_feed : '\n' ∉ word
  no_return : '\r' ∉ word
  inner : kind.isLineEnd = false

/-- The sign of an assignment before a separator. -/
theorem spelled_assign (v : Vocabulary) : Spelled v .assign ['='] where
  cut := by
    refine ⟨'=', [], rfl, by decide, fun p d tail _ hd => ?_⟩
    have single : Lexeme.startsWith '=' (d :: tail) = false := by
      refine beq_eq_false_iff_ne.2 fun e => ?_
      rw [Option.some.inj e] at hd
      exact absurd hd (by decide)
    show (if Lexeme.startsWith '=' (d :: tail) then _ else Lexeme.token .assign 1) = _
    rw [single]
    rfl
  no_feed := by decide
  no_return := by decide
  inner := rfl

/-- A name that is a token of its own is cut as what it is called. -/
theorem spelled_name {name : String} (identifier : Text.isIdentifier name = true)
    (inner : kind.isLineEnd = false)
    (named : ∀ d tail, Lexeme.Separates d →
      Lexeme.word.named v (name.toList ++ d :: tail) name.toList name (d :: tail)
        name.toList.length = .token kind name.toList.length) :
    Spelled v kind name.toList := by
  have words (c : Char) (hc : c ∈ name.toList) : Text.isWordChar c = true :=
    Lexeme.isWordChar_of_isIdentifier (by rwa [String.ofList_toList]) hc
  have other {c : Char} (hc : Text.isWordChar c = false) : c ∉ name.toList := fun hm =>
    nomatch hc.symm.trans (words c hm)
  refine ⟨?_, other (by decide), other (by decide), inner⟩
  obtain ⟨c, rest, eq⟩ : ∃ c rest, name.toList = c :: rest :=
    List.exists_cons_of_ne_nil fun none => by
      rw [Text.isIdentifier, none] at identifier
      exact nomatch identifier
  have visible : c ≠ ' ' ∧ c ≠ '\t' := by
    constructor
    all_goals
      rintro rfl
      exact other (by decide) (eq ▸ List.mem_cons_self)
  refine ⟨c, rest, eq, visible, fun p d tail _ hd => ?_⟩
  have separates := Lexeme.separates_of_mem hd
  have first : Text.isIdentifier (String.ofList (c :: rest)) = true := by
    rwa [← eq, String.ofList_toList]
  rw [Lexeme.ofText_of_isWordChar (words c (eq ▸ List.mem_cons_self))
    (Lexeme.not_isAsciiDigit_of_isIdentifier first), ← List.cons_append, ← eq,
    Lexeme.word_before words separates.word (separates.terminator tail), String.ofList_toList]
  exact named d tail separates

/-- A name that is an operator.  The word `o` is none here, since no point stands behind it. -/
theorem spelled_operator {name : String} (identifier : Text.isIdentifier name = true)
    (no_keyword : name ≠ "op") (no_outer : name ≠ "o") (known : v.isOperator name = true) :
    Spelled v .operator name.toList := by
  refine spelled_name identifier rfl fun d tail separates => ?_
  rw [Lexeme.named_operator ⟨no_keyword, no_outer⟩ known]
  exact Lexeme.operator_before separates name.toList tail

/-- The word `o` is the name of a variable, even if it is an operator too. -/
theorem spelled_outer (v : Vocabulary) : Spelled v .identifier "o".toList := by
  refine spelled_name (by decide +kernel) rfl fun d tail separates => ?_
  exact Lexeme.named_single rfl (separates.no_point tail)

namespace Scanner

variable {s s' s'' t : Scanner} {a : Token} {c d p : Char} {n : Nat} {tail rest : List Char}

/-- Scanners that differ by blanks in front of the next token. -/
def Alike (s t : Scanner) : Prop := s.skipBlanks = t.skipBlanks

theorem Alike.next (h : s.Alike t) (v : Vocabulary) : s.next v = t.next v := by
  unfold Scanner.next
  rw [h]

theorem skipBlanks_of_head (h : c ≠ ' ' ∧ c ≠ '\t') (rest : List Char) (q : Option Char)
    (feeds : Nat) : skipBlanks ⟨c :: rest, q, feeds⟩ = ⟨c :: rest, q, feeds⟩ := by
  have none : Lexeme.runLength (fun c => c == ' ' || c == '\t') (c :: rest) = 0 := by
    unfold Lexeme.runLength
    rw [List.takeWhile_cons_of_neg (by simp [h])]
    rfl
  unfold skipBlanks advance
  rw [none]
  rfl

theorem alike_blank (rest : List Char) (q : Option Char) (feeds : Nat) :
    Alike ⟨' ' :: rest, q, feeds⟩ ⟨rest, some ' ', feeds⟩ := by
  have more : Lexeme.runLength (fun c => c == ' ' || c == '\t') (' ' :: rest)
      = Lexeme.runLength (fun c => c == ' ' || c == '\t') rest + 1 := rfl
  generalize hk : Lexeme.runLength (fun c => c == ' ' || c == '\t') rest = k at more
  have last : (' ' :: rest.take k).getLast? = some ((rest.take k).getLast?.getD ' ') :=
    List.getLast?_cons
  unfold Alike skipBlanks advance
  dsimp only
  rw [more, hk, List.take_succ_cons, last, List.count_cons_of_ne (by decide), List.drop_succ_cons]
  cases (rest.take k).getLast? <;> rfl

/-- The scanner behind a word. -/
theorem advance_word (hw : word ≠ []) (feed : '\n' ∉ word) (tail : List Char) (q : Option Char)
    (feeds : Nat) :
    advance ⟨word ++ tail, q, feeds⟩ word.length = ⟨tail, word.getLast?, feeds⟩ := by
  unfold advance
  dsimp only
  rw [List.take_left, List.drop_left, List.count_eq_zero_of_not_mem feed]
  cases hl : word.getLast? with
  | none => exact absurd (List.getLast?_eq_none_iff.1 hl) hw
  | some c =>
    have other : c ≠ '\n' := fun e => feed (e ▸ List.mem_of_getLast? hl)
    dsimp only
    rw [if_neg other]
    rfl

/-- The tokens that lead from one scanner to another on one line. -/
inductive Cuts (v : Vocabulary) : Scanner → List Token → Scanner → Prop
  | nil (s : Scanner) : Cuts v s [] s
  | cons {s s' s'' : Scanner} {a : Token} {ts : List Token} (h : s.next v = (.ok a, s'))
      (inner : a.kind.isLineEnd = false) (rest : Cuts v s' ts s'') : Cuts v s (a :: ts) s''

theorem Cuts.append (h : Cuts v s ts s') (k : Cuts v s' us s'') : Cuts v s (ts ++ us) s'' := by
  induction h with
  | nil => exact k
  | cons h inner _ ih => exact .cons h inner (ih k)

theorem Cuts.alike (h : Cuts v s ts s') (same : s.Alike t) : ∃ t', Cuts v t ts t' ∧ s'.Alike t' := by
  cases h with
  | nil => exact ⟨t, .nil t, same⟩
  | cons h inner rest => exact ⟨s', .cons (same.next v ▸ h) inner rest, rfl⟩

/-- A token that takes just one word. -/
theorem next_word {q : Option Char} (blank : c ≠ ' ' ∧ c ≠ '\t') (feed : '\n' ∉ c :: rest)
    (cut : Lexeme.ofText v q c (rest ++ tail) = .token kind (c :: rest).length) (feeds : Nat) :
    next v ⟨c :: rest ++ tail, q, feeds⟩
      = (.ok ⟨kind, String.ofList (c :: rest), feeds + 1⟩,
        ⟨tail, (c :: rest).getLast?, feeds⟩) := by
  have first := skipBlanks_of_head blank (rest ++ tail) q feeds
  have next := next_token (s := ⟨c :: rest ++ tail, q, feeds⟩) (v := v)
    (congrArg Scanner.rest first) (by rw [List.cons_append, first]; exact cut)
  rw [next, List.cons_append, first, ← List.cons_append, List.take_left,
    advance_word (List.cons_ne_nil _ _) feed]
  rfl

theorem next_spelled (h : Spelled v kind word) (hp : endsOperand p = false) (hd : d ∈ separators)
    (tail : List Char) (feeds : Nat) :
    next v ⟨word ++ d :: tail, some p, feeds⟩
      = (.ok ⟨kind, String.ofList word, feeds + 1⟩, ⟨d :: tail, word.getLast?, feeds⟩) := by
  obtain ⟨⟨c, rest, rfl, blank, cut⟩, no_feed, -, -⟩ := h
  exact next_word blank no_feed (cut p d tail hp hd) feeds

end Scanner

/-! ## § Texts -/

/-- A text that gives some tokens, on the first line, wherever it stands. -/
structure Writes (v : Vocabulary) (text : List Char) (ts : List Token) : Prop where
  cuts : ∀ p d tail, endsOperand p = false → d ∈ separators →
    ∃ s q, Scanner.Cuts v ⟨text ++ d :: tail, some p, 0⟩ ts s ∧ s.Alike ⟨d :: tail, q, 0⟩
  no_return : '\r' ∉ text

namespace Writes

open Scanner (Cuts)

theorem nil (v : Vocabulary) : Writes v [] [] :=
  ⟨fun _ _ _ _ _ => ⟨_, _, .nil _, rfl⟩, List.not_mem_nil⟩

theorem spelled (h : Spelled v kind word) : Writes v word [⟨kind, String.ofList word, 1⟩] := by
  refine ⟨fun p d tail hp hd => ?_, h.no_return⟩
  exact ⟨_, _, .cons (Scanner.next_spelled h hp hd tail 0) h.inner (.nil _), rfl⟩

/-- Two texts with a blank between them. -/
theorem blank (hx : Writes v x ts) (hy : Writes v y us) : Writes v (x ++ ' ' :: y) (ts ++ us) := by
  refine ⟨fun p d tail hp hd => ?_, by simp [hx.no_return, hy.no_return]⟩
  obtain ⟨s, q, first, same⟩ := hx.cuts p ' ' (y ++ d :: tail) hp (by decide)
  obtain ⟨s', q', second, same'⟩ := hy.cuts ' ' d tail (by decide) hd
  have behind := same.trans (Scanner.alike_blank (y ++ d :: tail) q 0)
  obtain ⟨s'', third, same''⟩ := second.alike behind.symm
  refine ⟨s'', q', ?_, same''.symm.trans same'⟩
  rw [List.append_assoc, List.cons_append]
  exact first.append third

/-- A mark is a token whatever stands beside it. -/
structure Mark (c : Char) (kind : TokenKind) : Prop where
  blank : c ≠ ' ' ∧ c ≠ '\t'
  no_feed : c ≠ '\n'
  visible : c ≠ '\r'
  inner : kind.isLineEnd = false
  cut : ∀ v q tail, Lexeme.ofText v q c tail = .token kind 1

theorem Mark.spelled {c : Char} (h : Mark c kind) : Spelled v kind [c] where
  cut := ⟨c, [], rfl, h.blank, fun p d tail _ _ => h.cut v p (d :: tail)⟩
  no_feed := by simpa using h.no_feed.symm
  no_return := by simpa using h.visible.symm
  inner := h.inner

theorem mark_leftParen : Mark '(' .leftParen :=
  ⟨by decide, by decide, by decide, rfl, fun _ _ _ => rfl⟩

theorem mark_rightParen : Mark ')' .rightParen :=
  ⟨by decide, by decide, by decide, rfl, fun _ _ _ => rfl⟩

theorem mark_leftBracket : Mark '[' .leftBracket :=
  ⟨by decide, by decide, by decide, rfl, fun _ _ _ => rfl⟩

theorem mark_rightBracket : Mark ']' .rightBracket :=
  ⟨by decide, by decide, by decide, rfl, fun _ _ _ => rfl⟩

theorem mark_semicolon : Mark ';' .semicolon :=
  ⟨by decide, by decide, by decide, rfl, fun _ _ _ => rfl⟩

theorem mark_colon : Mark ':' .colon :=
  ⟨by decide, by decide, by decide, rfl, fun _ _ _ => rfl⟩

theorem next_mark {c : Char} (hc : Mark c kind) (rest : List Char) (q : Option Char) :
    Scanner.next v ⟨c :: rest, q, 0⟩ = (.ok ⟨kind, String.ofList [c], 1⟩, ⟨rest, some c, 0⟩) := by
  have alone : '\n' ∉ [c] := by simpa using hc.no_feed.symm
  exact Scanner.next_word hc.blank alone (hc.cut v q rest) 0

/-- A text with a mark behind it. -/
theorem closed {c : Char} (hx : Writes v x ts) (hc : Mark c kind) (separates : c ∈ separators) :
    Writes v (x ++ [c]) (ts ++ [⟨kind, String.ofList [c], 1⟩]) := by
  refine ⟨fun p d tail hp hd => ?_, by simp [hx.no_return, hc.visible.symm]⟩
  obtain ⟨s, q, first, same⟩ := hx.cuts p c (d :: tail) hp separates
  have mark := (same.next v).trans (next_mark hc (d :: tail) q)
  refine ⟨_, some c, ?_, rfl⟩
  rw [List.append_assoc]
  exact first.append (.cons mark hc.inner (.nil _))

/-- A text behind a mark that ends no operand. -/
theorem opened {c : Char} (hx : Writes v x ts) (hc : Mark c kind) (opens : endsOperand c = false) :
    Writes v (c :: x) (⟨kind, String.ofList [c], 1⟩ :: ts) := by
  refine ⟨fun p d tail hp hd => ?_, by simp [hx.no_return, hc.visible.symm]⟩
  obtain ⟨s, q, rest, same⟩ := hx.cuts c d tail opens hd
  exact ⟨s, q, .cons (next_mark hc (x ++ d :: tail) (some p)) hc.inner rest, same⟩

/-- Two texts with a mark between them. -/
theorem parted {c : Char} (hx : Writes v x ts) (hy : Writes v y us) (hc : Mark c kind)
    (separates : c ∈ separators) (opens : endsOperand c = false) :
    Writes v (x ++ c :: y) (ts ++ ⟨kind, String.ofList [c], 1⟩ :: us) := by
  refine ⟨fun p d tail hp hd => ?_, by simp [hx.no_return, hy.no_return, hc.visible.symm]⟩
  obtain ⟨s, q, first, same⟩ := hx.cuts p c (y ++ d :: tail) hp separates
  obtain ⟨s', q', second, same'⟩ := hy.cuts c d tail opens hd
  have mark := (same.next v).trans (next_mark hc (y ++ d :: tail) q)
  refine ⟨s', q', ?_, same'⟩
  rw [List.append_assoc, List.cons_append]
  exact first.append (.cons mark hc.inner second)

theorem parens (hx : Writes v x ts) :
    Writes v ('(' :: (x ++ [')'])) (⟨.leftParen, "(", 1⟩ :: (ts ++ [⟨.rightParen, ")", 1⟩])) :=
  (hx.closed mark_rightParen (by decide)).opened mark_leftParen (by decide)

end Writes

/-! ## § Lines -/

/-- A text that starts with a sign before a point starts with a number on a line of its own. -/
def SignedPoint (text : List Char) : Prop :=
  ∃ sign rest, (sign = '+' ∨ sign = '-') ∧ text = sign :: '.' :: rest

theorem not_signedPoint_cons {c : Char} (h : c ≠ '+' ∧ c ≠ '-') (rest : List Char) :
    ¬SignedPoint (c :: rest) := by
  rintro ⟨sign, others, hs, eq⟩
  obtain ⟨rfl, -⟩ := List.cons.inj eq
  exact hs.elim h.1 h.2

theorem not_signedPoint_of_notMem {text : List Char} (h : '.' ∉ text) : ¬SignedPoint text := by
  rintro ⟨sign, rest, -, rfl⟩
  exact h (by simp)

/-- At the start of a line a text gives the same tokens as behind a blank. -/
theorem Scanner.next_start {text : List Char} (nonempty : text ≠ []) (h : ¬SignedPoint text)
    (v : Vocabulary) : next v ⟨text, none, 0⟩ = next v ⟨text, some ' ', 0⟩ := by
  obtain ⟨c, rest, rfl⟩ := List.exists_cons_of_ne_nil nonempty
  -- If something is taken, what stood before is forgotten.
  have taken {n : Nat} (hn : 0 < n) :
      advance ⟨c :: rest, none, 0⟩ n = advance ⟨c :: rest, some ' ', 0⟩ n := by
    obtain ⟨m, rfl⟩ := Nat.exists_eq_add_of_lt hn
    have last : ((c :: rest).take (0 + m + 1)).getLast?
        = some ((rest.take (0 + m)).getLast?.getD c) := List.getLast?_cons
    unfold advance
    dsimp only
    rw [last]
  by_cases blank : c ≠ ' ' ∧ c ≠ '\t'
  · have lexeme : Lexeme.ofText v none c rest = Lexeme.ofText v (some ' ') c rest := by
      cases Lexeme.ofText_begins c with
      | sign sign cut =>
        have no_point : Lexeme.startsWith '.' rest = false := by
          refine Bool.eq_false_iff.2 fun e => h ?_
          cases rest with
          | nil => exact nomatch e
          | cons d rest =>
            obtain rfl := Option.some.inj (eq_of_beq e)
            exact ⟨c, rest, sign, rfl⟩
        rw [cut, cut, Lexeme.signed_number rfl no_point]
        rfl
      | special _ cut other =>
        cases hs : Lexeme.symbolLength? c rest with
        | some length => rw [cut _ _ _ _ hs, cut _ _ _ _ hs]
        | none => rw [other _ _ _ hs, other _ _ _ hs]
      | feed _ cut | semicolon _ cut | comment _ cut | quote _ cut | backquote _ cut
      | numeral _ _ cut | equals _ cut | letter _ _ cut => rw [cut, cut]
    have pos := Lexeme.ofText_pos v none c rest
    unfold next
    rw [skipBlanks_of_head blank, skipBlanks_of_head blank]
    dsimp only
    rw [← lexeme]
    cases hl : Lexeme.ofText v none c rest with
    | token kind n =>
      rw [hl] at pos
      exact congrArg (Prod.mk _) (taken pos)
    | comment n =>
      rw [hl] at pos
      exact congrArg (Prod.mk _) (taken pos)
    | bad cause n =>
      rw [hl] at pos
      exact congrArg (fun s : Scanner => (_, { s with previous := none })) (taken pos)
  · have some : 0 < Lexeme.runLength (fun c => c == ' ' || c == '\t') (c :: rest) := by
      rw [Decidable.not_and_iff_or_not, Decidable.not_not, Decidable.not_not] at blank
      unfold Lexeme.runLength
      rcases blank with rfl | rfl <;> exact Nat.succ_pos _
    have skipped : skipBlanks ⟨c :: rest, none, 0⟩ = skipBlanks ⟨c :: rest, Option.some ' ', 0⟩ :=
      taken some
    unfold next
    rw [skipped]

/-- What a scanner cuts is what its source gives. -/
theorem Scanner.Cuts.gives {s s' t : Scanner} {last : Token} (h : s.Cuts v ts s')
    (hn : s'.next v = (.ok last, t)) (ends : last.kind.isLineEnd = true) (ended : Bool) :
    (⟨s, none, ended⟩ : Source).Gives v (ts ++ [last]) := by
  have take {s s' : Scanner} {a : Token} (h : s.next v = (.ok a, s')) (ended : Bool) :
      (⟨s, none, ended⟩ : Source).take v = (.ok a, ⟨s', none, a.kind.isLineEnd⟩) :=
    Source.take_eq_of_peek (Source.peek_of_next rfl h)
  induction h generalizing ended with
  | nil => exact .last (take hn ended) ends
  | cons h inner _ ih => exact .cons (take h ended) inner (ih hn _)

/-- **A text on a line of its own is cut into its tokens, up to the end of the line.** -/
theorem Writes.scanned (h : Writes v x ts) (start : ¬SignedPoint (x ++ ['\n'])) :
    ∃ s, (Scanner.ofSource (x ++ ['\n'])).Cuts v ts s ∧
      s.next v = (.ok ⟨.newline, "\n", 1⟩, ⟨[], none, 1⟩) := by
  obtain ⟨s, q, cuts, same⟩ := h.cuts ' ' '\n' [] (by decide) (by decide)
  have whole : (x ++ ['\n']).filter (· != '\r') = x ++ ['\n'] := by
    rw [List.filter_eq_self]
    intro a ha
    rcases List.mem_append.1 ha with ha | ha
    · exact bne_iff_ne.2 fun e => h.no_return (e ▸ ha)
    · rw [List.mem_singleton.1 ha]
      rfl
  have feed := same.next v
  have first := Scanner.next_start (by simp) start v
  rw [Scanner.ofSource, whole]
  cases cuts with
  | nil => exact ⟨_, .nil _, first.trans feed⟩
  | cons next inner rest => exact ⟨s, .cons (first.trans next) inner rest, feed⟩

/-- A text on a line of its own gives its tokens and the end of the line. -/
theorem Writes.gives (h : Writes v x ts) (start : ¬SignedPoint (x ++ ['\n'])) :
    (Source.ofText (x ++ ['\n'])).Gives v (ts ++ [⟨.newline, "\n", 1⟩]) := by
  obtain ⟨s, cuts, feed⟩ := h.scanned start
  exact cuts.gives feed rfl true

end ArrayCalc
