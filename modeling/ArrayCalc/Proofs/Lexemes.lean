import ArrayCalc.Proofs.Branches
import ArrayCalc.Proofs.Scope

/-!
# Operator tokens

An operator token is one operator word, or it is derived from one or two: a fold carries its mark
behind the base, and a product has a point between its halves.  The scanner derives from binary
operators only, and from the `o` of the outer product.

An identifier token is a word that is no operator at the time, or the word `o`.
-/

namespace ArrayCalc

namespace OperatorWord

/-- What the scanner makes sure of in the text of an operator token. -/
structure Derivable (isBinary : String → Bool) (word : String) : Prop where
  base : isProduct word = false → ∀ base mark, splitMark? word = some (base, mark) →
    isBinary base = true ∨ base = "+" ∨ base = "-"
  halves : isProduct word = true → ∀ s ∈ partNeeds (operators word), isBinary s.name = true
  /-- A mark at the end of a product is all of its second operator. -/
  folded : isProduct word = true → ∀ base mark, splitMark? word = some (base, mark) →
    ∃ left, operators base = [left, ""]
  no_feed : '\n' ∉ word.toList

end OperatorWord

namespace Lexeme

open OperatorWord (Plain Derivable)

theorem runLength_le (p : Char → Bool) (text : List Char) : runLength p text ≤ text.length :=
  (List.takeWhile_sublist p).length_le

theorem take_runLength (p : Char → Bool) (text : List Char) :
    text.take (runLength p text) = text.takeWhile p :=
  (List.prefix_iff_eq_take.1 (List.takeWhile_prefix p)).symm

/-- A run ends before the first character of another kind. -/
theorem runLength_behind {p : Char → Bool} {x : List Char} {d : Char} (all : ∀ c ∈ x, p c = true)
    (other : p d = false) (tail : List Char) : runLength p (x ++ d :: tail) = x.length := by
  unfold runLength
  rw [List.takeWhile_append_of_pos all, List.takeWhile_cons_of_neg (by rw [other]; decide),
    List.append_nil]

theorem plain_of_isWordChar {word : List Char} (h : ∀ c ∈ word, Text.isWordChar c = true) :
    Plain word := by
  refine OperatorWord.plain_of_forall fun c hc => ?_
  have hw := h c hc
  refine ⟨?_, ?_, ?_, ?_⟩
  all_goals
    rintro rfl
    exact absurd hw (by decide)

theorem plain_run (text : List Char) : Plain (text.take (runLength Text.isWordChar text)) := by
  rw [take_runLength]
  refine plain_of_isWordChar fun c hc => ?_
  exact List.all_eq_true.1 List.all_takeWhile c hc

theorem operatorTails_cases {c d : Char} (h : d ∈ operatorTails c) :
    c ∈ ['!', '>', '<', '*', '='] ∧ d ∈ ['=', '>', '<', '*'] := by
  unfold operatorTails at h
  split at h <;> simp_all
  all_goals rcases h with rfl | rfl <;> simp

/-- Operators of special characters are plain words. -/
theorem plain_symbol {c : Char} {rest : List Char} {length : Nat}
    (h : symbolLength? c rest = some length) : Plain ((c :: rest).take length) := by
  unfold symbolLength? at h
  split at h
  next single =>
    obtain rfl := Option.some.inj h
    refine OperatorWord.plain_singleton ?_
    constructor
    all_goals
      rintro rfl
      exact absurd single (by decide)
  next =>
    split at h
    · simp at h
    next tails =>
      have hc : c ≠ '.' ∧ c ≠ '\n' := by
        constructor
        all_goals
          rintro rfl
          exact absurd (show (operatorTails _).isEmpty = true from rfl) tails
      split at h
      next second =>
        obtain rfl := Option.some.inj h
        cases rest with
        | nil => simp at second
        | cons d rest =>
          have hd : d ∈ operatorTails c := by simpa using second
          obtain ⟨hc, hd⟩ := operatorTails_cases hd
          refine OperatorWord.plain_of_forall fun e he => ?_
          rw [List.take_succ_cons, List.take_succ_cons, List.take_zero] at he
          simp only [List.mem_cons, List.not_mem_nil, or_false] at he hc hd
          rcases he with rfl | rfl
          · rcases hc with rfl | rfl | rfl | rfl | rfl <;> decide
          · rcases hd with rfl | rfl | rfl | rfl <;> decide
      next =>
        split at h
        · simp at h
        · obtain rfl := Option.some.inj h
          exact OperatorWord.plain_singleton hc

/-- Operators of special characters lie within their text. -/
theorem symbolLength?_le {c : Char} {rest : List Char} {length : Nat}
    (h : symbolLength? c rest = some length) : 0 < length ∧ length ≤ rest.length + 1 := by
  unfold symbolLength? at h
  split at h
  · obtain rfl := Option.some.inj h
    omega
  split at h
  · exact nomatch h
  split at h
  next second =>
    obtain rfl := Option.some.inj h
    cases rest with
    | nil => exact nomatch second
    | cons => simp
  next =>
    split at h
    · exact nomatch h
    · obtain rfl := Option.some.inj h
      omega

/-! ## § The text of an operator token -/

/-- How many characters an operator token takes whose first word takes `length` of them. -/
inductive OperatorExtent (v : Vocabulary) (text : List Char) (length : Nat) : Nat → Prop where
  | plain : OperatorExtent v text length length
  | fold {mark : Char} {rest : List Char} (hm : mark = '/' ∨ mark = '\\')
      (hd : text.drop length = mark :: rest)
      (hw : String.ofList (text.take length) = "o" ∨
        v.isBinary (String.ofList (text.take length)) = true) :
      OperatorExtent v text length (length + 1)
  | product {count : Nat} {rest : List Char} (hd : text.drop length = '.' :: rest)
      (hw : String.ofList (text.take length) = "o" ∨
        v.isBinary (String.ofList (text.take length)) = true)
      (hl : count ≤ rest.length) (plain : Plain (rest.take count))
      (hc : v.isBinary (String.ofList (rest.take count)) = true) :
      OperatorExtent v text length (length + 1 + count)

theorem fail_ne_token (text : List Char) (cause : LexError.Cause) (kind : TokenKind) (n : Nat) :
    fail text cause ≠ .token kind n := nofun

theorem combiner_inv {v : Vocabulary} {text rest : List Char} {length n : Nat} {kind : TokenKind}
    (h : combiner v text length rest = .token kind n) :
    kind = .operator ∧ ∃ count, n = length + count ∧ count ≤ rest.length ∧
      Plain (rest.take count) ∧ v.isBinary (String.ofList (rest.take count)) = true := by
  have accept {count : Nat} (hl : count ≤ rest.length) (hp : Plain (rest.take count))
      (ha : (if v.isBinary (String.ofList (rest.take count)) then
          Lexeme.token .operator (length + count)
        else fail text (.notAnOperator (String.ofList (rest.take count)))) = .token kind n) :
      kind = .operator ∧ ∃ count, n = length + count ∧ count ≤ rest.length ∧
        Plain (rest.take count) ∧ v.isBinary (String.ofList (rest.take count)) = true := by
    split at ha
    next hb =>
      injection ha with hk hn
      exact ⟨hk.symm, count, hn.symm, hl, hp, hb⟩
    next => exact absurd ha (fail_ne_token _ _ _ _)
  unfold combiner at h
  dsimp only at h
  split at h
  · exact absurd h (fail_ne_token _ _ _ _)
  next c tail =>
    split at h
    next count hs => exact accept (symbolLength?_le hs).2 (plain_symbol hs) h
    next =>
      split at h
      next =>
        split at h
        next =>
          split at h
          · exact accept (runLength_le _ _) (plain_run (c :: tail)) h
          · exact absurd h (fail_ne_token _ _ _ _)
        next => exact accept (runLength_le _ _) (plain_run (c :: tail)) h
      next => exact absurd h (fail_ne_token _ _ _ _)

theorem operator_inv {v : Vocabulary} {text : List Char} {length n : Nat} {kind : TokenKind}
    (h : operator v text length = .token kind n) :
    kind = .operator ∧ OperatorExtent v text length n := by
  unfold operator at h
  dsimp only at h
  split at h
  next hw =>
    split at h
    next hd =>
      injection h with hk hn
      exact ⟨hk.symm, hn ▸ .fold (.inl rfl) hd hw⟩
    next hd =>
      injection h with hk hn
      exact ⟨hk.symm, hn ▸ .fold (.inr rfl) hd hw⟩
    next rest hd =>
      split at h
      · injection h with hk hn
        exact ⟨hk.symm, hn ▸ .plain⟩
      · obtain ⟨hk, count, rfl, hl, hp, hc⟩ := combiner_inv h
        exact ⟨hk, .product hd hw hl hp hc⟩
    next =>
      injection h with hk hn
      exact ⟨hk.symm, hn ▸ .plain⟩
  next =>
    injection h with hk hn
    exact ⟨hk.symm, hn ▸ .plain⟩

theorem derivable_of_plain {isBinary : String → Bool} {word : List Char} (hp : Plain word) :
    Derivable isBinary (String.ofList word) := by
  refine ⟨?_, ?_, ?_, by simpa using hp.no_feed⟩
  · intro _ base mark hs
    rw [hp.no_mark] at hs
    simp at hs
  all_goals
    intro hpr
    exact absurd ((OperatorWord.isProduct_ofList _).1 hpr) hp.no_point

theorem derivable_fold {isBinary : String → Bool} {word : List Char} {mark : Char} (hp : Plain word)
    (hm : mark = '/' ∨ mark = '\\')
    (hb : isBinary (String.ofList word) = true ∨ String.ofList word = "+" ∨
      String.ofList word = "-") :
    Derivable isBinary (String.ofList (word ++ [mark])) := by
  have no_point : '.' ∉ word ++ [mark] := by
    rw [List.mem_append, not_or]
    refine ⟨hp.no_point, ?_⟩
    rcases hm with rfl | rfl <;> decide
  have no_feed : '\n' ∉ word ++ [mark] := by
    rw [List.mem_append, not_or]
    refine ⟨hp.no_feed, ?_⟩
    rcases hm with rfl | rfl <;> decide
  refine ⟨?_, ?_, ?_, by simpa using no_feed⟩
  · intro _ base mark' hs
    rw [OperatorWord.splitMark?_ofList_append] at hs
    obtain ⟨-, hs⟩ := Option.ite_none_right_eq_some.1 hs
    obtain ⟨rfl, -⟩ := Prod.mk.inj (Option.some.inj hs)
    exact hb
  all_goals
    intro hpr
    exact absurd ((OperatorWord.isProduct_ofList _).1 hpr) no_point

/-- The mark of a plain second operator is all of it. -/
theorem operators_of_folded {left right : List Char} {base : String} {mark : Char}
    (hl : Plain left) (hr : Plain right)
    (hs : OperatorWord.splitMark? (String.ofList (left ++ '.' :: right)) = some (base, mark)) :
    OperatorWord.operators base = [String.ofList left, ""] := by
  have unmarked := hr.no_mark
  rcases List.eq_nil_or_concat right with rfl | ⟨init, last, rfl⟩
  · rw [OperatorWord.splitMark?_ofList_append] at hs
    have pointed := (Option.ite_none_right_eq_some.1 hs).1.2
    exact absurd pointed (by decide)
  rw [List.concat_eq_append] at hs unmarked
  rw [show left ++ '.' :: (init ++ [last]) = (left ++ '.' :: init) ++ [last] by simp,
    OperatorWord.splitMark?_ofList_append] at hs
  obtain ⟨⟨-, marked⟩, same⟩ := Option.ite_none_right_eq_some.1 hs
  obtain rfl : init = [] := Classical.byContradiction fun more => by
    rw [OperatorWord.splitMark?_ofList_append, if_pos ⟨more, marked⟩] at unmarked
    exact nomatch unmarked
  obtain ⟨rfl, -⟩ := Prod.mk.inj (Option.some.inj same)
  rw [OperatorWord.operators, String.toList_ofList, OperatorWord.splitPoints_append hl.no_point]
  rfl

theorem derivable_product {isBinary : String → Bool} {left right : List Char} (hl : Plain left)
    (hr : Plain right) (hb : String.ofList left = "o" ∨ isBinary (String.ofList left) = true)
    (hc : isBinary (String.ofList right) = true) :
    Derivable isBinary (String.ofList (left ++ '.' :: right)) := by
  have parts : OperatorWord.operators (String.ofList (left ++ '.' :: right))
      = [String.ofList left, String.ofList right] := by
    rw [OperatorWord.operators, String.toList_ofList, OperatorWord.splitPoints_append hl.no_point,
      OperatorWord.splitPoints_eq_singleton hr.no_point]
    rfl
  refine ⟨?_, ?_, ?_, ?_⟩
  · intro hpr
    have : OperatorWord.isProduct (String.ofList (left ++ '.' :: right)) = true :=
      (OperatorWord.isProduct_ofList _).2 (by simp)
    rw [this] at hpr
    simp at hpr
  · intro _ s hs
    rw [parts, OperatorWord.mem_partNeeds_pair] at hs
    rcases hs with ⟨ho, rfl⟩ | rfl
    · exact hb.resolve_left ho
    · exact hc
  · exact fun _ base mark hs => ⟨_, operators_of_folded hl hr hs⟩
  · simpa using ⟨hl.no_feed, hr.no_feed⟩

/-- The scanner derives words from plain ones. -/
theorem derivable_of_extent {v : Vocabulary} {text : List Char} {length n : Nat}
    (hp : Plain (text.take length)) (ho : String.ofList (text.take length) = "o" →
      startsWith '.' (text.drop length) = true) (h : OperatorExtent v text length n) :
    Derivable v.isBinary (String.ofList (text.take n)) := by
  cases h with
  | plain => exact derivable_of_plain hp
  | @fold mark rest hm hd hw =>
    rw [List.take_add, hd]
    refine derivable_fold hp hm (.inl (hw.resolve_left fun e => ?_))
    have hs := ho e
    rw [hd] at hs
    rcases hm with rfl | rfl <;> exact absurd hs (by simp [startsWith])
  | @product count rest hd hw hl plain hc =>
    rw [Nat.add_assoc, Nat.add_comm 1, List.take_add, hd, List.take_succ_cons]
    exact derivable_product hp plain hw hc

/-! ## § Operators and names among the lexemes -/

/-- What the scanner makes sure of in the words that it cuts. -/
structure SoundText (v : Vocabulary) (kind : TokenKind) (text : String) : Prop where
  identifier : kind = .identifier → text = "o" ∨ v.isOperator text = false
  operator : kind = .operator → Derivable v.isBinary text
  no_feed : kind = .identifier ∨ kind = .operator → '\n' ∉ text.toList

theorem SoundText.of_operator {v : Vocabulary} {text : String} (h : Derivable v.isBinary text) :
    SoundText v .operator text :=
  ⟨nofun, fun _ => h, fun _ => h.no_feed⟩

/-- Nothing is asked of any other kind. -/
theorem SoundText.of_kind {v : Vocabulary} {kind : TokenKind} (text : String)
    (hi : kind ≠ .identifier) (ho : kind ≠ .operator) : SoundText v kind text :=
  ⟨fun h => absurd h hi, fun h => absurd h ho, fun h => absurd h (not_or.2 ⟨hi, ho⟩)⟩

theorem sound_operator {v : Vocabulary} {text : List Char} {n : Nat} {kind : TokenKind}
    (length : Nat) (hp : Plain (text.take length)) (ho : String.ofList (text.take length) = "o" →
      startsWith '.' (text.drop length) = true) (h : operator v text length = .token kind n) :
    SoundText v kind (String.ofList (text.take n)) := by
  obtain ⟨rfl, extent⟩ := operator_inv h
  exact .of_operator (derivable_of_extent hp ho extent)

theorem numberToken_kind {v : Vocabulary} {text : List Char} {length n : Nat} {kind : TokenKind}
    (h : numberToken v text length = .token kind n) :
    kind.isNumeral = true ∧ n = length := by
  unfold numberToken at h
  dsimp only at h
  split at h
  · injection h with hk hn
    exact ⟨by rw [← hk]; rfl, hn.symm⟩
  · split at h
    · injection h with hk hn
      exact ⟨by rw [← hk]; rfl, hn.symm⟩
    · injection h with hk hn
      exact ⟨by rw [← hk]; rfl, hn.symm⟩

theorem SoundText.of_numeral {v : Vocabulary} {kind : TokenKind} (text : String)
    (h : kind.isNumeral = true) : SoundText v kind text := by
  refine .of_kind text ?_ ?_
  all_goals
    rintro rfl
    exact absurd h (by decide)

theorem signedNumber_kind {v : Vocabulary} {text : List Char} {sign n : Nat} {kind : TokenKind}
    (h : signedNumber v text sign = .token kind n) : kind.isNumeral = true := by
  unfold signedNumber at h
  dsimp only at h
  split at h
  · exact absurd h (fail_ne_token _ _ _ _)
  · split at h
    · split at h
      · exact absurd h (fail_ne_token _ _ _ _)
      · exact (numberToken_kind h).1
    · exact (numberToken_kind h).1

theorem exists_sign_of_signLength {text : List Char} (h : signLength text = 1) :
    ∃ c rest, text = c :: rest ∧ (c = '+' ∨ c = '-') := by
  unfold signLength at h
  cases text with
  | nil => simp at h
  | cons c rest =>
    refine ⟨c, rest, rfl, Decidable.or_iff_not_imp_left.2 ?_⟩
    simpa using h

theorem plain_sign {c : Char} (h : c = '+' ∨ c = '-') : Plain [c] := by
  rcases h with rfl | rfl <;> exact OperatorWord.plain_singleton (by decide)

theorem sign_ne_o {c : Char} (h : c = '+' ∨ c = '-') : String.ofList [c] ≠ "o" := by
  rcases h with rfl | rfl <;> decide

theorem sound_number {v : Vocabulary} {text : List Char} {n : Nat} {kind : TokenKind}
    (h : number v text = .token kind n) : SoundText v kind (String.ofList (text.take n)) := by
  unfold number at h
  split at h
  next hs =>
    obtain ⟨c, rest, rfl, hc⟩ := exists_sign_of_signLength hs
    have fold {mark : Char} {tail : List Char} (hm : mark = '/' ∨ mark = '\\')
        (hd : (c :: rest).drop 1 = mark :: tail) (ht : Lexeme.token .operator 2 = .token kind n) :
        SoundText v kind (String.ofList ((c :: rest).take n)) := by
      injection ht with hk hn
      subst hk hn
      obtain rfl : rest = mark :: tail := hd
      refine .of_operator (derivable_fold (plain_sign hc) hm (.inr ?_))
      rcases hc with rfl | rfl
      · exact .inl rfl
      · exact .inr rfl
    split at h
    next hd => exact fold (.inl rfl) hd h
    next hd => exact fold (.inr rfl) hd h
    next =>
      split at h
      next => exact .of_numeral _ (signedNumber_kind h)
      next =>
        exact sound_operator 1 (plain_sign hc) (fun e => absurd e (sign_ne_o hc)) h
  next => exact .of_numeral _ (signedNumber_kind h)

theorem sound_word {v : Vocabulary} {text : List Char} {n : Nat} {kind : TokenKind}
    (h : word v text = .token kind n) : SoundText v kind (String.ofList (text.take n)) := by
  have identifier (hs : String.ofList (text.take (runLength Text.isWordChar text)) = "o" ∨
      v.isOperator (String.ofList (text.take (runLength Text.isWordChar text))) = false)
      (ht : Lexeme.token .identifier (runLength Text.isWordChar text) = .token kind n) :
      SoundText v kind (String.ofList (text.take n)) := by
    injection ht with hk hn
    subst hk hn
    exact ⟨fun _ => hs, nofun, fun _ => by simpa using (plain_run text).no_feed⟩
  obtain ⟨-, h⟩ := word_token.1 h
  cases called v (text.take (runLength Text.isWordChar text)) _
      (text.drop (runLength Text.isWordChar text)) with
  | keyword is_op =>
    rw [named_keyword is_op] at h
    injection h with hk _
    subst hk
    exact .of_kind _ (by decide) (by decide)
  | outer is_o point =>
    rw [named_outer is_o point] at h
    exact sound_operator _ (plain_run text) (fun _ => point) h
  | single is_o no_point =>
    rw [named_single is_o no_point] at h
    exact identifier (.inl is_o) h
  | operator own known =>
    rw [named_operator own known] at h
    exact sound_operator _ (plain_run text) (fun is_o => absurd is_o own.2) h
  | digits own unknown all =>
    rw [named_digits own unknown all] at h
    exact sound_number h
  | name own unknown other =>
    rw [named_name own unknown other] at h
    exact identifier (.inr unknown) h

theorem quoted_kind {quote : Char} {text : List Char} {n : Nat} {kind : TokenKind}
    (h : quoted quote text = .token kind n) : kind = .string := by
  unfold quoted at h
  split at h
  · injection h with hk _
    exact hk.symm
  · exact absurd h (fail_ne_token _ _ _ _)

theorem raw_kind {text : List Char} {n : Nat} {kind : TokenKind}
    (h : raw text = .token kind n) : kind = .string := by
  unfold raw at h
  dsimp only at h
  split at h
  · injection h with hk _
    exact hk.symm
  · simp at h

theorem sound_signed {v : Vocabulary} {previous : Option Char} {c : Char} {rest : List Char}
    {n : Nat} {kind : TokenKind} (hc : c = '+' ∨ c = '-')
    (h : signed v previous (c :: rest) rest = .token kind n) :
    SoundText v kind (String.ofList ((c :: rest).take n)) := by
  rw [signed_eq] at h
  split at h
  · exact sound_operator 1 (plain_sign hc) (fun e => absurd e (sign_ne_o hc)) h
  · exact sound_number h

theorem symbol_ne_o {c : Char} {rest : List Char} {length : Nat}
    (h : symbolLength? c rest = some length) : String.ofList ((c :: rest).take length) ≠ "o" := by
  intro e
  have : (c :: rest).take length = ['o'] := by
    rw [← String.toList_inj, String.toList_ofList] at e
    exact e
  have hc : c = 'o' := by
    cases length with
    | zero => simp at this
    | succ n => exact (List.cons.inj this).1
  rw [hc] at h
  simp [symbolLength?, singleOperators, operatorTails] at h

/-- **Every lexeme is a sound word** of the vocabulary that it is cut with. -/
theorem sound_ofText {v : Vocabulary} {previous : Option Char} {c : Char} {rest : List Char}
    {n : Nat} {kind : TokenKind} (h : ofText v previous c rest = .token kind n) :
    SoundText v kind (String.ofList ((c :: rest).take n)) := by
  cases ofText_begins c with
  | feed _ cut | semicolon _ cut =>
    rw [cut] at h
    obtain ⟨rfl, -⟩ := Lexeme.token.inj h
    exact .of_kind _ nofun nofun
  | comment _ cut => exact nomatch (cut v previous rest).symm.trans h
  | quote _ cut =>
    rw [cut] at h
    rw [quoted_kind h]
    exact .of_kind _ nofun nofun
  | backquote _ cut =>
    rw [cut] at h
    rw [raw_kind h]
    exact .of_kind _ nofun nofun
  | sign hc cut =>
    rw [cut] at h
    exact sound_signed hc h
  | numeral _ _ cut =>
    rw [cut] at h
    exact sound_number h
  | equals hc cut =>
    subst hc
    rw [cut] at h
    split at h
    next hs =>
      cases rest with
      | nil => simp [startsWith] at hs
      | cons d rest =>
        obtain rfl : d = '=' := by simpa [startsWith] using hs
        have hne : String.ofList ['=', '='] ≠ "o" := by decide
        exact sound_operator 2 (OperatorWord.plain_of_forall (by simp)) (fun e => absurd e hne) h
    next =>
      obtain ⟨rfl, -⟩ := Lexeme.token.inj h
      exact .of_kind _ nofun nofun
  | letter _ _ cut =>
    rw [cut] at h
    exact sound_word h
  | special _ cut other =>
    cases hs : symbolLength? c rest with
    | some length =>
      rw [cut _ _ _ _ hs] at h
      exact sound_operator _ (plain_symbol hs) (fun e => absurd e (symbol_ne_o hs)) h
    | none =>
      rw [other _ _ _ hs] at h
      rcases single_cases c with ⟨kind', no_name, -, token⟩ | fails
      · rw [token] at h
        obtain ⟨rfl, -⟩ := Lexeme.token.inj h
        obtain ⟨hi, ho⟩ := not_or.1 no_name
        exact .of_kind _ hi ho
      · rw [fails] at h
        exact absurd h (fail_ne_token _ _ _ _)

/-! ## § Names -/

variable {v w : Vocabulary} {kind : TokenKind} {text rest : List Char} {length n : Nat}

theorem isWordChar_of_isIdentifier {word : List Char}
    (h : Text.isIdentifier (String.ofList word) = true) {c : Char} (hc : c ∈ word) :
    Text.isWordChar c = true := by
  unfold Text.isIdentifier at h
  rw [String.toList_ofList] at h
  cases word with
  | nil => exact nomatch hc
  | cons first rest =>
    simp only [Bool.and_eq_true] at h
    exact List.all_eq_true.1 h.2 c hc

theorem plain_of_isIdentifier {name : String} (h : Text.isIdentifier name = true) :
    Plain name.toList :=
  plain_of_isWordChar fun c hc => isWordChar_of_isIdentifier (by rwa [String.ofList_toList]) hc

/-- Nothing has been derived from another word to make a name. -/
theorem simple_of_isIdentifier {name : String} (h : Text.isIdentifier name = true) :
    OperatorWord.isProduct name = false ∧ OperatorWord.splitMark? name = none := by
  have plain := plain_of_isIdentifier h
  constructor
  · refine Bool.eq_false_iff.2 fun hp => plain.no_point ?_
    rwa [← OperatorWord.isProduct_ofList, String.ofList_toList]
  · have := plain.no_mark
    rwa [String.ofList_toList] at this

theorem not_isAsciiDigit_of_isIdentifier {c : Char}
    (h : Text.isIdentifier (String.ofList (c :: rest)) = true) : Text.isAsciiDigit c = false := by
  unfold Text.isIdentifier at h
  rw [String.toList_ofList] at h
  simp only [Bool.and_eq_true, Bool.not_eq_true'] at h
  have no_digit := h.1.2
  refine Bool.eq_false_iff.2 fun digit => ?_
  have range : c.toNat ≤ 57 := by
    simp only [Text.isAsciiDigit, Bool.and_eq_true, decide_eq_true_eq, Char.le_def,
      UInt32.le_iff_toNat_le] at digit
    exact digit.2
  have ascii : Text.isAscii c = true := by
    simp only [Text.isAscii, decide_eq_true_eq]
    omega
  rw [Text.isDigit, if_pos ascii, digit] at no_digit
  exact nomatch no_digit

/-- An operator lexeme that could be a name is no derived word. -/
theorem operator_name (hw : ∀ name, w.isBinary name = true → v.isBinary name = true)
    (h : operator v text length = .token kind n)
    (hi : Text.isIdentifier (String.ofList (text.take n)) = true) :
    n = length ∧ operator w text length = .token .operator length := by
  have behind {c : Char} {tail : List Char} (hd : text.drop length = c :: tail) (hn : length < n)
      (hc : Text.isWordChar c = false) : False := by
    have hm : c ∈ text.take n := by
      obtain ⟨extra, rfl⟩ := Nat.exists_eq_add_of_lt hn
      rw [Nat.add_assoc, List.take_add, hd, List.take_succ_cons]
      exact List.mem_append_right _ List.mem_cons_self
    rw [isWordChar_of_isIdentifier hi hm] at hc
    exact nomatch hc
  unfold operator at h ⊢
  dsimp only at h ⊢
  by_cases hb : String.ofList (text.take length) = "o" ∨
      v.isBinary (String.ofList (text.take length)) = true
  · rw [if_pos hb] at h
    split at h
    next hd =>
      injection h with _ hn
      exact (behind hd (by omega) (by decide)).elim
    next hd =>
      injection h with _ hn
      exact (behind hd (by omega) (by decide)).elim
    next hd =>
      split at h
      next digit =>
        injection h with _ hn
        rw [if_pos digit, ite_self]
        exact ⟨hn.symm, rfl⟩
      next =>
        obtain ⟨-, count, rfl, -⟩ := combiner_inv h
        exact (behind hd (by omega) (by decide)).elim
    next =>
      injection h with _ hn
      rw [ite_self]
      exact ⟨hn.symm, rfl⟩
  · rw [if_neg hb] at h
    injection h with _ hn
    rw [if_neg fun ho => hb (ho.imp_right (hw _))]
    exact ⟨hn.symm, rfl⟩

theorem not_isName_of_isNumeral (h : kind.isNumeral = true) : ¬IsName kind := by
  rintro (rfl | rfl) <;> exact absurd h (by decide)

theorem signLength_unsigned {c : Char} (h : ¬(c = '+' ∨ c = '-')) : signLength (c :: rest) ≠ 1 := by
  simpa [signLength] using h

/-- Without a sign, what is cut as a number is one. -/
theorem not_isName_of_unsigned (unsigned : signLength text ≠ 1)
    (h : number v text = .token kind n) : ¬IsName kind :=
  not_isName_of_isNumeral (signedNumber_kind ((if_neg unsigned).symm.trans h))

/-- A text that is a name has a first character. -/
theorem mem_take_of_isIdentifier {c : Char}
    (hi : Text.isIdentifier (String.ofList ((c :: rest).take n)) = true) :
    c ∈ (c :: rest).take n := by
  cases n with
  | zero => exact nomatch hi
  | succ n => exact List.mem_cons_self

/-- What starts like a word, and not with a decimal digit, is cut as a word. -/
theorem ofText_of_isWordChar {previous : Option Char} {c : Char} (hword : Text.isWordChar c = true)
    (no_digit : Text.isAsciiDigit c = false) : ofText v previous c rest = word v (c :: rest) := by
  cases ofText_begins c with
  | letter _ _ cut => exact cut v previous rest
  | special hc => exact nomatch hc.symm.trans hword
  | feed hc | semicolon hc | comment hc | backquote hc | equals hc =>
    subst hc
    exact absurd hword (by decide)
  | quote hc | sign hc => rcases hc with rfl | rfl <;> exact absurd hword (by decide)
  | numeral hc =>
    rcases hc with rfl | digit
    · exact absurd hword (by decide)
    · exact nomatch no_digit.symm.trans digit

/-- What may be a name is cut as a word. -/
theorem ofText_of_isIdentifier {previous : Option Char} {c : Char}
    (hi : Text.isIdentifier (String.ofList ((c :: rest).take n)) = true) :
    ofText v previous c rest = word v (c :: rest) := by
  have hword := isWordChar_of_isIdentifier hi (mem_take_of_isIdentifier hi)
  refine ofText_of_isWordChar hword ?_
  cases n with
  | zero => exact nomatch hi
  | succ n => exact not_isAsciiDigit_of_isIdentifier hi

/-- What can be said of a name: it is not the keyword and, unless it is the word `o`, it is an
operator or no number. -/
structure Named (v : Vocabulary) (text : String) : Prop where
  no_keyword : text ≠ "op"
  no_number :
    text = "o" ∨ v.isOperator text = true ∨ Radix.isAllDigits text.toList v.inputBase = false

theorem word_named {c : Char} (hsign : c ≠ '+' ∧ c ≠ '-')
    (h : word v (c :: rest) = .token kind n) (hk : IsName kind)
    (hi : Text.isIdentifier (String.ofList ((c :: rest).take n)) = true) :
    Named v (String.ofList ((c :: rest).take n)) := by
  obtain ⟨-, h⟩ := word_token.1 h
  cases called v ((c :: rest).take (runLength Text.isWordChar (c :: rest))) _
      ((c :: rest).drop (runLength Text.isWordChar (c :: rest))) with
  | keyword is_op =>
    rw [named_keyword is_op] at h
    obtain ⟨rfl, -⟩ := Lexeme.token.inj h
    exact hk.elim nofun nofun
  | outer is_o point =>
    rw [named_outer is_o point] at h
    obtain ⟨rfl, -⟩ := operator_name (fun _ => id) h hi
    exact ⟨by rw [is_o]; decide, .inl is_o⟩
  | single is_o no_point =>
    rw [named_single is_o no_point] at h
    obtain ⟨-, rfl⟩ := Lexeme.token.inj h
    exact ⟨by rw [is_o]; decide, .inl is_o⟩
  | operator own known =>
    rw [named_operator own known] at h
    obtain ⟨rfl, -⟩ := operator_name (fun _ => id) h hi
    exact ⟨own.1, .inr (.inl known)⟩
  | digits own unknown all =>
    rw [named_digits own unknown all] at h
    exact absurd hk (not_isName_of_unsigned (signLength_unsigned (not_or.2 hsign)) h)
  | name own unknown other =>
    rw [named_name own unknown other] at h
    obtain ⟨-, rfl⟩ := Lexeme.token.inj h
    exact ⟨own.1, .inr (.inr (by rwa [String.toList_ofList]))⟩

/-- A name that stands for itself is no number. -/
theorem ofText_named {previous : Option Char} {c : Char}
    (h : ofText v previous c rest = .token kind n) (hk : IsName kind)
    (hi : Text.isIdentifier (String.ofList ((c :: rest).take n)) = true) :
    Named v (String.ofList ((c :: rest).take n)) := by
  have other (d : Char) (hd : Text.isWordChar d = false) : c ≠ d := by
    rintro rfl
    rw [isWordChar_of_isIdentifier hi (mem_take_of_isIdentifier hi)] at hd
    exact nomatch hd
  rw [ofText_of_isIdentifier hi] at h
  exact word_named ⟨other '+' (by decide), other '-' (by decide)⟩ h hk hi

end Lexeme

end ArrayCalc
