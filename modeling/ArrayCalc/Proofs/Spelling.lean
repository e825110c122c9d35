import ArrayCalc.Proofs.FirstLines

/-!
# Words that are written again

An operator or a name that has been cut from a text is cut in the same way wherever it is written
with a blank before it and a blank or a bracket behind it.  The word `o` is no operator then, since
that takes a point behind it.
-/

namespace ArrayCalc.Lexeme

variable {v : Vocabulary} {text rest : List Char} {kind : TokenKind} {length n : Nat} {c d : Char}

/-! ## § Separators -/

/-- The characters that stand behind the words of written text. -/
def separators : List Char := [' ', '\n', ';', ')', ']', '[']

/-- A character that ends every word before it. -/
structure Separates (d : Char) : Prop where
  word : Text.isWordChar d = false
  terminator : ∀ tail, atTerminator (d :: tail) = true
  mark : d ≠ '/' ∧ d ≠ '\\' ∧ d ≠ '.'
  tails : d ∉ ['=', '>', '<', '*']

theorem separates_of_mem (h : d ∈ separators) : Separates d := by
  simp only [separators, List.mem_cons, List.not_mem_nil, or_false] at h
  rcases h with rfl | rfl | rfl | rfl | rfl | rfl
  all_goals exact ⟨by decide, fun _ => rfl, by decide, by decide⟩

theorem Separates.notMem_operatorTails (h : Separates d) (c : Char) :
    (operatorTails c).contains d = false :=
  Bool.eq_false_iff.2 fun hm => h.tails (operatorTails_cases (List.contains_iff_mem.1 hm)).2

theorem Separates.no_point (h : Separates d) (tail : List Char) :
    startsWith '.' (d :: tail) = false :=
  beq_eq_false_iff_ne.2 fun e => h.mark.2.2 (Option.some.inj e)

theorem Separates.not_digit (h : Separates d) : Text.isAsciiDigit d = false :=
  Bool.eq_false_iff.2 fun digit => by
    have word := h.word
    rw [isWordChar_of_isAsciiDigit digit] at word
    exact nomatch word

/-- What stands behind a part of a text, or behind it and a separator. -/
theorem head?_take_append (count : Nat) (rest tail : List Char) :
    (rest.take count ++ d :: tail).head? = some d ∨
      (0 < count ∧ (rest.take count ++ d :: tail).head? = rest.head?) := by
  cases rest with
  | nil => exact .inl (by rw [List.take_nil]; rfl)
  | cons c rest =>
    cases count with
    | zero => exact .inl rfl
    | succ count => exact .inr ⟨Nat.succ_pos _, rfl⟩

/-! ## § Operators -/

theorem symbolLength?_cut (hd : Separates d) (h : symbolLength? c rest = some length)
    (hn : length ≤ n + 1) (tail : List Char) :
    symbolLength? c (rest.take n ++ d :: tail) = some length := by
  unfold symbolLength? at h ⊢
  split at h
  next single =>
    rw [if_pos single]
    exact h
  next single =>
    rw [if_neg single]
    split at h
    · exact nomatch h
    next tails =>
      rw [if_neg tails]
      have separator : Option.any (operatorTails c).contains (some d) = false :=
        hd.notMem_operatorTails c
      split at h
      next second =>
        obtain rfl := Option.some.inj h
        rcases head?_take_append (d := d) n rest tail with head | ⟨-, head⟩
        · -- Both characters are in the part that is written again.
          cases rest with
          | nil => exact nomatch second
          | cons e rest =>
            cases n with
            | zero => omega
            | succ n => exact if_pos second
        · rw [head, if_pos second]
      next first =>
        have still : (rest.take n ++ d :: tail).head?.any (operatorTails c).contains = false := by
          rcases head?_take_append (d := d) n rest tail with head | ⟨-, head⟩
          · rw [head]
            exact separator
          · rw [head]
            exact Bool.eq_false_iff.2 first
        rw [still]
        exact h

theorem runLength_take (hd : Separates d) (hn : runLength Text.isWordChar text ≤ n)
    (tail : List Char) :
    runLength Text.isWordChar (text.take n ++ d :: tail) = runLength Text.isWordChar text := by
  induction text generalizing n with
  | nil =>
    rw [List.take_nil, List.nil_append]
    unfold runLength
    rw [List.takeWhile_cons_of_neg (by rw [hd.word]; decide)]
    rfl
  | cons c text ih =>
    unfold runLength at hn ih ⊢
    by_cases hc : Text.isWordChar c = true
    · rw [List.takeWhile_cons_of_pos hc, List.length_cons] at hn ⊢
      obtain ⟨m, rfl⟩ := Nat.exists_eq_add_of_lt (Nat.lt_of_lt_of_le (Nat.succ_pos _) hn)
      rw [Nat.zero_add] at hn ⊢
      rw [List.take_succ_cons, List.cons_append, List.takeWhile_cons_of_pos hc, List.length_cons,
        ih (Nat.le_of_succ_le_succ hn)]
    · rw [List.takeWhile_cons_of_neg hc]
      cases n with
      | zero =>
        rw [List.take_zero, List.nil_append, List.takeWhile_cons_of_neg (by rw [hd.word]; decide)]
      | succ n => rw [List.take_succ_cons, List.cons_append, List.takeWhile_cons_of_neg hc]

/-- The second operator of a product. -/
theorem combiner_cut (hd : Separates d) (h : combiner v text length rest = .token kind n)
    (whole tail : List Char) :
    kind = .operator ∧ ∃ count, n = length + count ∧ 0 < count ∧ count ≤ rest.length ∧
      combiner v whole length (rest.take count ++ d :: tail) = .token .operator n := by
  obtain ⟨rfl, -⟩ := combiner_inv h
  refine ⟨rfl, ?_⟩
  have accept {count : Nat} (hc : count ≤ rest.length)
      (h : (if v.isBinary (String.ofList (rest.take count)) then
          Lexeme.token .operator (length + count)
        else fail text (.notAnOperator (String.ofList (rest.take count)))) = .token .operator n) :
      n = length + count ∧
        (if v.isBinary (String.ofList ((rest.take count ++ d :: tail).take count)) then
          Lexeme.token .operator (length + count)
        else fail whole (.notAnOperator (String.ofList ((rest.take count ++ d :: tail).take count))))
          = .token .operator n := by
    have same : (rest.take count ++ d :: tail).take count = rest.take count := by
      rw [List.take_append_of_le_length (by rw [List.length_take]; omega), List.take_take,
        Nat.min_self]
    rw [same]
    split at h
    next known =>
      obtain ⟨-, rfl⟩ := Lexeme.token.inj h
      rw [if_pos known]
      exact ⟨rfl, rfl⟩
    next => exact absurd h (fail_ne_token _ _ _ _)
  unfold combiner at h
  dsimp only at h
  split at h
  · exact absurd h (fail_ne_token _ _ _ _)
  next c rest =>
    split at h
    next count hs =>
      have bounds := symbolLength?_le hs
      obtain ⟨hn, again⟩ := accept bounds.2 h
      refine ⟨count, hn, bounds.1, bounds.2, ?_⟩
      obtain ⟨m, rfl⟩ := Nat.exists_eq_add_of_lt bounds.1
      rw [Nat.zero_add] at hs again ⊢
      have symbol := symbolLength?_cut hd hs (Nat.le_refl _) tail
      unfold combiner
      dsimp only
      rw [List.take_succ_cons, List.cons_append] at again ⊢
      dsimp only
      rw [symbol]
      exact again
    next none =>
      split at h
      next hw =>
        have bound := runLength_le Text.isWordChar (c :: rest)
        have pos : 0 < runLength Text.isWordChar (c :: rest) := by
          unfold runLength
          rw [List.takeWhile_cons_of_pos hw]
          exact Nat.succ_pos _
        have accepted : (if v.isBinary (String.ofList
              ((c :: rest).take (runLength Text.isWordChar (c :: rest)))) then
            Lexeme.token .operator (length + runLength Text.isWordChar (c :: rest))
          else fail text (.notAnOperator (String.ofList
            ((c :: rest).take (runLength Text.isWordChar (c :: rest)))))) = .token .operator n := by
          split at h
          · split at h
            · exact h
            · exact absurd h (fail_ne_token _ _ _ _)
          · exact h
        obtain ⟨hn, again⟩ := accept bound accepted
        have run := runLength_take hd (Nat.le_refl (runLength Text.isWordChar (c :: rest))) tail
        refine ⟨_, hn, pos, bound, ?_⟩
        generalize runLength Text.isWordChar (c :: rest) = count at bound pos again run ⊢
        have behind : ((c :: rest).take count ++ d :: tail).drop count = d :: tail := by
          rw [List.drop_append_of_le_length (by rw [List.length_take]; omega), List.drop_take_self]
          rfl
        obtain ⟨m, rfl⟩ := Nat.exists_eq_add_of_lt pos
        rw [Nat.zero_add] at again run behind ⊢
        unfold combiner
        rw [List.take_succ_cons, List.cons_append] at again run behind ⊢
        dsimp only
        rw [symbolLength?_of_isWordChar hw, if_pos hw, run, behind]
        dsimp only
        rw [hd.terminator, if_pos rfl]
        exact again
      next => exact absurd h (fail_ne_token _ _ _ _)

/-- Before a separator an operator is the word that it starts with. -/
theorem operator_before (hd : Separates d) (word tail : List Char) :
    operator v (word ++ d :: tail) word.length = .token .operator word.length := by
  obtain ⟨slash, backslash, point⟩ := hd.mark
  rw [operator_eq, List.drop_left]
  split
  · unfold operatorBefore
    split
    next h => exact absurd (List.cons.inj h).1 slash
    next h => exact absurd (List.cons.inj h).1 backslash
    next h => exact absurd (List.cons.inj h).1 point
    next => rfl
  · rfl

theorem operator_cut (hd : Separates d) (h : operator v text length = .token kind n)
    (hl : length ≤ text.length) (tail : List Char) :
    length ≤ n ∧ n ≤ text.length ∧
      operator v (text.take n ++ d :: tail) length = .token .operator n := by
  have total : (text.drop length).length = text.length - length := List.length_drop
  -- The first word is the same.
  have first (hn : length ≤ n) (m : n ≤ text.length) :
      (text.take n ++ d :: tail).take length = text.take length := by
    rw [List.take_append_of_le_length (by rw [List.length_take]; omega), List.take_take,
      Nat.min_eq_left hn]
  have behind (hn : length ≤ n) (m : n ≤ text.length) : (text.take n ++ d :: tail).drop length
      = (text.drop length).take (n - length) ++ d :: tail := by
    rw [List.drop_append_of_le_length (by rw [List.length_take]; omega), List.drop_take]
  have alone (hn : n = length) : length ≤ n ∧ n ≤ text.length ∧
      operator v (text.take n ++ d :: tail) length = .token .operator n := by
    subst hn
    have whole := operator_before (v := v) hd (text.take n) tail
    rw [List.length_take, Nat.min_eq_left hl] at whole
    exact ⟨Nat.le_refl _, hl, whole⟩
  rw [operator_eq] at h
  split at h
  next hw =>
    unfold operatorBefore at h
    split at h
    next rest ht =>
      obtain ⟨-, rfl⟩ := Lexeme.token.inj h
      rw [ht, List.length_cons] at total
      have inside : length + 1 ≤ text.length := by omega
      refine ⟨Nat.le_succ _, inside, ?_⟩
      rw [operator_eq, first (Nat.le_succ _) inside, if_pos hw, behind (Nat.le_succ _) inside, ht,
        Nat.add_sub_cancel_left]
      rfl
    next rest ht =>
      obtain ⟨-, rfl⟩ := Lexeme.token.inj h
      rw [ht, List.length_cons] at total
      have inside : length + 1 ≤ text.length := by omega
      refine ⟨Nat.le_succ _, inside, ?_⟩
      rw [operator_eq, first (Nat.le_succ _) inside, if_pos hw, behind (Nat.le_succ _) inside, ht,
        Nat.add_sub_cancel_left]
      rfl
    next rest ht =>
      split at h
      · exact alone (Lexeme.token.inj h).2.symm
      next no_digit =>
        obtain ⟨-, count, rfl, pos, bound, again⟩ :=
          combiner_cut hd h (text.take n ++ d :: tail) tail
        rw [ht, List.length_cons] at total
        have le : length ≤ length + 1 + count := by omega
        have inside : length + 1 + count ≤ text.length := by omega
        refine ⟨le, inside, ?_⟩
        have more : length + 1 + count - length = count + 1 := by omega
        rw [operator_eq, first le inside, if_pos hw, behind le inside, ht, more, List.take_succ_cons,
          List.cons_append]
        have still : ¬(rest.take count ++ d :: tail).head?.any Text.isAsciiDigit = true := by
          rcases head?_take_append (d := d) count rest tail with head | ⟨-, head⟩
          · rw [head]
            exact Bool.eq_false_iff.1 hd.not_digit
          · rw [head]
            exact no_digit
        exact (if_neg still).trans again
    next => exact alone (Lexeme.token.inj h).2.symm
  next => exact alone (Lexeme.token.inj h).2.symm

/-! ## § Words -/

/-- What stands behind the first word of an operator, if that is not all. -/
theorem operator_behind (h : operator v text length = .token kind n) :
    n = length ∨ ∃ c rest, text.drop length = c :: rest ∧ c ∈ ['/', '\\', '.'] := by
  obtain ⟨-, extent⟩ := operator_inv h
  cases extent with
  | plain => exact .inl rfl
  | fold mark hd => exact .inr ⟨_, _, hd, by rcases mark with rfl | rfl <;> simp⟩
  | product hd => exact .inr ⟨_, _, hd, by simp⟩

/-- A word that ends before `d` is all that is looked up. -/
theorem word_before {x : List Char} (words : ∀ c ∈ x, Text.isWordChar c = true)
    (other : Text.isWordChar d = false) (ends : atTerminator (d :: tail) = true) :
    word v (x ++ d :: tail)
      = word.named v (x ++ d :: tail) x (String.ofList x) (d :: tail) x.length := by
  rw [word_eq, runLength_behind words other, List.drop_left]
  unfold wordBefore
  rw [List.take_left]
  exact if_neg (by rw [ends]; decide)

/-- A word that is written again, followed by the rest of an operator or by the separator. -/
theorem word_of_named (hd : Separates d) (hn : runLength Text.isWordChar text ≤ n)
    (hb : n ≤ text.length) (tail : List Char)
    (behind : n = runLength Text.isWordChar text ∨
      ∃ c rest, text.drop (runLength Text.isWordChar text) = c :: rest ∧ c ∈ ['/', '\\', '.'])
    (named : word.named v (text.take n ++ d :: tail)
      (text.take (runLength Text.isWordChar text))
      (String.ofList (text.take (runLength Text.isWordChar text)))
      ((text.drop (runLength Text.isWordChar text)).take (n - runLength Text.isWordChar text)
        ++ d :: tail) (runLength Text.isWordChar text) = .token kind n) :
    word v (text.take n ++ d :: tail) = .token kind n := by
  rw [word_token, runLength_take hd hn]
  generalize runLength Text.isWordChar text = length at hn behind named ⊢
  have first : (text.take n ++ d :: tail).take length = text.take length := by
    rw [List.take_append_of_le_length (by rw [List.length_take]; omega), List.take_take,
      Nat.min_eq_left hn]
  rw [first, List.drop_append_of_le_length (by rw [List.length_take]; omega), List.drop_take]
  refine ⟨?_, named⟩
  rcases behind with rfl | ⟨c, rest, ht, hc⟩
  · rw [Nat.sub_self, List.take_zero, List.nil_append]
    exact hd.terminator tail
  · rw [ht]
    cases n - length with
    | zero => exact hd.terminator tail
    | succ m =>
      simp only [List.mem_cons, List.not_mem_nil, or_false] at hc
      rcases hc with rfl | rfl | rfl <;> rfl

/-- A name or an operator that is a word. -/
theorem word_cut (hd : Separates d) (h : word v text = .token kind n) (hk : IsName kind)
    (no_sign : signLength text ≠ 1) (not_o : kind = .operator → String.ofList (text.take n) ≠ "o")
    (tail : List Char) :
    n ≤ text.length ∧ word v (text.take n ++ d :: tail) = .token kind n := by
  have bound := runLength_le Text.isWordChar text
  have again := @word_of_named v text kind n d hd
  obtain ⟨-, h⟩ := word_token.1 h
  generalize runLength Text.isWordChar text = length at h bound again
  have operator (h : operator v text length = .token kind n)
      (named : length ≤ n → (n ≠ length → ∀ c rest, text.drop length = c :: rest →
          ∃ more, (text.drop length).take (n - length) ++ d :: tail = c :: more) →
        operator v (text.take n ++ d :: tail) length = .token kind n →
        word.named v (text.take n ++ d :: tail) (text.take length)
          (String.ofList (text.take length))
          ((text.drop length).take (n - length) ++ d :: tail) length = .token kind n) :
      n ≤ text.length ∧ word v (text.take n ++ d :: tail) = .token kind n := by
    obtain ⟨rfl, -⟩ := operator_inv h
    obtain ⟨le, le', cut⟩ := operator_cut hd h bound tail
    refine ⟨le', again le le' tail (operator_behind h) (named le (fun longer c rest hr => ?_) cut)⟩
    obtain ⟨m, hm⟩ := Nat.exists_eq_add_of_lt (Nat.lt_of_le_of_ne le longer.symm)
    have more : n - length = m + 1 := by omega
    rw [hr, more]
    exact ⟨_, rfl⟩
  have name (h : Lexeme.token .identifier length = .token kind n)
      (named : word.named v (text.take n ++ d :: tail) (text.take length)
        (String.ofList (text.take length)) (d :: tail) length = .token .identifier length) :
      n ≤ text.length ∧ word v (text.take n ++ d :: tail) = .token kind n := by
    obtain ⟨rfl, rfl⟩ := Lexeme.token.inj h
    refine ⟨bound, again (Nat.le_refl _) bound tail (.inl rfl) ?_⟩
    rw [Nat.sub_self, List.take_zero]
    exact named
  cases called v (text.take length) (String.ofList (text.take length)) (text.drop length) with
  | keyword is_op =>
    rw [named_keyword is_op] at h
    obtain ⟨rfl, -⟩ := Lexeme.token.inj h
    exact hk.elim nofun nofun
  | outer is_o point =>
    rw [named_outer is_o point] at h
    refine operator h fun le behind cut => ?_
    have longer : n ≠ length := fun e => not_o (operator_inv h).1 (by rw [e, is_o])
    cases ht : text.drop length with
    | nil =>
      rw [ht] at point
      exact nomatch point
    | cons c rest =>
      obtain ⟨more, hm⟩ := behind longer c rest ht
      rw [ht] at hm point
      exact (named_outer is_o (by rw [hm]; exact point)).trans cut
  | single is_o no_point =>
    rw [named_single is_o no_point] at h
    exact name h (named_single is_o (hd.no_point tail))
  | operator own known =>
    rw [named_operator own known] at h
    exact operator h fun _ _ cut => (named_operator own known).trans cut
  | digits own unknown all =>
    rw [named_digits own unknown all] at h
    exact absurd hk (not_isName_of_unsigned no_sign h)
  | name own unknown other =>
    rw [named_name own unknown other] at h
    exact name h (named_name own unknown other)

/-! ## § Every lexeme -/

variable {previous : Option Char}

/-- With decimal digits, what a number can start with is a decimal digit. -/
theorem isNumeral_of_decimal (base : v.inputBase = 10) (c : Char) :
    v.isNumeral c = Text.isAsciiDigit c := by
  have digits : v.digits = Radix.decimalDigits := by
    unfold Vocabulary.digits
    rw [base]
    rfl
  unfold Vocabulary.isNumeral
  rw [digits]
  cases digit : Text.isAsciiDigit c with
  | true => rfl
  | false =>
    refine Bool.eq_false_iff.2 fun hm => ?_
    have all : Radix.decimalDigits.all Text.isAsciiDigit = true := by decide
    have := List.all_eq_true.1 all c (List.contains_iff_mem.1 hm)
    rw [digit] at this
    exact nomatch this

/-- A text that is cut behind its first character. -/
theorem take_pos (hn : 0 < n) (c : Char) (rest tail : List Char) :
    (c :: rest).take n ++ tail = c :: (rest.take (n - 1) ++ tail) := by
  obtain ⟨m, rfl⟩ := Nat.exists_eq_add_of_lt hn
  rw [Nat.zero_add]
  rfl

/-- A sign that is an operator, or the start of one. -/
theorem signed_cut (base : v.inputBase = 10) (hd : Separates d) (hc : c = '+' ∨ c = '-')
    (h : signed v previous (c :: rest) rest = .token kind n) (hk : IsName kind) (tail : List Char) :
    0 < n ∧ n ≤ (c :: rest).length ∧ ∀ p, endsOperand p = false →
      signed v (some p) (c :: (rest.take (n - 1) ++ d :: tail)) (rest.take (n - 1) ++ d :: tail)
        = .token kind n := by
  have sign (more : List Char) : signLength (c :: more) = 1 := by
    rcases hc with rfl | rfl <;> rfl
  -- A mark behind the sign makes a fold of it, whatever stands before.
  have fold {mark : Char} (hm : mark = '/' ∨ mark = '\\') {p : Char} (hp : endsOperand p = false) :
      signed v (some p) (c :: mark :: d :: tail) (mark :: d :: tail) = .token .operator 2 := by
    have no_point : startsWith '.' (mark :: d :: tail) = false := by
      rcases hm with rfl | rfl <;> rfl
    rw [signed_number hp no_point, number_signed (sign _)]
    rcases hm with rfl | rfl <;> rfl
  have operator (h : operator v (c :: rest) 1 = .token kind n) :
      0 < n ∧ n ≤ (c :: rest).length ∧ ∀ p, endsOperand p = false →
        signed v (some p) (c :: (rest.take (n - 1) ++ d :: tail)) (rest.take (n - 1) ++ d :: tail)
          = .token kind n := by
    obtain ⟨rfl, extent⟩ := operator_inv h
    obtain ⟨pos, bound, cut⟩ := operator_cut hd h (Nat.le_add_left 1 _) tail
    refine ⟨pos, bound, fun p hp => ?_⟩
    rw [take_pos pos] at cut
    cases extent with
    | plain =>
      obtain ⟨slash, backslash, point⟩ := hd.mark
      rw [Nat.sub_self, List.take_zero, List.nil_append] at cut ⊢
      have no_number : startsNumber v (d :: tail) = false := by
        unfold startsNumber
        rw [List.head?_cons, Option.any_some, isNumeral_of_decimal base, hd.not_digit, Bool.or_false]
        exact beq_eq_false_iff_ne.2 point
      rw [signed_number hp (hd.no_point tail), number_signed (sign _)]
      unfold signBefore
      rw [List.drop_one, List.tail_cons]
      split
      next e => exact absurd (List.cons.inj e).1 slash
      next e => exact absurd (List.cons.inj e).1 backslash
      next =>
        rw [no_number]
        exact cut
    | fold hm hr =>
      rw [List.drop_one, List.tail_cons] at hr
      rw [hr]
      exact fold hm hp
    | @product count more hr hw =>
      rw [List.drop_one, List.tail_cons] at hr
      have inside : 1 + 1 + count - 1 = count + 1 := by omega
      rw [hr, inside, List.take_succ_cons, List.cons_append] at cut ⊢
      have no_digit : (more.take count ++ d :: tail).head?.any v.isNumeral = false := by
        rcases head?_take_append (d := d) count more tail with head | ⟨some, head⟩
        · rw [head, Option.any_some, isNumeral_of_decimal base, hd.not_digit]
        · rw [head]
          refine Bool.eq_false_iff.2 fun digit => ?_
          -- A point before a digit would not have been taken.
          have plain : Lexeme.operator v (c :: rest) 1 = .token .operator 1 := by
            have digit : more.head?.any Text.isAsciiDigit = true := by
              have same : v.isNumeral = Text.isAsciiDigit := funext (isNumeral_of_decimal base)
              rw [← same]
              exact digit
            rw [operator_eq, if_pos hw, hr]
            exact if_pos digit
          have := (Lexeme.token.inj (h.symm.trans plain)).2
          omega
      have operates : signOperates v (some p) ('.' :: (more.take count ++ d :: tail)) = true := by
        rw [signOperates, Option.any_some, hp, List.drop_one, List.tail_cons, no_digit]
        rfl
      rw [signed_eq, if_pos operates]
      exact cut
  have number (h : number v (c :: rest) = .token kind n) :
      0 < n ∧ n ≤ (c :: rest).length ∧ ∀ p, endsOperand p = false →
        signed v (some p) (c :: (rest.take (n - 1) ++ d :: tail)) (rest.take (n - 1) ++ d :: tail)
          = .token kind n := by
    rw [number_signed (sign _)] at h
    unfold signBefore at h
    rw [List.drop_one, List.tail_cons] at h
    split at h
    next =>
      obtain ⟨rfl, rfl⟩ := Lexeme.token.inj h
      exact ⟨Nat.succ_pos 1, by simp, fun p hp => fold (.inl rfl) hp⟩
    next =>
      obtain ⟨rfl, rfl⟩ := Lexeme.token.inj h
      exact ⟨Nat.succ_pos 1, by simp, fun p hp => fold (.inr rfl) hp⟩
    next =>
      split at h
      · exact absurd hk (not_isName_of_isNumeral (signedNumber_kind h))
      · exact operator h
  rw [signed_eq] at h
  split at h
  · exact operator h
  · exact number h

/-- **A name or an operator is cut as it has been before**, when it stands between a character that
ends no operand and a separator. -/
theorem ofText_cut (base : v.inputBase = 10) (hd : Separates d)
    (h : ofText v previous c rest = .token kind n) (hk : IsName kind)
    (not_o : kind = .operator → String.ofList ((c :: rest).take n) ≠ "o") (tail : List Char) :
    0 < n ∧ n ≤ (c :: rest).length ∧ ∀ p, endsOperand p = false →
      ofText v (some p) c (rest.take (n - 1) ++ d :: tail) = .token kind n := by
  have operator {length : Nat} (hl : length ≤ (c :: rest).length) (pos : 0 < length)
      (h : operator v (c :: rest) length = .token kind n) :
      kind = .operator ∧ length ≤ n ∧ n ≤ (c :: rest).length ∧
        operator v (c :: (rest.take (n - 1) ++ d :: tail)) length = .token .operator n := by
    obtain ⟨le, le', cut⟩ := operator_cut hd h hl tail
    rw [take_pos (Nat.lt_of_lt_of_le pos le)] at cut
    exact ⟨(operator_inv h).1, le, le', cut⟩
  cases ofText_begins c with
  | feed _ cut | semicolon _ cut =>
    obtain ⟨rfl, -⟩ := Lexeme.token.inj ((cut v previous rest).symm.trans h)
    exact hk.elim nofun nofun
  | comment _ cut => exact nomatch (cut v previous rest).symm.trans h
  | quote _ cut =>
    rw [cut] at h
    obtain rfl := quoted_kind h
    exact hk.elim nofun nofun
  | backquote _ cut =>
    rw [cut] at h
    obtain rfl := raw_kind h
    exact hk.elim nofun nofun
  | sign hc cut =>
    simp only [cut] at h ⊢
    exact signed_cut base hd hc h hk tail
  | numeral _ unsigned cut =>
    rw [cut] at h
    exact absurd hk (not_isName_of_unsigned (signLength_unsigned unsigned) h)
  | equals _ cut =>
    rw [cut] at h
    split at h
    next starts =>
      cases rest with
      | nil => exact absurd starts Bool.false_ne_true
      | cons e rest =>
        obtain ⟨rfl, le, le', again⟩ := operator (Nat.le_add_left 2 _) (Nat.succ_pos 1) h
        refine ⟨Nat.lt_of_lt_of_le (Nat.succ_pos 1) le, le', fun p _ => ?_⟩
        obtain ⟨m, rfl⟩ := Nat.exists_eq_add_of_le le
        have more : 2 + m - 1 = m + 1 := by omega
        rw [more, List.take_succ_cons, List.cons_append] at again ⊢
        rw [cut]
        exact (if_pos starts).trans again
    next =>
      obtain ⟨rfl, -⟩ := Lexeme.token.inj h
      exact hk.elim nofun nofun
  | letter hc no_number cut =>
    rw [cut] at h
    obtain ⟨bound, again⟩ := word_cut hd h hk (signLength_unsigned no_number.1) not_o tail
    have pos := (word_bounds hc h).1
    refine ⟨pos, bound, fun p _ => (cut _ _ _).trans ?_⟩
    rwa [take_pos pos] at again
  | special _ cut other =>
    cases hs : symbolLength? c rest with
    | some length =>
      rw [cut _ _ _ _ hs] at h
      have bounds := symbolLength?_le hs
      obtain ⟨rfl, le, le', again⟩ := operator bounds.2 bounds.1 h
      refine ⟨Nat.lt_of_lt_of_le bounds.1 le, le', fun p _ => ?_⟩
      exact (cut _ _ _ _ (symbolLength?_cut hd hs (by omega) tail)).trans again
    | none =>
      rw [other _ _ _ hs] at h
      rcases single_cases c with ⟨kind', no_name, -, token⟩ | fails
      · rw [token] at h
        obtain ⟨rfl, -⟩ := Lexeme.token.inj h
        exact absurd hk no_name
      · rw [fails] at h
        exact absurd h (fail_ne_token _ _ _ _)

/-! ## § Visible characters -/

theorem no_return_run (text : List Char) : '\r' ∉ text.take (runLength Text.isWordChar text) := by
  rw [take_runLength]
  intro hm
  have word := List.all_eq_true.1 List.all_takeWhile _ hm
  exact absurd word (by decide)

theorem no_return_symbol (h : symbolLength? c rest = some length) :
    '\r' ∉ (c :: rest).take length := by
  have first : c ≠ '\r' := by
    rintro rfl
    cases h
  unfold symbolLength? at h
  split at h
  · obtain rfl := Option.some.inj h
    simpa using first.symm
  split at h
  · cases h
  split at h
  next second =>
    obtain rfl := Option.some.inj h
    cases rest with
    | nil => exact nomatch second
    | cons d rest =>
      have other : d ≠ '\r' := by
        rintro rfl
        have tail := (operatorTails_cases (List.contains_iff_mem.1 second)).2
        exact absurd tail (by decide)
      simpa using ⟨first.symm, other.symm⟩
  next =>
    split at h
    · cases h
    · obtain rfl := Option.some.inj h
      simpa using first.symm

theorem combiner_no_return (h : combiner v text length rest = .token kind n) :
    ∃ count, n = length + count ∧ '\r' ∉ rest.take count := by
  have accept {count : Nat} (visible : '\r' ∉ rest.take count)
      (h : (if v.isBinary (String.ofList (rest.take count)) then
          Lexeme.token .operator (length + count)
        else fail text (.notAnOperator (String.ofList (rest.take count)))) = .token kind n) :
      ∃ count, n = length + count ∧ '\r' ∉ rest.take count := by
    split at h
    · exact ⟨count, (Lexeme.token.inj h).2.symm, visible⟩
    · exact absurd h (fail_ne_token _ _ _ _)
  unfold combiner at h
  dsimp only at h
  split at h
  · exact absurd h (fail_ne_token _ _ _ _)
  next c rest =>
    split at h
    next count hs => exact accept (no_return_symbol hs) h
    next =>
      split at h
      · split at h
        · split at h
          · exact accept (no_return_run _) h
          · exact absurd h (fail_ne_token _ _ _ _)
        · exact accept (no_return_run _) h
      · exact absurd h (fail_ne_token _ _ _ _)

theorem operator_no_return (h : operator v text length = .token kind n)
    (first : '\r' ∉ text.take length) : '\r' ∉ text.take n := by
  -- What is added to the first word.
  have more {count : Nat} (added : '\r' ∉ (text.drop length).take count) :
      '\r' ∉ text.take (length + count) := by
    rw [List.take_add, List.mem_append, not_or]
    exact ⟨first, added⟩
  rw [operator_eq] at h
  split at h
  next =>
    unfold operatorBefore at h
    split at h
    next rest ht =>
      obtain ⟨-, rfl⟩ := Lexeme.token.inj h
      exact more (by rw [ht]; simp)
    next rest ht =>
      obtain ⟨-, rfl⟩ := Lexeme.token.inj h
      exact more (by rw [ht]; simp)
    next rest ht =>
      split at h
      · exact (Lexeme.token.inj h).2 ▸ first
      · obtain ⟨count, rfl, added⟩ := combiner_no_return h
        rw [Nat.add_assoc, Nat.add_comm 1]
        exact more (by rw [ht]; simpa using added)
    next => exact (Lexeme.token.inj h).2 ▸ first
  next => exact (Lexeme.token.inj h).2 ▸ first

theorem word_no_return (h : word v text = .token kind n) (hk : IsName kind)
    (no_sign : signLength text ≠ 1) : '\r' ∉ text.take n := by
  have visible := no_return_run text
  obtain ⟨-, h⟩ := word_token.1 h
  generalize runLength Text.isWordChar text = length at h visible
  cases called v (text.take length) (String.ofList (text.take length)) (text.drop length) with
  | keyword is_op =>
    rw [named_keyword is_op] at h
    exact (Lexeme.token.inj h).2 ▸ visible
  | outer is_o point => exact operator_no_return ((named_outer is_o point).symm.trans h) visible
  | single is_o no_point =>
    rw [named_single is_o no_point] at h
    exact (Lexeme.token.inj h).2 ▸ visible
  | operator own known => exact operator_no_return ((named_operator own known).symm.trans h) visible
  | digits own unknown all =>
    rw [named_digits own unknown all] at h
    exact absurd hk (not_isName_of_unsigned no_sign h)
  | name own unknown other =>
    rw [named_name own unknown other] at h
    exact (Lexeme.token.inj h).2 ▸ visible

theorem number_no_return (hc : c = '+' ∨ c = '-') (h : number v (c :: rest) = .token kind n)
    (hk : IsName kind) : '\r' ∉ (c :: rest).take n := by
  have sign : c ≠ '\r' := by rcases hc with rfl | rfl <;> decide
  have signed : signLength (c :: rest) = 1 := by rcases hc with rfl | rfl <;> rfl
  rw [number_signed signed] at h
  unfold signBefore at h
  rw [List.drop_one, List.tail_cons] at h
  split at h
  · obtain ⟨-, rfl⟩ := Lexeme.token.inj h
    simpa using sign.symm
  · obtain ⟨-, rfl⟩ := Lexeme.token.inj h
    simpa using sign.symm
  · split at h
    · exact absurd hk (not_isName_of_isNumeral (signedNumber_kind h))
    · exact operator_no_return h (by simpa using sign.symm)

/-- A name or an operator has no carriage return in it. -/
theorem ofText_no_return (h : ofText v previous c rest = .token kind n) (hk : IsName kind) :
    '\r' ∉ (c :: rest).take n := by
  cases ofText_begins c with
  | feed _ cut | semicolon _ cut =>
    obtain ⟨rfl, -⟩ := Lexeme.token.inj ((cut v previous rest).symm.trans h)
    exact hk.elim nofun nofun
  | comment _ cut => exact nomatch (cut v previous rest).symm.trans h
  | quote _ cut =>
    rw [cut] at h
    obtain rfl := quoted_kind h
    exact hk.elim nofun nofun
  | backquote _ cut =>
    rw [cut] at h
    obtain rfl := raw_kind h
    exact hk.elim nofun nofun
  | sign hc cut =>
    rw [cut] at h
    have sign : c ≠ '\r' := by rcases hc with rfl | rfl <;> decide
    rw [signed_eq] at h
    split at h
    · exact operator_no_return h (by simpa using sign.symm)
    · exact number_no_return hc h hk
  | numeral _ unsigned cut =>
    rw [cut] at h
    exact absurd hk (not_isName_of_unsigned (signLength_unsigned unsigned) h)
  | equals hc cut =>
    subst hc
    rw [cut] at h
    split at h
    next starts =>
      refine operator_no_return h ?_
      cases rest with
      | nil => exact absurd starts Bool.false_ne_true
      | cons e rest =>
        obtain rfl := Option.some.inj (eq_of_beq starts)
        simp
    next =>
      obtain ⟨rfl, -⟩ := Lexeme.token.inj h
      exact hk.elim nofun nofun
  | letter _ no_number cut =>
    rw [cut] at h
    exact word_no_return h hk (signLength_unsigned no_number.1)
  | special _ cut other =>
    cases hs : symbolLength? c rest with
    | some length =>
      rw [cut _ _ _ _ hs] at h
      exact operator_no_return h (no_return_symbol hs)
    | none =>
      rw [other _ _ _ hs] at h
      rcases single_cases c with ⟨kind', no_name, -, token⟩ | fails
      · rw [token] at h
        obtain ⟨rfl, -⟩ := Lexeme.token.inj h
        exact absurd hk no_name
      · rw [fails] at h
        exact absurd h (fail_ne_token _ _ _ _)

end ArrayCalc.Lexeme
