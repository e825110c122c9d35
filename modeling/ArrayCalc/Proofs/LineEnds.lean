import ArrayCalc.Proofs.Lexemes

/-!
# Lexemes before the end of a line

A line feed ends what stands before it just as the end of the text does.  So a lexeme of a text is
also one of the same text with a line feed and more behind it.
-/

namespace ArrayCalc.Lexeme

variable {v : Vocabulary} {p : Char → Bool} {text rest tail : List Char} {kind : TokenKind}

/-! ## § Runs -/

theorem runLength_feed (hp : p '\n' = false) (text tail : List Char) :
    runLength p (text ++ '\n' :: tail) = runLength p text := by
  unfold runLength
  induction text with
  | nil => simp [hp]
  | cons c text ih =>
    rw [List.cons_append, List.takeWhile_cons, List.takeWhile_cons]
    split
    · rw [List.length_cons, List.length_cons, ih]
    · rfl

/-- A run that ends within a text takes nothing of what stands behind it. -/
theorem runLength_append (h : runLength p text < text.length) (tail : List Char) :
    runLength p (text ++ tail) = runLength p text := by
  induction text with
  | nil => simp at h
  | cons c text ih =>
    unfold runLength at ih h ⊢
    rw [List.takeWhile_cons] at h
    rw [List.cons_append, List.takeWhile_cons, List.takeWhile_cons]
    split
    next hc =>
      rw [if_pos hc, List.length_cons, List.length_cons] at h
      rw [List.length_cons, List.length_cons, ih (by omega)]
    next => rfl

theorem drop_feed {n : Nat} (h : n ≤ text.length) (tail : List Char) :
    (text ++ '\n' :: tail).drop n = text.drop n ++ '\n' :: tail :=
  List.drop_append_of_le_length h

theorem take_feed {n : Nat} (h : n ≤ text.length) (tail : List Char) :
    (text ++ '\n' :: tail).take n = text.take n :=
  List.take_append_of_le_length h

theorem head?_any_feed (hp : p '\n' = false) (text tail : List Char) :
    (text ++ '\n' :: tail).head?.any p = text.head?.any p := by
  cases text with
  | nil => simp [hp]
  | cons => rfl

theorem startsWith_feed {c : Char} (hc : c ≠ '\n') (text tail : List Char) :
    startsWith c (text ++ '\n' :: tail) = startsWith c text := by
  cases text with
  | nil => simpa [startsWith] using hc.symm
  | cons => rfl

/-- A word may end before a line feed as before the end of the text. -/
theorem atTerminator_feed (text tail : List Char) :
    atTerminator (text ++ '\n' :: tail) = atTerminator text := by
  cases text with
  | nil => rfl
  | cons c text =>
    simp only [List.cons_append, atTerminator, startsWith_feed (show '.' ≠ '\n' by decide)]

theorem lineLength_feed (h : '\n' ∉ text) (tail : List Char) :
    lineLength text = text.length ∧ lineLength (text ++ '\n' :: tail) = text.length + 1 := by
  have whole : runLength (· != '\n') text = text.length := by
    have all : ∀ c ∈ text, (c != '\n') = true := by
      intro c hc
      have : c ≠ '\n' := fun e => h (e ▸ hc)
      simpa using this
    have whole : (text ++ []).takeWhile (· != '\n') = text ++ [].takeWhile (· != '\n') :=
      List.takeWhile_append_of_pos all
    rw [List.append_nil, List.takeWhile_nil, List.append_nil] at whole
    rw [runLength, whole]
  unfold lineLength
  rw [runLength_feed (by rfl), whole]
  simp

/-! ## § Operators -/

theorem feed_notMem_operatorTails (c : Char) : (operatorTails c).contains '\n' = false := by
  unfold operatorTails
  split <;> rfl

theorem symbolLength?_feed (c : Char) (rest tail : List Char) :
    symbolLength? c (rest ++ '\n' :: tail) = symbolLength? c rest := by
  unfold symbolLength?
  rw [head?_any_feed (feed_notMem_operatorTails c)]

theorem combiner_feed {length n : Nat}
    (h : combiner v text length rest = .token kind n) (tail : List Char) :
    combiner v (text ++ '\n' :: tail) length (rest ++ '\n' :: tail) = .token kind n := by
  have accept {count : Nat} (hc : count ≤ rest.length)
      (ha : (if v.isBinary (String.ofList (rest.take count)) then
          Lexeme.token .operator (length + count)
        else fail text (.notAnOperator (String.ofList (rest.take count)))) = .token kind n) :
      (if v.isBinary (String.ofList ((rest ++ '\n' :: tail).take count)) then
          Lexeme.token .operator (length + count)
        else fail (text ++ '\n' :: tail)
          (.notAnOperator (String.ofList ((rest ++ '\n' :: tail).take count))))
        = .token kind n := by
    rw [take_feed hc]
    split at ha
    next hb => rwa [if_pos hb]
    next => exact absurd ha (fail_ne_token _ _ _ _)
  cases rest with
  | nil => exact absurd h (fail_ne_token _ _ _ _)
  | cons c rest =>
    unfold combiner at h ⊢
    dsimp only [List.cons_append] at h ⊢
    rw [symbolLength?_feed]
    split at h
    next count hs => exact accept (symbolLength?_le hs).2 h
    next =>
      split at h
      next hw =>
        rw [if_pos hw]
        have run := runLength_le Text.isWordChar (c :: rest)
        have same := runLength_feed (p := Text.isWordChar) (by decide) (c :: rest) tail
        have behind := drop_feed run tail
        rw [List.cons_append] at same behind
        rw [same, behind]
        split at h
        next next others hd =>
          split at h
          next ht =>
            rw [hd, List.cons_append]
            have := atTerminator_feed (next :: others) tail
            rw [List.cons_append, ht] at this
            simp only [this]
            exact accept run h
          next => exact absurd h (fail_ne_token _ _ _ _)
        next hd =>
          rw [hd]
          exact accept run h
      next => exact absurd h (fail_ne_token _ _ _ _)

theorem operator_feed {length n : Nat} (hl : length ≤ text.length)
    (h : operator v text length = .token kind n) (tail : List Char) :
    operator v (text ++ '\n' :: tail) length = .token kind n := by
  unfold operator at h ⊢
  rw [take_feed hl, drop_feed hl]
  dsimp only at h ⊢
  split at h
  next hw =>
    rw [if_pos hw]
    split at h
    next hd => simpa [hd] using h
    next hd => simpa [hd] using h
    next rest hd =>
      simp only [hd, List.cons_append]
      rw [head?_any_feed (by decide)]
      split at h
      next point => rwa [if_pos point]
      next point =>
        rw [if_neg point]
        exact combiner_feed h tail
    next slash backslash point =>
      cases hd : text.drop length with
      | nil => exact h
      | cons c rest =>
        rw [hd] at slash backslash point
        split
        next he => exact absurd (List.cons.inj he).1 (fun e => slash rest (by rw [e]))
        next he => exact absurd (List.cons.inj he).1 (fun e => backslash rest (by rw [e]))
        next he => exact absurd (List.cons.inj he).1 (fun e => point rest (by rw [e]))
        next => exact h
  next hw => rwa [if_neg hw]

/-! ## § Numbers -/

theorem feed_notMem_alphabet (base : Int) : '\n' ∉ Radix.alphabet base := by
  have decimal : '\n' ∉ Radix.decimalDigits := by decide
  have letters : '\n' ∉ Radix.lowerLetters ∧ '\n' ∉ Radix.upperLetters := by decide
  unfold Radix.alphabet
  split
  · exact decimal
  split
  · exact fun h => decimal (List.mem_of_mem_take h)
  split
  · exact fun h => decimal (List.mem_of_mem_take h)
  · simp only [List.mem_append, not_or]
    exact ⟨⟨decimal, fun h => letters.1 (List.mem_of_mem_take h)⟩,
      fun h => letters.2 (List.mem_of_mem_take h)⟩

theorem numberDigits_feed (text tail : List Char) :
    numberDigits v (text ++ '\n' :: tail) = numberDigits v text := by
  unfold numberDigits
  split
  next =>
    rcases text with _ | ⟨a, _ | ⟨b, text⟩⟩
    · rfl
    · simp
    · by_cases ha : a = '0'
      · by_cases hx : b = 'x' ∨ b = 'X'
        · rcases hx with rfl | rfl <;> simp [ha]
        · by_cases ho : b = 'o' ∨ b = 'O'
          · rcases text with _ | ⟨c, text⟩ <;> rcases ho with rfl | rfl <;> simp [ha]
          · simp_all
      · simp [ha]
  next => rfl

/-- The digits of a number are no line feeds, and its base prefix lies within the text. -/
theorem numberDigits_inv (v : Vocabulary) (text : List Char) :
    (numberDigits v text).1 ≤ text.length ∧
      (numberDigits v text).2.contains '\n' = false := by
  have clean (base : Int) : (Radix.alphabet base).contains '\n' = false :=
    Bool.eq_false_iff.2 fun hm => feed_notMem_alphabet base (List.contains_iff_mem.1 hm)
  unfold numberDigits
  split
  · split
    case h_5 => exact ⟨Nat.zero_le _, clean _⟩
    all_goals
      try split
      all_goals
        simp [feed_notMem_alphabet, Vocabulary.digits]
  · exact ⟨Nat.zero_le _, clean _⟩

theorem ite_head?_le (p : Char → Bool) (text : List Char) :
    (if text.head?.any p = true then 1 else 0) ≤ text.length := by
  cases text with
  | nil => simp
  | cons =>
    rw [List.length_cons]
    split <;> omega

theorem exponentLength_feed (text tail : List Char) :
    exponentLength (text ++ '\n' :: tail) = exponentLength text := by
  cases text with
  | nil => rfl
  | cons mark rest =>
    rw [List.cons_append]
    unfold exponentLength
    simp only
    rw [head?_any_feed (by decide)]
    rw [drop_feed (ite_head?_le _ _), runLength_feed (by decide)]

theorem exponentLength_le {count : Nat} (h : exponentLength text = .ok count) :
    count ≤ text.length := by
  cases text with
  | nil =>
    obtain rfl := Except.ok.inj h
    exact Nat.le_refl _
  | cons mark rest =>
    unfold exponentLength at h
    dsimp only at h
    have bound := ite_head?_le ['+', '-'].contains rest
    generalize (if rest.head?.any ['+', '-'].contains = true then 1 else 0) = sign at h bound
    split at h
    · split at h
      · exact nomatch h
      · obtain rfl := Except.ok.inj h
        have run := runLength_le Text.isAsciiDigit (rest.drop sign)
        rw [List.length_drop] at run
        rw [List.length_cons]
        omega
    · obtain rfl := Except.ok.inj h
      exact Nat.zero_le _

theorem endsNumber_feed (slash imaginary : Bool) (text tail : List Char) :
    endsNumber slash imaginary (text ++ '\n' :: tail) = endsNumber slash imaginary text := by
  cases text with
  | nil => simp [endsNumber, atTerminator]; decide
  | cons c text =>
    have := atTerminator_feed (c :: text) tail
    rw [List.cons_append] at this ⊢
    simp only [endsNumber, this]

/-- The length of a number whose digits end after `mantissa` characters. -/
def lengthFrom (slash imaginary : Bool) (text : List Char) (mantissa : Nat) : Except Nat Nat :=
  match exponentLength (text.drop mantissa) with
  | .error count => .error (mantissa + count)
  | .ok count =>
    if endsNumber slash imaginary (text.drop (mantissa + count)) then .ok (mantissa + count)
    else .error (mantissa + count + 1)

theorem lengthFrom_feed (slash imaginary : Bool) {mantissa : Nat} (hm : mantissa ≤ text.length)
    (tail : List Char) :
    lengthFrom slash imaginary (text ++ '\n' :: tail) mantissa
        = lengthFrom slash imaginary text mantissa ∧
      ∀ n, lengthFrom slash imaginary text mantissa = .ok n → n ≤ text.length := by
  unfold lengthFrom
  rw [drop_feed hm, exponentLength_feed]
  cases he : exponentLength (text.drop mantissa) with
  | error count => exact ⟨rfl, nofun⟩
  | ok count =>
    have bound := exponentLength_le he
    rw [List.length_drop] at bound
    have hl : mantissa + count ≤ text.length := by omega
    dsimp only
    rw [drop_feed hl, endsNumber_feed]
    refine ⟨rfl, fun n h => ?_⟩
    split at h
    · obtain rfl := Except.ok.inj h
      exact hl
    · exact nomatch h

/-- Where the digits of a number end, `whole` of which stand before its point; `text` is what stands
behind those. -/
def mantissa (digits : List Char) (whole : Nat) (text : List Char) : Nat :=
  match text with
  | '.' :: rest => whole + 1 + runLength digits.contains rest
  | _ => whole

theorem mantissa_feed {digits : List Char} (hd : digits.contains '\n' = false) (whole : Nat)
    (text tail : List Char) :
    mantissa digits whole (text ++ '\n' :: tail) = mantissa digits whole text ∧
      mantissa digits whole text ≤ whole + text.length := by
  unfold mantissa
  rcases text with _ | ⟨c, rest⟩
  · simp
  · by_cases hc : c = '.'
    · subst hc
      have run := runLength_le digits.contains rest
      simp only [List.cons_append, List.length_cons]
      rw [runLength_feed hd]
      exact ⟨rfl, by omega⟩
    · simp [hc]

/-- The number of characters before the point of a number. -/
def wholeLength (v : Vocabulary) (text : List Char) : Nat :=
  (numberDigits v text).1 +
    runLength (numberDigits v text).2.contains (text.drop (numberDigits v text).1)

theorem realLength_eq (slash imaginary : Bool) (text : List Char) :
    realLength v slash imaginary text = lengthFrom slash imaginary text
      (mantissa (numberDigits v text).2 (wholeLength v text) (text.drop (wholeLength v text))) :=
  rfl

theorem realLength_feed (slash imaginary : Bool) (text tail : List Char) :
    realLength v slash imaginary (text ++ '\n' :: tail) = realLength v slash imaginary text ∧
      ∀ n, realLength v slash imaginary text = .ok n → n ≤ text.length := by
  obtain ⟨hs, hd⟩ := numberDigits_inv v text
  have run := runLength_le (numberDigits v text).2.contains (text.drop (numberDigits v text).1)
  rw [List.length_drop] at run
  have hw : wholeLength v text ≤ text.length := by
    unfold wholeLength
    omega
  have whole : wholeLength v (text ++ '\n' :: tail) = wholeLength v text := by
    unfold wholeLength
    rw [numberDigits_feed, drop_feed hs, runLength_feed hd]
  obtain ⟨same, hm⟩ :=
    mantissa_feed hd (wholeLength v text) (text.drop (wholeLength v text)) tail
  rw [List.length_drop] at hm
  rw [realLength_eq, realLength_eq, whole, numberDigits_feed, drop_feed hw, same]
  exact lengthFrom_feed slash imaginary (by omega) tail

theorem startsNumber_feed (text tail : List Char) :
    startsNumber v (text ++ '\n' :: tail) = startsNumber v text := by
  refine head?_any_feed ?_ text tail
  have digits : v.digits.contains '\n' = false :=
    Bool.eq_false_iff.2 fun hm => feed_notMem_alphabet _ (List.contains_iff_mem.1 hm)
  unfold Vocabulary.isNumeral
  rw [digits]
  rfl

theorem quotientLength_feed (imaginary : Bool) (text tail : List Char) :
    quotientLength v imaginary (text ++ '\n' :: tail) = quotientLength v imaginary text ∧
      ∀ n, quotientLength v imaginary text = .ok n → n ≤ text.length := by
  unfold quotientLength
  obtain ⟨same, bound⟩ := realLength_feed (v := v) true imaginary text tail
  rw [same]
  cases h : realLength v true imaginary text with
  | error => exact ⟨rfl, nofun⟩
  | ok length =>
    have hl := bound length h
    have total : (text.drop length).length = text.length - length := List.length_drop
    dsimp only
    rw [drop_feed hl]
    cases hd : text.drop length with
    | nil =>
      refine ⟨rfl, fun n hn => ?_⟩
      obtain rfl := Except.ok.inj hn
      exact hl
    | cons c rest =>
      by_cases hc : c = '/'
      · subst hc
        rw [hd, List.length_cons] at total
        obtain ⟨same', bound'⟩ := realLength_feed (v := v) false imaginary rest tail
        simp only [List.cons_append]
        rw [startsNumber_feed, same']
        refine ⟨rfl, fun n hn => ?_⟩
        split at hn
        · split at hn
          · exact nomatch hn
          next count hr =>
            have := bound' count hr
            obtain rfl := Except.ok.inj hn
            omega
        · obtain rfl := Except.ok.inj hn
          exact hl
      · simpa [hc] using hl

theorem signLength_feed (text tail : List Char) :
    signLength (text ++ '\n' :: tail) = signLength text := by
  unfold signLength
  rw [head?_any_feed (by decide)]

theorem signLength_le (text : List Char) : signLength text ≤ text.length := ite_head?_le _ _

theorem numberToken_feed {length : Nat} (h : length ≤ text.length) (tail : List Char) :
    numberToken v (text ++ '\n' :: tail) length = numberToken v text length := by
  unfold numberToken
  rw [take_feed h]

theorem signedNumber_feed {sign n : Nat} (hs : sign ≤ text.length)
    (h : signedNumber v text sign = .token kind n) (tail : List Char) :
    signedNumber v (text ++ '\n' :: tail) sign = .token kind n ∧ n ≤ text.length := by
  unfold signedNumber at h ⊢
  obtain ⟨same, bound⟩ := quotientLength_feed (v := v) true (text.drop sign) tail
  rw [drop_feed hs, same]
  split at h
  next => exact absurd h (fail_ne_token _ _ _ _)
  next count hq =>
    have hc := bound count hq
    rw [List.length_drop] at hc
    have hl : sign + count ≤ text.length := by omega
    dsimp only at h ⊢
    rw [drop_feed hl]
    have plain (hp : numberToken v text (sign + count) = .token kind n) :
        numberToken v (text ++ '\n' :: tail) (sign + count) = .token kind n ∧ n ≤ text.length := by
      obtain rfl := (numberToken_kind hp).2
      exact ⟨(numberToken_feed hl tail).trans hp, hl⟩
    cases hd : text.drop (sign + count) with
    | nil =>
      rw [hd] at h
      exact plain h
    | cons c rest =>
      rw [hd] at h
      by_cases hj : c = 'j'
      · subst hj
        have total : (text.drop (sign + count)).length = text.length - (sign + count) :=
          List.length_drop
        rw [hd, List.length_cons] at total
        have hsign := signLength_le rest
        have hsecond : sign + count + 1 + signLength rest ≤ text.length := by omega
        simp only at h
        simp only [List.cons_append]
        rw [signLength_feed, drop_feed hsecond]
        obtain ⟨same', bound'⟩ := quotientLength_feed (v := v) false
          (text.drop (sign + count + 1 + signLength rest)) tail
        rw [same']
        split at h
        next => exact absurd h (fail_ne_token _ _ _ _)
        next count' hq' =>
          have hc' := bound' count' hq'
          rw [List.length_drop] at hc'
          obtain rfl := (numberToken_kind h).2
          exact ⟨(numberToken_feed (by omega) tail).trans h, by omega⟩
      · have other (rest' : List Char) (e : c :: rest = 'j' :: rest') : False :=
          hj (List.cons.inj e).1
        split at h
        next rest' e => exact absurd e (fun e => other rest' e)
        next =>
          rw [List.cons_append]
          split
          next e => exact absurd (List.cons.inj e).1 hj
          next => exact plain h

theorem number_feed {n : Nat} (h : number v text = .token kind n)
    (tail : List Char) : number v (text ++ '\n' :: tail) = .token kind n := by
  unfold number at h ⊢
  rw [signLength_feed]
  split at h
  next hs =>
    have one : 1 ≤ text.length := hs ▸ signLength_le text
    rw [if_pos hs, drop_feed one]
    split at h
    next hd => simpa [hd] using h
    next hd => simpa [hd] using h
    next slash backslash =>
      have other : (if startsNumber v (text.drop 1 ++ '\n' :: tail) = true then
            signedNumber v (text ++ '\n' :: tail) 1
          else operator v (text ++ '\n' :: tail) 1) = .token kind n := by
        rw [startsNumber_feed]
        split at h
        next starts => exact (if_pos starts).trans (signedNumber_feed one h tail).1
        next starts => exact (if_neg starts).trans (operator_feed one h tail)
      cases hd : text.drop 1 with
      | nil =>
        rw [hd] at other
        exact other
      | cons c rest =>
        rw [hd] at slash backslash other
        split
        next he => exact absurd (List.cons.inj he).1 (fun e => slash rest (by rw [e]))
        next he => exact absurd (List.cons.inj he).1 (fun e => backslash rest (by rw [e]))
        next => exact other
  next hs =>
    rw [if_neg hs]
    exact (signedNumber_feed (Nat.zero_le _) h tail).1

/-! ## § Words and quotes -/

theorem word_feed {n : Nat} (h : word v text = .token kind n)
    (tail : List Char) : word v (text ++ '\n' :: tail) = .token kind n := by
  have run := runLength_le Text.isWordChar text
  rw [word_token] at h ⊢
  rw [runLength_feed (by decide), drop_feed run, take_feed run, atTerminator_feed]
  obtain ⟨ends, h⟩ := h
  have point (behind : List Char) := startsWith_feed (show '.' ≠ '\n' by decide) behind tail
  refine ⟨ends, ?_⟩
  cases called v (text.take (runLength Text.isWordChar text)) _
      (text.drop (runLength Text.isWordChar text)) with
  | keyword is_op => rwa [named_keyword is_op] at h ⊢
  | outer is_o outer =>
    rw [named_outer is_o outer] at h
    rw [named_outer is_o ((point _).trans outer)]
    exact operator_feed run h tail
  | single is_o no_point =>
    rw [named_single is_o no_point] at h
    rwa [named_single is_o ((point _).trans no_point)]
  | operator own known =>
    rw [named_operator own known] at h ⊢
    exact operator_feed run h tail
  | digits own unknown all =>
    rw [named_digits own unknown all] at h ⊢
    exact number_feed h tail
  | name own unknown other => rwa [named_name own unknown other] at h ⊢

theorem quotedLength?_append {quote : Char} {length : Nat} (hq : quote ≠ '\\')
    (h : quotedLength? quote text = some length) (tail : List Char) :
    quotedLength? quote (text ++ tail) = some length ∧ length ≤ text.length := by
  induction text using quotedLength?.induct quote generalizing length with
  | case1 => exact nomatch h
  | case2 => exact nomatch h
  | case3 => exact nomatch h
  | case4 c rest hc ih =>
    rw [quotedLength?, if_neg hc] at h
    obtain ⟨inner, hi, rfl⟩ := Option.map_eq_some_iff.1 h
    obtain ⟨same, bound⟩ := ih hi
    rw [List.cons_append, List.cons_append, quotedLength?, if_neg hc, same]
    refine ⟨rfl, ?_⟩
    rw [List.length_cons, List.length_cons]
    omega
  | case5 rest feed escape =>
    rw [quotedLength?.eq_4 quote quote rest feed escape, if_pos rfl] at h
    obtain rfl := Option.some.inj h
    rw [List.cons_append, quotedLength?.eq_4 quote quote _ feed (fun _ _ e _ => hq e), if_pos rfl]
    exact ⟨rfl, by simp⟩
  | case6 c rest feed escape hc ih =>
    rw [quotedLength?.eq_4 quote c rest feed escape, if_neg hc] at h
    obtain ⟨inner, hi, rfl⟩ := Option.map_eq_some_iff.1 h
    obtain ⟨same, bound⟩ := ih hi
    -- A backslash at the end of the text would make a pair with what stands behind it.
    have no_escape (c' : Char) (rest' : List Char) (e : c = '\\')
        (e' : rest ++ tail = c' :: rest') : False := by
      cases rest with
      | nil => exact nomatch hi
      | cons d rest => exact escape d rest e rfl
    rw [List.cons_append, quotedLength?.eq_4 quote c _ feed no_escape, if_neg hc, same]
    refine ⟨rfl, ?_⟩
    rw [List.length_cons]
    omega

theorem quoted_feed {quote c : Char} {n : Nat} (hq : quote ≠ '\\')
    (h : quoted quote (c :: rest) = .token kind n) (tail : List Char) :
    quoted quote (c :: rest ++ '\n' :: tail) = .token kind n ∧
      0 < n ∧ n ≤ (c :: rest).length := by
  unfold quoted at h ⊢
  rw [List.drop_one, List.tail_cons] at h
  rw [List.cons_append, List.drop_one, List.tail_cons]
  split at h
  next length hl =>
    obtain ⟨same, bound⟩ := quotedLength?_append hq hl ('\n' :: tail)
    injection h with hk hn
    subst hk hn
    rw [same]
    refine ⟨rfl, by omega, ?_⟩
    rw [List.length_cons]
    omega
  next => exact absurd h (fail_ne_token _ _ _ _)

theorem raw_feed {c : Char} {n : Nat}
    (h : raw (c :: rest) = .token kind n) (tail : List Char) :
    raw (c :: rest ++ '\n' :: tail) = .token kind n ∧ 0 < n ∧ n ≤ (c :: rest).length := by
  unfold raw at h ⊢
  rw [List.drop_one, List.tail_cons] at h
  rw [List.cons_append, List.drop_one, List.tail_cons]
  dsimp only at h ⊢
  split at h
  next closed =>
    rw [List.length_cons] at closed
    rw [runLength_append (by omega)]
    injection h with hk hn
    subst hk hn
    refine ⟨if_pos ?_, by omega, ?_⟩
    · rw [List.length_cons, List.length_append]
      omega
    · rw [List.length_cons]
      omega
  next => exact nomatch h

/-! ## § Lengths -/

theorem operator_bounds {length n : Nat} (hl : 0 < length)
    (hle : length ≤ text.length) (h : operator v text length = .token kind n) :
    0 < n ∧ n ≤ text.length := by
  cases (operator_inv h).2 with
  | plain => exact ⟨hl, hle⟩
  | fold _ hd =>
    have total : (text.drop length).length = text.length - length := List.length_drop
    rw [hd, List.length_cons] at total
    omega
  | product hd _ hc =>
    have total : (text.drop length).length = text.length - length := List.length_drop
    rw [hd, List.length_cons] at total
    omega

/-- What a number without sign starts with. -/
def Starts (v : Vocabulary) (c : Char) : Prop :=
  c = '.' ∨ Text.isAsciiDigit c = true ∨ v.digits.contains c = true

theorem isWordChar_of_isAsciiDigit {c : Char} (h : Text.isAsciiDigit c = true) :
    Text.isWordChar c = true := by
  have range : 48 ≤ c.toNat ∧ c.toNat ≤ 57 := by
    simpa [Text.isAsciiDigit, Char.le_def, UInt32.le_iff_toNat_le] using h
  have ascii : Text.isAscii c = true := by
    simp only [Text.isAscii, decide_eq_true_eq]
    omega
  have digit : c.isAlphanum = true := by
    simp only [Char.isAlphanum, Char.isDigit, Bool.or_eq_true, Bool.and_eq_true, decide_eq_true_eq]
    exact .inr range
  rw [Text.isWordChar, Text.isAlphanumeric, if_pos ascii, digit, Bool.or_true]

/-- A number cannot end before a digit. -/
theorem endsNumber_digit {slash imaginary : Bool} {c : Char} (h : Text.isAsciiDigit c = true) :
    endsNumber slash imaginary (c :: rest) = false := by
  have word := isWordChar_of_isAsciiDigit h
  have other (d : Char) (hd : Text.isAsciiDigit d = false) : c ≠ d := by
    rintro rfl
    rw [h] at hd
    exact nomatch hd
  have hslash := other '/' (by decide)
  have hj := other 'j' (by decide)
  have ho := other 'o' (by decide)
  simp [endsNumber, word, hslash, hj, ho]

theorem le_of_lengthFrom {slash imaginary : Bool} {digits n : Nat}
    (h : lengthFrom slash imaginary text digits = .ok n) : digits ≤ n := by
  unfold lengthFrom at h
  split at h
  · exact nomatch h
  · split at h
    · obtain rfl := Except.ok.inj h
      omega
    · exact nomatch h

theorem exponentLength_digit {c : Char} (h : Text.isAsciiDigit c = true) :
    exponentLength (c :: rest) = .ok 0 := by
  unfold exponentLength
  refine if_neg ?_
  rintro (rfl | rfl) <;> exact absurd h (by decide)

/-- Without a base prefix the digits are those of the vocabulary. -/
theorem numberDigits_of_bare (h : (numberDigits v text).1 = 0) :
    (numberDigits v text).2 = v.digits := by
  unfold numberDigits at h ⊢
  split
  next base =>
    rw [if_pos base] at h
    split
    next => exact nomatch h
    next => exact nomatch h
    next =>
      split
      next octal => exact absurd h (by simp [octal])
      next => rfl
    next =>
      split
      next octal => exact absurd h (by simp [octal])
      next => rfl
    next => rfl
  next => rfl

/-- A number has a first character. -/
theorem realLength_pos {slash imaginary : Bool} {c : Char} {n : Nat} (hc : Starts v c)
    (h : realLength v slash imaginary (c :: rest) = .ok n) : 0 < n := by
  rw [realLength_eq] at h
  have bound := le_of_lengthFrom h
  refine Nat.pos_of_ne_zero ?_
  rintro rfl
  -- Then nothing stands before the point, and so the first character is no digit.
  have no_whole : wholeLength v (c :: rest) = 0 := by
    refine Nat.le_zero.1 (Nat.le_trans ?_ bound)
    unfold mantissa
    split <;> omega
  have bare : (numberDigits v (c :: rest)).1 = 0 := by
    unfold wholeLength at no_whole
    omega
  have no_digit : v.digits.contains c = false := by
    unfold wholeLength at no_whole
    rw [bare, List.drop_zero, Nat.zero_add, numberDigits_of_bare bare, runLength,
      List.takeWhile_cons] at no_whole
    split at no_whole
    · simp at no_whole
    next hd => exact Bool.eq_false_iff.2 hd
  rw [no_whole, List.drop_zero] at h bound
  rcases hc with rfl | hc | hc
  · simp only [mantissa] at bound
    omega
  · rw [Nat.le_zero.1 bound] at h
    unfold lengthFrom at h
    rw [List.drop_zero, exponentLength_digit hc] at h
    simp only [Nat.add_zero, List.drop_zero] at h
    rw [endsNumber_digit hc] at h
    exact nomatch h
  · rw [no_digit] at hc
    exact nomatch hc

theorem quotientLength_pos {imaginary : Bool} {c : Char} {n : Nat} (hc : Starts v c)
    (h : quotientLength v imaginary (c :: rest) = .ok n) : 0 < n := by
  unfold quotientLength at h
  split at h
  · exact nomatch h
  next length hr =>
    have pos := realLength_pos hc hr
    split at h
    · split at h
      · split at h
        · exact nomatch h
        · obtain rfl := Except.ok.inj h
          omega
      · obtain rfl := Except.ok.inj h
        exact pos
    · obtain rfl := Except.ok.inj h
      exact pos

theorem le_of_signedNumber {sign n : Nat}
    (h : signedNumber v text sign = .token kind n) :
    ∃ count, quotientLength v true (text.drop sign) = .ok count ∧ sign + count ≤ n := by
  unfold signedNumber at h
  dsimp only at h
  split at h
  · exact absurd h (fail_ne_token _ _ _ _)
  next count hq =>
    refine ⟨count, hq, ?_⟩
    split at h
    · split at h
      · exact absurd h (fail_ne_token _ _ _ _)
      · obtain rfl := (numberToken_kind h).2
        omega
    · obtain rfl := (numberToken_kind h).2
      exact Nat.le_refl _

theorem signedNumber_le {sign n : Nat} (hs : sign ≤ text.length)
    (h : signedNumber v text sign = .token kind n) : n ≤ text.length :=
  (signedNumber_feed hs h []).2

theorem number_bounds {c : Char} {n : Nat}
    (hc : c = '+' ∨ c = '-' ∨ Starts v c) (h : number v (c :: rest) = .token kind n) :
    0 < n ∧ n ≤ (c :: rest).length := by
  unfold number at h
  split at h
  next hs =>
    have one : 1 ≤ (c :: rest).length := by simp
    split at h
    next hd =>
      injection h with _ hn
      have total : ((c :: rest).drop 1).length = (c :: rest).length - 1 := List.length_drop
      rw [hd, List.length_cons] at total
      omega
    next hd =>
      injection h with _ hn
      have total : ((c :: rest).drop 1).length = (c :: rest).length - 1 := List.length_drop
      rw [hd, List.length_cons] at total
      omega
    next =>
      split at h
      · obtain ⟨count, -, hle⟩ := le_of_signedNumber h
        exact ⟨by omega, signedNumber_le one h⟩
      · exact operator_bounds Nat.one_pos one h
  next hs =>
    refine ⟨?_, signedNumber_le (Nat.zero_le _) h⟩
    obtain ⟨count, hq, hle⟩ := le_of_signedNumber h
    rcases hc with rfl | rfl | hc
    · exact absurd rfl hs
    · exact absurd rfl hs
    · have := quotientLength_pos hc hq
      omega

theorem word_bounds {c : Char} {n : Nat} (hc : Text.isWordChar c = true)
    (h : word v (c :: rest) = .token kind n) : 0 < n ∧ n ≤ (c :: rest).length := by
  have run := runLength_le Text.isWordChar (c :: rest)
  have pos : 0 < runLength Text.isWordChar (c :: rest) := by
    rw [runLength, List.takeWhile_cons, if_pos hc]
    exact Nat.succ_pos _
  have first : c ∈ (c :: rest).take (runLength Text.isWordChar (c :: rest)) := by
    rw [take_runLength, List.takeWhile_cons, if_pos hc]
    exact List.mem_cons_self
  have whole {kind' : TokenKind}
      (ht : Lexeme.token kind' (runLength Text.isWordChar (c :: rest)) = .token kind n) :
      0 < n ∧ n ≤ (c :: rest).length := by
    injection ht with _ hn
    exact hn ▸ ⟨pos, run⟩
  obtain ⟨-, h⟩ := word_token.1 h
  cases called v ((c :: rest).take (runLength Text.isWordChar (c :: rest))) _
      ((c :: rest).drop (runLength Text.isWordChar (c :: rest))) with
  | keyword is_op => exact whole ((named_keyword is_op).symm.trans h)
  | outer is_o point => exact operator_bounds pos run ((named_outer is_o point).symm.trans h)
  | single is_o no_point => exact whole ((named_single is_o no_point).symm.trans h)
  | operator own known => exact operator_bounds pos run ((named_operator own known).symm.trans h)
  | digits own unknown all =>
    rw [named_digits own unknown all] at h
    rw [Radix.isAllDigits, Bool.and_eq_true] at all
    exact number_bounds (.inr (.inr (.inr (.inr (List.all_eq_true.1 all.2 c first))))) h
  | name own unknown other => exact whole ((named_name own unknown other).symm.trans h)

theorem signOperates_feed (v : Vocabulary) (previous : Option Char) (rest tail : List Char) :
    signOperates v previous (rest ++ '\n' :: tail) = signOperates v previous rest := by
  have digits : v.digits.contains '\n' = false :=
    Bool.eq_false_iff.2 fun hm => feed_notMem_alphabet _ (List.contains_iff_mem.1 hm)
  unfold signOperates
  rw [startsWith_feed (by decide)]
  cases rest with
  | nil => rfl
  | cons d rest =>
    rw [drop_feed (by simp), head?_any_feed]
    unfold Vocabulary.isNumeral
    rw [digits]
    rfl

theorem signed_feed {previous : Option Char} {c : Char} {n : Nat}
    (hc : c = '+' ∨ c = '-') (h : signed v previous (c :: rest) rest = .token kind n)
    (tail : List Char) :
    signed v previous (c :: rest ++ '\n' :: tail) (rest ++ '\n' :: tail) = .token kind n ∧
      0 < n ∧ n ≤ (c :: rest).length := by
  have one : 1 ≤ (c :: rest).length := by simp
  rw [signed_eq] at h ⊢
  rw [signOperates_feed]
  split at h
  next operates =>
    rw [if_pos operates]
    exact ⟨operator_feed one h tail, operator_bounds Nat.one_pos one h⟩
  next other =>
    rw [if_neg other]
    exact ⟨number_feed h tail, number_bounds (hc.imp_right .inl) h⟩

/-- **A line feed is as good as the end of the text** to the lexeme before it. -/
theorem ofText_feed {previous : Option Char} {c : Char} {n : Nat}
    (h : ofText v previous c rest = .token kind n) (tail : List Char) :
    ofText v previous c (rest ++ '\n' :: tail) = .token kind n ∧
      0 < n ∧ n ≤ (c :: rest).length := by
  have simple {kind' : TokenKind} (ht : Lexeme.token kind' 1 = .token kind n) :
      0 < n ∧ n ≤ (c :: rest).length := by
    injection ht with _ hn
    rw [← hn, List.length_cons]
    omega
  cases ofText_begins c with
  | feed _ cut | semicolon _ cut =>
    rw [cut] at h ⊢
    exact ⟨h, simple h⟩
  | comment _ cut => exact nomatch (cut v previous rest).symm.trans h
  | quote hc cut =>
    rw [cut] at h ⊢
    refine quoted_feed ?_ h tail
    rcases hc with rfl | rfl <;> decide
  | backquote _ cut =>
    rw [cut] at h ⊢
    exact raw_feed h tail
  | sign hc cut =>
    rw [cut] at h ⊢
    exact signed_feed hc h tail
  | numeral hc _ cut =>
    rw [cut] at h ⊢
    exact ⟨number_feed h tail, number_bounds (.inr (.inr (hc.imp_right .inl))) h⟩
  | equals _ cut =>
    rw [cut] at h ⊢
    rw [startsWith_feed (by decide)]
    by_cases hs : startsWith '=' rest = true
    · rw [if_pos hs] at h ⊢
      have two : 2 ≤ (c :: rest).length := by
        cases rest with
        | nil => exact nomatch hs
        | cons => simp
      exact ⟨operator_feed two h tail, operator_bounds Nat.two_pos two h⟩
    · rw [if_neg hs] at h ⊢
      exact ⟨h, simple h⟩
  | letter hc _ cut =>
    rw [cut] at h ⊢
    exact ⟨word_feed h tail, word_bounds hc h⟩
  | special _ cut other =>
    have same := symbolLength?_feed c rest tail
    cases hs : symbolLength? c rest with
    | some length =>
      obtain ⟨pos, bound⟩ := symbolLength?_le hs
      rw [cut _ _ _ _ hs] at h
      rw [cut _ _ _ _ (same.trans hs)]
      exact ⟨operator_feed bound h tail, operator_bounds pos bound h⟩
    | none =>
      rw [other _ _ _ hs] at h
      rw [other _ _ _ (same.trans hs)]
      rcases single_cases c with ⟨kind', -, -, token⟩ | fails
      · rw [token] at h ⊢
        exact ⟨h, simple h⟩
      · rw [fails] at h
        exact absurd h (fail_ne_token _ _ _ _)

/-! ## § Ends of lines -/

/-- Lexemes that do not end their line, errors aside. -/
def Inner : Lexeme → Prop
  | .token kind _ => kind.isLineEnd = false
  | .comment _ => False
  | .bad _ _ => True

theorem operator_inner (v : Vocabulary) (text : List Char) (length : Nat) :
    (operator v text length).Inner := by
  unfold operator combiner fail
  dsimp only
  repeat' split
  all_goals first | exact rfl | trivial

theorem number_inner (v : Vocabulary) (text : List Char) : (number v text).Inner := by
  have token (length : Nat) : (numberToken v text length).Inner := by
    unfold numberToken
    dsimp only
    repeat' split
    all_goals exact rfl
  have signed (sign : Nat) : (signedNumber v text sign).Inner := by
    unfold signedNumber badNumber fail
    dsimp only
    repeat' split
    all_goals first | exact token _ | trivial
  unfold number
  repeat' split
  all_goals first | exact signed _ | exact operator_inner _ _ _ | exact rfl

theorem word_inner (v : Vocabulary) (text : List Char) : (word v text).Inner := by
  have named (chars : List Char) (name : String) (tail : List Char) (length : Nat) :
      (word.named v text chars name tail length).Inner := by
    unfold word.named
    repeat' split
    all_goals first | exact operator_inner _ _ _ | exact number_inner _ _ | exact rfl
  unfold word fail
  dsimp only
  repeat' split
  all_goals first | exact named _ _ _ _ | trivial

theorem quoted_inner (quote : Char) (text : List Char) : (quoted quote text).Inner := by
  unfold quoted fail
  split
  · exact rfl
  · trivial

theorem raw_inner (text : List Char) : (raw text).Inner := by
  unfold raw
  dsimp only
  split
  · exact rfl
  · trivial

theorem signed_inner (v : Vocabulary) (previous : Option Char) (text rest : List Char) :
    (signed v previous text rest).Inner := by
  rw [signed_eq]
  split
  · exact operator_inner _ _ _
  · exact number_inner _ _

/-- Only line feeds and comments end a line. -/
theorem ofText_inner (v : Vocabulary) (previous : Option Char) {c : Char} (rest : List Char)
    (hf : c ≠ '\n') (hc : c ≠ '#') : (ofText v previous c rest).Inner := by
  cases ofText_begins c with
  | feed feed => exact absurd feed hf
  | comment comment => exact absurd comment hc
  | semicolon _ cut =>
    rw [cut]
    exact rfl
  | quote _ cut =>
    rw [cut]
    exact quoted_inner _ _
  | backquote _ cut =>
    rw [cut]
    exact raw_inner _
  | sign _ cut =>
    rw [cut]
    exact signed_inner _ _ _ _
  | numeral _ _ cut =>
    rw [cut]
    exact number_inner _ _
  | equals _ cut =>
    rw [cut]
    split
    · exact operator_inner _ _ _
    · exact rfl
  | letter _ _ cut =>
    rw [cut]
    exact word_inner _ _
  | special _ cut other =>
    cases hs : symbolLength? c rest with
    | some length =>
      rw [cut _ _ _ _ hs]
      exact operator_inner _ _ _
    | none =>
      rw [other _ _ _ hs]
      rcases single_cases c with ⟨kind, -, inner, token⟩ | fails
      · rw [token]
        exact inner
      · rw [fails]
        trivial

theorem ofText_comment {previous : Option Char} {c : Char} {n : Nat}
    (h : ofText v previous c rest = .comment n) : c = '#' ∧ n = lineLength (c :: rest) := by
  by_cases hf : c = '\n'
  · subst hf
    exact nomatch h
  by_cases hc : c = '#'
  · subst hc
    injection h with hn
    exact ⟨rfl, hn.symm⟩
  · have inner := ofText_inner v previous rest hf hc
    rw [h] at inner
    exact inner.elim

end ArrayCalc.Lexeme
