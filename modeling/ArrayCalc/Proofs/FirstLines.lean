import ArrayCalc.Proofs.LineEnds

/-!
# Lexemes of the first line

The line feed at the end of a line settles what its last lexeme is, whatever stands behind it, and
be that lexeme well formed or not.  Raw text is the one thing that goes on on the next line.
-/

namespace ArrayCalc.Lexeme

variable {v : Vocabulary} {text rest : List Char} {n : Nat}

/-- A lexeme of a line of `n` characters.  Comments and errors take the line feed with them. -/
inductive EndsBy (n : Nat) : Lexeme → Prop
  | token (kind : TokenKind) {length : Nat} (h : length ≤ n) : EndsBy n (.token kind length)
  | comment : EndsBy n (.comment (n + 1))
  | bad (cause : LexError.Cause) : EndsBy n (.bad cause (n + 1))

theorem EndsBy.length_le {lexeme : Lexeme} (h : EndsBy n lexeme) : lexeme.length ≤ n + 1 := by
  cases h with
  | token _ h => exact Nat.le_succ_of_le h
  | comment => exact Nat.le_refl _
  | bad => exact Nat.le_refl _

/-- A lexeme of a line of `n` characters that does not depend on the text behind its line feed. -/
def Settles (n : Nat) (f : List Char → Lexeme) : Prop :=
  ∃ lexeme, EndsBy n lexeme ∧ ∀ tail, f ('\n' :: tail) = lexeme

namespace Settles

variable {f g : List Char → Lexeme}

theorem token (kind : TokenKind) {length : Nat} (h : length ≤ n) :
    Settles n fun _ => .token kind length := ⟨_, .token kind h, fun _ => rfl⟩

/-- An error drops its line. -/
theorem fail (feed : '\n' ∉ text) (cause : LexError.Cause) :
    Settles text.length fun tail => Lexeme.fail (text ++ tail) cause := by
  refine ⟨_, .bad cause, fun tail => ?_⟩
  show Lexeme.bad cause (lineLength (text ++ '\n' :: tail)) = _
  rw [(lineLength_feed feed tail).2]

theorem congr (h : Settles n g) (same : ∀ tail, f ('\n' :: tail) = g ('\n' :: tail)) :
    Settles n f := by
  obtain ⟨lexeme, ends, hg⟩ := h
  exact ⟨lexeme, ends, fun tail => (same tail).trans (hg tail)⟩

theorem ite {c : Prop} [Decidable c] (hf : c → Settles n f) (hg : ¬c → Settles n g) :
    Settles n fun tail => if c then f tail else g tail := by
  by_cases h : c
  · exact (hf h).congr fun tail => if_pos h
  · exact (hg h).congr fun tail => if_neg h

end Settles

/-! ## § Lexemes in parts -/

section Parts

variable (v : Vocabulary) (text : List Char)

/-- The operator whose first word of so many characters stands before `rest`. -/
def operatorBefore (length : Nat) (rest : List Char) : Lexeme :=
  match rest with
  | '/' :: _ | '\\' :: _ => .token .operator (length + 1)
  | '.' :: rest =>
    if rest.head?.any Text.isAsciiDigit then .token .operator length
    else combiner v text (length + 1) rest
  | _ => .token .operator length

theorem operator_eq (length : Nat) : operator v text length =
    if String.ofList (text.take length) = "o" ∨
        v.isBinary (String.ofList (text.take length)) = true
    then operatorBefore v text length (text.drop length) else .token .operator length := rfl

/-- The number whose imaginary part starts behind so many characters. -/
def complexFrom (second : Nat) : Lexeme :=
  match quotientLength v false (text.drop second) with
  | .error count => badNumber text (second + count)
  | .ok count => numberToken v text (second + count)

/-- The number whose first part of so many characters stands before `rest`. -/
def numberBefore (length : Nat) (rest : List Char) : Lexeme :=
  match rest with
  | 'j' :: rest => complexFrom v text (length + 1 + signLength rest)
  | _ => numberToken v text length

variable {v text} in
theorem signedNumber_error {sign count : Nat}
    (h : quotientLength v true (text.drop sign) = .error count) :
    signedNumber v text sign = badNumber text (sign + count) := by
  rw [signedNumber, h]

variable {v text} in
theorem signedNumber_ok {sign count : Nat}
    (h : quotientLength v true (text.drop sign) = .ok count) :
    signedNumber v text sign
      = numberBefore v text (sign + count) (text.drop (sign + count)) := by
  rw [signedNumber, h]
  rfl

/-- The number or the operator whose sign stands before `rest`. -/
def signBefore (rest : List Char) : Lexeme :=
  match rest with
  | '/' :: _ | '\\' :: _ => .token .operator 2
  | rest => if startsNumber v rest then signedNumber v text 1 else operator v text 1

variable {v text} in
theorem number_signed (h : signLength text = 1) :
    number v text = signBefore v text (text.drop 1) := by
  rw [number, if_pos h]
  rfl

/-- The word of so many characters that stands before `rest`. -/
def wordBefore (length : Nat) (rest : List Char) : Lexeme :=
  match rest with
  | c :: others =>
    if atTerminator (c :: others) = false then fail text (.badCharacter c)
    else word.named v text (text.take length) (String.ofList (text.take length)) (c :: others) length
  | [] => word.named v text (text.take length) (String.ofList (text.take length)) [] length

theorem word_eq : word v text
    = wordBefore v text (runLength Text.isWordChar text)
        (text.drop (runLength Text.isWordChar text)) := by
  unfold word wordBefore
  dsimp only
  cases text.drop (runLength Text.isWordChar text) <;> rfl

/-- The quotation that has so many characters behind its opening quote, if it ends. -/
def quotation : Option Nat → Lexeme
  | some length => .token .string (1 + length)
  | none => fail text .unterminatedString

theorem quoted_eq (quote : Char) :
    quoted quote text = quotation text (quotedLength? quote (text.drop 1)) := by
  unfold quoted
  cases quotedLength? quote (text.drop 1) <;> rfl

end Parts

/-! ## § Operators -/

/-- Of what stands behind a line only the line feed is taken. -/
theorem take_line {length : Nat} (h : length ≤ text.length + 1) (tail : List Char) :
    (text ++ '\n' :: tail).take length = (text ++ ['\n']).take length := by
  rw [List.append_cons]
  exact List.take_append_of_le_length (by simpa using h)

theorem combiner_settles (feed : '\n' ∉ text) {length : Nat}
    (bound : length + rest.length ≤ text.length) :
    Settles text.length fun tail => combiner v (text ++ tail) length (rest ++ tail) := by
  have badOperator : Settles text.length fun tail =>
      fail (text ++ tail) (.badOperator (String.ofList ((text ++ tail).take (length + 1)))) := by
    have taken := Settles.fail feed
      (.badOperator (String.ofList ((text ++ ['\n']).take (length + 1))))
    exact taken.congr fun tail => by rw [take_line (by omega)]
  have accept {count : Nat} (hc : count ≤ rest.length) : Settles text.length fun tail =>
      if v.isBinary (String.ofList ((rest ++ tail).take count)) then
        .token .operator (length + count)
      else fail (text ++ tail) (.notAnOperator (String.ofList ((rest ++ tail).take count))) := by
    have word := Settles.ite (c := v.isBinary (String.ofList (rest.take count)) = true)
      (fun _ => .token .operator (show length + count ≤ text.length by omega))
      fun _ => .fail feed (.notAnOperator (String.ofList (rest.take count)))
    exact word.congr fun tail => by rw [take_feed hc]
  cases rest with
  | nil =>
    -- The line feed itself is no operator.
    exact badOperator.congr fun tail => rfl
  | cons c rest =>
    have opened (tail : List Char) : combiner v (text ++ '\n' :: tail) length
        (c :: rest ++ '\n' :: tail) = combiner v (text ++ '\n' :: tail) length
        (c :: (rest ++ '\n' :: tail)) := rfl
    cases hs : symbolLength? c rest with
    | some count =>
      refine (accept (symbolLength?_le hs).2).congr fun tail => ?_
      rw [opened, combiner, symbolLength?_feed, hs]
      rfl
    | none =>
      by_cases hw : Text.isWordChar c = true
      · have run := runLength_le Text.isWordChar (c :: rest)
        have same (tail : List Char) :=
          runLength_feed (p := Text.isWordChar) (by decide) (c :: rest) tail
        have behind (tail : List Char) := drop_feed run tail
        have chosen (tail : List Char) := (symbolLength?_feed c rest tail).trans hs
        simp only [List.cons_append] at same behind
        cases hd : (c :: rest).drop (runLength Text.isWordChar (c :: rest)) with
        | nil =>
          refine (accept run).congr fun tail => ?_
          rw [opened, combiner, chosen]
          dsimp only
          rw [if_pos hw, same, behind, hd]
          exact if_pos rfl
        | cons next others =>
          have terminator (tail : List Char) := atTerminator_feed (next :: others) tail
          simp only [List.cons_append] at terminator
          have word := Settles.ite (c := atTerminator (next :: others) = true)
            (fun _ => accept run) fun _ => .fail feed (.badCharacter next)
          refine word.congr fun tail => ?_
          rw [opened, combiner, chosen]
          dsimp only
          rw [if_pos hw, same, behind, hd]
          dsimp only [List.cons_append]
          rw [terminator]
      · refine badOperator.congr fun tail => ?_
        rw [opened, combiner, symbolLength?_feed, hs]
        exact if_neg hw

theorem operator_settles (feed : '\n' ∉ text) {length : Nat} (hl : length ≤ text.length) :
    Settles text.length fun tail => operator v (text ++ tail) length := by
  have plain : Settles text.length fun _ => Lexeme.token .operator length := .token .operator hl
  by_cases hw : String.ofList (text.take length) = "o" ∨
      v.isBinary (String.ofList (text.take length)) = true
  · have opened (tail : List Char) : operator v (text ++ '\n' :: tail) length
        = operatorBefore v (text ++ '\n' :: tail) length (text.drop length ++ '\n' :: tail) := by
      rw [operator_eq, take_feed hl, drop_feed hl, if_pos hw]
    have total : (text.drop length).length = text.length - length := List.length_drop
    cases hd : text.drop length with
    | nil =>
      refine plain.congr fun tail => ?_
      rw [opened, hd]
      rfl
    | cons c rest =>
      rw [hd, List.length_cons] at total
      have marked : Settles text.length fun _ => Lexeme.token .operator (length + 1) :=
        .token .operator (by omega)
      by_cases slash : c = '/'
      · refine marked.congr fun tail => ?_
        rw [opened, hd, slash]
        rfl
      by_cases backslash : c = '\\'
      · refine marked.congr fun tail => ?_
        rw [opened, hd, backslash]
        rfl
      by_cases point : c = '.'
      · have product := Settles.ite (c := rest.head?.any Text.isAsciiDigit = true)
          (fun _ => plain) fun _ => combiner_settles (v := v) feed
            (show length + 1 + rest.length ≤ text.length by omega)
        refine product.congr fun tail => ?_
        rw [opened, hd, point]
        simp only [List.cons_append, operatorBefore]
        rw [head?_any_feed (p := Text.isAsciiDigit) (by decide)]
      · refine plain.congr fun tail => ?_
        rw [opened, hd, List.cons_append, operatorBefore]
        · exact fun _ he => slash (List.cons.inj he).1
        · exact fun _ he => backslash (List.cons.inj he).1
        · exact fun _ he => point (List.cons.inj he).1
  · refine plain.congr fun tail => ?_
    unfold operator
    dsimp only
    rw [take_feed hl, if_neg hw]

/-! ## § Numbers -/

theorem exponentLength_error_le {count : Nat} (h : exponentLength text = .error count) :
    count ≤ text.length := by
  cases text with
  | nil => exact nomatch h
  | cons mark rest =>
    unfold exponentLength at h
    dsimp only at h
    have bound := ite_head?_le ['+', '-'].contains rest
    generalize (if rest.head?.any ['+', '-'].contains = true then 1 else 0) = sign at h bound
    split at h
    · split at h
      · obtain rfl := Except.error.inj h
        rw [List.length_cons]
        omega
      · exact nomatch h
    · exact nomatch h

theorem realLength_error_le {slash imaginary : Bool} {count : Nat}
    (h : realLength v slash imaginary text = .error count) : count ≤ text.length := by
  obtain ⟨hs, hd⟩ := numberDigits_inv v text
  have run := runLength_le (numberDigits v text).2.contains (text.drop (numberDigits v text).1)
  rw [List.length_drop] at run
  have hw : wholeLength v text ≤ text.length := by
    unfold wholeLength
    omega
  have hm := (mantissa_feed hd (wholeLength v text) (text.drop (wholeLength v text)) []).2
  rw [List.length_drop] at hm
  rw [realLength_eq, lengthFrom] at h
  split at h
  next error he =>
    have bound := exponentLength_error_le he
    rw [List.length_drop] at bound
    obtain rfl := Except.error.inj h
    omega
  next digits he =>
    have bound := exponentLength_le he
    rw [List.length_drop] at bound
    split at h
    · exact nomatch h
    next ends =>
      -- Where a number cannot end there is another character.
      have more : text.drop (mantissa (numberDigits v text).2 (wholeLength v text)
          (text.drop (wholeLength v text)) + digits) ≠ [] := fun e => ends (by rw [e]; rfl)
      have inside := List.length_pos_iff.2 more
      rw [List.length_drop] at inside
      obtain rfl := Except.error.inj h
      omega

theorem quotientLength_error_le {imaginary : Bool} {count : Nat}
    (h : quotientLength v imaginary text = .error count) : count ≤ text.length := by
  unfold quotientLength at h
  split at h
  next error he =>
    obtain rfl := Except.error.inj h
    exact realLength_error_le he
  next length he =>
    have bound := (realLength_feed true imaginary text []).2 length he
    have total : (text.drop length).length = text.length - length := List.length_drop
    split at h
    next rest hd =>
      rw [hd, List.length_cons] at total
      split at h
      · split at h
        next error he =>
          have inner := realLength_error_le he
          obtain rfl := Except.error.inj h
          omega
        · exact nomatch h
      · exact nomatch h
    · exact nomatch h

theorem badNumber_settles (feed : '\n' ∉ text) {length : Nat} (hl : length ≤ text.length) :
    Settles text.length fun tail => badNumber (text ++ tail) length := by
  have error := Settles.fail feed (.badNumber (String.ofList (text.take length)))
  exact error.congr fun tail => by rw [badNumber, take_feed hl]

theorem numberToken_settles {length : Nat} (hl : length ≤ text.length) :
    Settles text.length fun tail => numberToken v (text ++ tail) length := by
  have bounded : EndsBy text.length (numberToken v text length) := by
    unfold numberToken
    dsimp only
    split
    · exact .token _ hl
    · split
      · exact .token _ hl
      · exact .token _ hl
  exact ⟨_, bounded, fun tail => numberToken_feed hl tail⟩

theorem signedNumber_settles (feed : '\n' ∉ text) {sign : Nat} (hs : sign ≤ text.length) :
    Settles text.length fun tail => signedNumber v (text ++ tail) sign := by
  have first (tail : List Char) :=
    (quotientLength_feed (v := v) true (text.drop sign) tail).1
  cases hq : quotientLength v true (text.drop sign) with
  | error count =>
    have bound := quotientLength_error_le hq
    rw [List.length_drop] at bound
    have error : Settles text.length fun tail => badNumber (text ++ tail) (sign + count) :=
      badNumber_settles feed (by omega)
    exact error.congr fun tail => signedNumber_error (by rw [drop_feed hs, first, hq])
  | ok count =>
    have bound := (quotientLength_feed true (text.drop sign) []).2 count hq
    rw [List.length_drop] at bound
    have hl : sign + count ≤ text.length := by omega
    have opened (tail : List Char) : signedNumber v (text ++ '\n' :: tail) sign
        = numberBefore v (text ++ '\n' :: tail) (sign + count)
            (text.drop (sign + count) ++ '\n' :: tail) := by
      rw [signedNumber_ok (by rw [drop_feed hs, first, hq]), drop_feed hl]
    have real : Settles text.length fun tail => numberToken v (text ++ tail) (sign + count) :=
      numberToken_settles hl
    have total : (text.drop (sign + count)).length = text.length - (sign + count) :=
      List.length_drop
    cases hd : text.drop (sign + count) with
    | nil =>
      refine real.congr fun tail => ?_
      rw [opened, hd]
      rfl
    | cons c rest =>
      rw [hd, List.length_cons] at total
      by_cases mark : c = 'j'
      · -- The imaginary part may have a sign of its own.
        have second_le := signLength_le rest
        have second : sign + count + 1 + signLength rest ≤ text.length := by omega
        have twice (tail : List Char) := (quotientLength_feed (v := v) false
          (text.drop (sign + count + 1 + signLength rest)) tail).1
        have opened (tail : List Char) : signedNumber v (text ++ '\n' :: tail) sign
            = complexFrom v (text ++ '\n' :: tail) (sign + count + 1 + signLength rest) := by
          rw [opened, hd, mark, List.cons_append, numberBefore, signLength_feed]
        cases hq' : quotientLength v false (text.drop (sign + count + 1 + signLength rest)) with
        | error n =>
          have bound := quotientLength_error_le hq'
          rw [List.length_drop] at bound
          have error : Settles text.length fun tail =>
              badNumber (text ++ tail) (sign + count + 1 + signLength rest + n) :=
            badNumber_settles feed (by omega)
          refine error.congr fun tail => ?_
          rw [opened, complexFrom, drop_feed second, twice, hq']
        | ok n =>
          have bound := (quotientLength_feed false _ []).2 n hq'
          rw [List.length_drop] at bound
          have complex : Settles text.length fun tail =>
              numberToken v (text ++ tail) (sign + count + 1 + signLength rest + n) :=
            numberToken_settles (by omega)
          refine complex.congr fun tail => ?_
          rw [opened, complexFrom, drop_feed second, twice, hq']
      · refine real.congr fun tail => ?_
        rw [opened, hd, List.cons_append, numberBefore]
        exact fun _ he => mark (List.cons.inj he).1

theorem number_settles (feed : '\n' ∉ text) :
    Settles text.length fun tail => number v (text ++ tail) := by
  by_cases signed : signLength text = 1
  · have one : 1 ≤ text.length := signed ▸ signLength_le text
    have opened (tail : List Char) : number v (text ++ '\n' :: tail)
        = signBefore v (text ++ '\n' :: tail) (text.drop 1 ++ '\n' :: tail) := by
      rw [number_signed (by rw [signLength_feed, signed]), drop_feed one]
    have other := Settles.ite (c := startsNumber v (text.drop 1) = true)
      (fun _ => signedNumber_settles (v := v) feed one) fun _ => operator_settles (v := v) feed one
    have total : (text.drop 1).length = text.length - 1 := List.length_drop
    cases hd : text.drop 1 with
    | nil =>
      rw [hd] at other
      refine other.congr fun tail => ?_
      have starts := startsNumber_feed (v := v) [] tail
      rw [List.nil_append] at starts
      rw [opened, hd, List.nil_append, ← starts]
      rfl
    | cons c rest =>
      rw [hd, List.length_cons] at total
      rw [hd] at other
      have marked : Settles text.length fun _ => Lexeme.token .operator 2 :=
        .token .operator (by omega)
      by_cases slash : c = '/'
      · refine marked.congr fun tail => ?_
        rw [opened, hd, slash]
        rfl
      by_cases backslash : c = '\\'
      · refine marked.congr fun tail => ?_
        rw [opened, hd, backslash]
        rfl
      · refine other.congr fun tail => ?_
        have starts := startsNumber_feed (v := v) (c :: rest) tail
        rw [opened, hd, ← starts]
        rw [List.cons_append, signBefore]
        · exact fun _ he => slash (List.cons.inj he).1
        · exact fun _ he => backslash (List.cons.inj he).1
  · refine (signedNumber_settles (v := v) feed (Nat.zero_le _)).congr fun tail => ?_
    unfold number
    rw [signLength_feed, if_neg signed]

/-! ## § Words and quotes -/

theorem word_settles (feed : '\n' ∉ text) :
    Settles text.length fun tail => word v (text ++ tail) := by
  have run := runLength_le Text.isWordChar text
  generalize hn : runLength Text.isWordChar text = length at run
  have same (tail : List Char) : runLength Text.isWordChar (text ++ '\n' :: tail) = length := by
    rw [runLength_feed (by decide), hn]
  have named : Settles text.length fun tail =>
      word.named v (text ++ tail) (text.take length) (String.ofList (text.take length))
        (text.drop length ++ tail) length := by
    have name : Settles text.length fun _ => Lexeme.token .identifier length :=
      .token .identifier run
    have operator := operator_settles (v := v) feed run
    have outer := Settles.ite (c := startsWith '.' (text.drop length) = true)
      (fun _ => operator) fun _ => name
    have digits := Settles.ite
      (c := Radix.isAllDigits (text.take length) v.inputBase = true)
      (fun _ => number_settles (v := v) feed) fun _ => name
    have known := Settles.ite (c := v.isOperator (String.ofList (text.take length)) = true)
      (fun _ => operator) fun _ => digits
    have other := Settles.ite (c := String.ofList (text.take length) = "o")
      (fun _ => outer) fun _ => known
    have whole := Settles.ite (c := String.ofList (text.take length) = "op")
      (fun _ => .token .opKeyword run) fun _ => other
    refine whole.congr fun tail => ?_
    unfold word.named
    rw [startsWith_feed (by decide)]
  have opened (tail : List Char) : word v (text ++ '\n' :: tail)
      = wordBefore v (text ++ '\n' :: tail) length (text.drop length ++ '\n' :: tail) := by
    rw [word_eq, same, drop_feed run]
  cases hd : text.drop length with
  | nil =>
    rw [hd] at named
    refine named.congr fun tail => ?_
    rw [opened, hd, wordBefore.eq_def, take_feed run]
    rfl
  | cons c rest =>
    rw [hd] at named
    have terminated := Settles.ite (c := atTerminator (c :: rest) = false)
      (fun _ => .fail feed (.badCharacter c)) fun _ => named
    refine terminated.congr fun tail => ?_
    have terminator := atTerminator_feed (c :: rest) tail
    rw [opened, hd, wordBefore.eq_def, take_feed run, ← terminator]
    rfl

/-- A quoted text ends within its line or not at all. -/
theorem quotedLength?_line {quote : Char} (hq : quote ≠ '\\') (text tail : List Char) :
    quotedLength? quote (text ++ '\n' :: tail) = quotedLength? quote (text ++ ['\n']) ∧
      ∀ length, quotedLength? quote (text ++ '\n' :: tail) = some length →
        length ≤ text.length := by
  induction text using quotedLength?.induct quote with
  | case1 | case2 | case3 =>
    refine ⟨rfl, ?_⟩
    rintro _ ⟨⟩
  | case4 c rest hc ih =>
    obtain ⟨same, bound⟩ := ih
    simp only [List.cons_append]
    rw [quotedLength?, quotedLength?, if_neg hc, if_neg hc, same]
    refine ⟨rfl, fun length hl => ?_⟩
    obtain ⟨inner, hi, rfl⟩ := Option.map_eq_some_iff.1 hl
    have := bound inner (same.trans hi)
    rw [List.length_cons, List.length_cons]
    omega
  | case5 rest feed escape =>
    have closes (more : List Char) : quotedLength? quote (quote :: (rest ++ more)) = some 1 := by
      rw [quotedLength?.eq_4 quote quote _ feed fun _ _ e _ => hq e, if_pos rfl]
    rw [List.cons_append, List.cons_append, closes, closes]
    refine ⟨rfl, ?_⟩
    rintro _ ⟨⟩
    exact Nat.le_add_left 1 _
  | case6 c rest feed escape hc ih =>
    obtain ⟨same, bound⟩ := ih
    by_cases backslash : c = '\\'
    · -- Behind a backslash that ends the line there is only the line feed.
      cases rest with
      | nil =>
        subst backslash
        refine ⟨rfl, ?_⟩
        rintro _ ⟨⟩
      | cons d rest => exact (escape d rest backslash rfl).elim
    · have goes_on (more : List Char) : quotedLength? quote (c :: (rest ++ more))
          = (quotedLength? quote (rest ++ more)).map (· + 1) := by
        rw [quotedLength?.eq_4 quote c _ feed fun _ _ e _ => backslash e, if_neg hc]
      rw [List.cons_append, List.cons_append, goes_on, goes_on, same]
      refine ⟨rfl, fun length hl => ?_⟩
      obtain ⟨inner, hi, rfl⟩ := Option.map_eq_some_iff.1 hl
      have := bound inner (same.trans hi)
      rw [List.length_cons]
      omega

variable {c : Char}

theorem quoted_settles {quote : Char} (hq : quote ≠ '\\') (feed : '\n' ∉ c :: rest) :
    Settles (c :: rest).length fun tail => quoted quote (c :: rest ++ tail) := by
  have line (tail : List Char) := quotedLength?_line hq rest tail
  have opened (tail : List Char) : quoted quote (c :: rest ++ '\n' :: tail)
      = quotation (c :: rest ++ '\n' :: tail) (quotedLength? quote (rest ++ ['\n'])) := by
    rw [quoted_eq, ← (line tail).1]
    rfl
  cases hl : quotedLength? quote (rest ++ ['\n']) with
  | some length =>
    have bound := (line []).2 length hl
    have string : Settles (c :: rest).length fun _ => Lexeme.token .string (1 + length) :=
      .token .string (by rw [List.length_cons]; omega)
    refine string.congr fun tail => ?_
    rw [opened, hl]
    rfl
  | none =>
    refine (Settles.fail feed .unterminatedString).congr fun tail => ?_
    rw [opened, hl]
    rfl

/-! ## § Lexemes -/

theorem signed_settles (feed : '\n' ∉ c :: rest) (previous : Option Char) :
    Settles (c :: rest).length fun tail =>
      signed v previous (c :: rest ++ tail) (rest ++ tail) := by
  have sign := Settles.ite (c := signOperates v previous rest = true)
    (fun _ => operator_settles (v := v) feed (Nat.le_add_left 1 _))
    fun _ => number_settles (v := v) feed
  refine sign.congr fun tail => ?_
  rw [signed_eq, signOperates_feed]

/-- **A line feed settles the lexeme before it**, unless that is raw text. -/
theorem ofText_settles (hc : c ≠ Text.Quoted.backquote) (feed : '\n' ∉ c :: rest)
    (v : Vocabulary) (previous : Option Char) :
    Settles (c :: rest).length fun tail => ofText v previous c (rest ++ tail) := by
  have single (kind : TokenKind) : Settles (c :: rest).length fun _ => Lexeme.token kind 1 :=
    .token kind (Nat.le_add_left 1 _)
  cases ofText_begins c with
  | feed _ cut => exact (single .newline).congr fun tail => cut v previous _
  | semicolon _ cut => exact (single .semicolon).congr fun tail => cut v previous _
  | comment _ cut =>
    refine ⟨_, .comment, fun tail => (cut v previous _).trans ?_⟩
    exact congrArg Lexeme.comment (lineLength_feed feed tail).2
  | quote quote cut =>
    refine (quoted_settles ?_ feed).congr fun tail => cut v previous _
    rcases quote with rfl | rfl <;> decide
  | backquote raw => exact absurd raw hc
  | sign _ cut => exact (signed_settles feed previous).congr fun tail => cut v previous _
  | numeral _ _ cut => exact (number_settles feed).congr fun tail => cut v previous _
  | equals _ cut =>
    have two (starts : startsWith '=' rest = true) : 2 ≤ (c :: rest).length := by
      cases rest with
      | nil => exact nomatch starts
      | cons => simp
    have equals := Settles.ite (c := startsWith '=' rest = true)
      (fun starts => operator_settles (v := v) feed (two starts)) fun _ => single .assign
    refine equals.congr fun tail => (cut v previous _).trans ?_
    rw [startsWith_feed (by decide)]
    rfl
  | letter _ _ cut => exact (word_settles feed).congr fun tail => cut v previous _
  | special _ cut other =>
    have same (tail : List Char) := symbolLength?_feed c rest tail
    cases hs : symbolLength? c rest with
    | some length =>
      refine (operator_settles (v := v) feed (symbolLength?_le hs).2).congr fun tail => ?_
      exact cut v previous _ _ ((same tail).trans hs)
    | none =>
      have alone (tail : List Char) := other v previous _ ((same tail).trans hs)
      rcases single_cases c with ⟨kind, -, -, token⟩ | fails
      · exact (single kind).congr fun tail => (alone tail).trans (token _)
      · exact (Settles.fail feed _).congr fun tail => (alone tail).trans (fails _)

/-! ## § Dropped text -/

/-- An error drops its line or, in raw text, all that is left. -/
def Drops (text : List Char) : Lexeme → Prop
  | .bad _ length => length = lineLength text ∨ length = text.length
  | _ => True

theorem operator_drops (v : Vocabulary) (text : List Char) (length : Nat) :
    (operator v text length).Drops text := by
  unfold operator combiner fail
  dsimp only
  repeat' split
  all_goals first | trivial | exact .inl rfl

theorem number_drops (v : Vocabulary) (text : List Char) : (number v text).Drops text := by
  have token (length : Nat) : (numberToken v text length).Drops text := by
    unfold numberToken
    dsimp only
    repeat' split
    all_goals trivial
  have signed (sign : Nat) : (signedNumber v text sign).Drops text := by
    unfold signedNumber badNumber fail
    dsimp only
    repeat' split
    all_goals first | exact token _ | exact .inl rfl
  unfold number
  repeat' split
  all_goals first | exact signed _ | exact operator_drops _ _ _ | trivial

theorem word_drops (v : Vocabulary) (text : List Char) : (word v text).Drops text := by
  have named (chars : List Char) (name : String) (tail : List Char) (length : Nat) :
      (word.named v text chars name tail length).Drops text := by
    unfold word.named
    repeat' split
    all_goals first | exact operator_drops _ _ _ | exact number_drops _ _ | trivial
  unfold word fail
  dsimp only
  repeat' split
  all_goals first | exact named _ _ _ _ | exact .inl rfl

theorem quoted_drops (quote : Char) (text : List Char) : (quoted quote text).Drops text := by
  unfold quoted fail
  split
  · trivial
  · exact .inl rfl

theorem raw_drops (text : List Char) : (raw text).Drops text := by
  unfold raw
  dsimp only
  split
  · trivial
  · exact .inr rfl

theorem signed_drops (v : Vocabulary) (previous : Option Char) (text rest : List Char) :
    (signed v previous text rest).Drops text := by
  rw [signed_eq]
  split
  · exact operator_drops _ _ _
  · exact number_drops _ _

theorem ofText_drops (v : Vocabulary) (previous : Option Char) (c : Char) (rest : List Char) :
    (ofText v previous c rest).Drops (c :: rest) := by
  cases ofText_begins c with
  | feed _ cut | semicolon _ cut | comment _ cut =>
    rw [cut]
    trivial
  | quote _ cut =>
    rw [cut]
    exact quoted_drops _ _
  | backquote _ cut =>
    rw [cut]
    exact raw_drops _
  | sign _ cut =>
    rw [cut]
    exact signed_drops _ _ _ _
  | numeral _ _ cut =>
    rw [cut]
    exact number_drops _ _
  | equals _ cut =>
    rw [cut]
    split
    · exact operator_drops _ _ _
    · trivial
  | letter _ _ cut =>
    rw [cut]
    exact word_drops _ _
  | special _ cut other =>
    cases hs : symbolLength? c rest with
    | some length =>
      rw [cut _ _ _ _ hs]
      exact operator_drops _ _ _
    | none =>
      rw [other _ _ _ hs]
      rcases single_cases c with ⟨kind, -, -, token⟩ | fails
      · rw [token]
        trivial
      · rw [fails]
        exact .inl rfl

theorem lineLength_pos (c : Char) (rest : List Char) : 0 < lineLength (c :: rest) := by
  unfold lineLength
  dsimp only
  split
  · exact Nat.succ_pos _
  next whole =>
    rw [List.length_cons] at whole
    omega

theorem lineLength_le (text : List Char) : lineLength text ≤ text.length := by
  unfold lineLength
  dsimp only
  split
  · assumption
  · exact runLength_le _ _

/-- Every lexeme takes something. -/
theorem ofText_pos (v : Vocabulary) (previous : Option Char) (c : Char) (rest : List Char) :
    0 < (ofText v previous c rest).length := by
  cases hl : ofText v previous c rest with
  | token kind n => exact (ofText_feed hl []).2.1
  | comment n =>
    rw [(ofText_comment hl).2]
    exact lineLength_pos c rest
  | bad cause n =>
    have drops := ofText_drops v previous c rest
    rw [hl] at drops
    rcases drops with rfl | rfl
    · exact lineLength_pos c rest
    · exact Nat.succ_pos _

end ArrayCalc.Lexeme
