import ArrayCalc.Proofs.LineEnds

/-!
# Lexemes in a narrower vocabulary

What an operator token is made of must be in the vocabulary, but nothing else that is in it matters
to the lexeme.  So a vocabulary that has lost some words still cuts the same lexeme, as long as the
operators that the token names are left.

The head of a definition is different: there an operator may have become a name.
-/

namespace ArrayCalc

/-- A vocabulary `w` that has lost words of `v`, but none that is known. -/
structure Vocabulary.Narrows (known : Signature → Prop) (v w : Vocabulary) : Prop where
  inputBase : w.inputBase = v.inputBase
  unary : ∀ name, w.isUnary name = true → v.isUnary name = true
  binary : ∀ name, w.isBinary name = true → v.isBinary name = true
  kept_unary : ∀ name, v.isOperator name = true → known ⟨name, .unary⟩ → w.isUnary name = true
  kept_binary : ∀ name, v.isOperator name = true → known ⟨name, .binary⟩ → w.isBinary name = true

namespace OperatorWord

/-- Whether all operators that a word names where it is applied are known. -/
def Usable (known : Signature → Prop) (word : String) : Prop :=
  ∃ arity, ∀ s ∈ needs word arity, known s

variable {known : Signature → Prop} {word left right : List Char}

theorem needs_of_plain (hp : Plain word) (arity : Arity) :
    needs (String.ofList word) arity = [⟨String.ofList word, arity⟩] := by
  have : isProduct (String.ofList word) = false :=
    Bool.eq_false_iff.2 fun h => hp.no_point ((isProduct_ofList word).1 h)
  unfold needs
  rw [this, hp.no_mark]
  cases arity <;> rfl

theorem usable_plain (hp : Plain word) (h : Usable known (String.ofList word)) :
    ∃ arity, known ⟨String.ofList word, arity⟩ := by
  obtain ⟨arity, h⟩ := h
  rw [needs_of_plain hp] at h
  exact ⟨arity, h _ List.mem_cons_self⟩

/-- A fold is the name of no operator, so what is known is its base. -/
theorem usable_fold (marks : ∀ s, known s → splitMark? s.name = none) (hp : Plain word)
    (hne : word ≠ []) {mark : Char} (hm : mark = '/' ∨ mark = '\\')
    (h : Usable known (String.ofList (word ++ [mark]))) : known ⟨String.ofList word, .binary⟩ := by
  obtain ⟨arity, h⟩ := h
  have no_point : isProduct (String.ofList (word ++ [mark])) = false := by
    refine Bool.eq_false_iff.2 fun h => ?_
    rcases List.mem_append.1 ((isProduct_ofList _).1 h) with h | h
    · exact hp.no_point h
    · obtain rfl := List.mem_singleton.1 h
      rcases hm with h | h <;> exact absurd h (by decide)
  have split := splitMark?_ofList_append word mark
  rw [if_pos ⟨hne, hm⟩] at split
  unfold needs at h
  rw [no_point, split] at h
  cases arity with
  | unary => exact h _ List.mem_cons_self
  | binary =>
    have := marks _ (h _ List.mem_cons_self)
    rw [split] at this
    exact nomatch this

theorem usable_product (hl : Plain left) (hr : Plain right)
    (h : Usable known (String.ofList (left ++ '.' :: right))) :
    (String.ofList left = "o" ∨ known ⟨String.ofList left, .binary⟩) ∧
      known ⟨String.ofList right, .binary⟩ := by
  obtain ⟨arity, h⟩ := h
  have product : isProduct (String.ofList (left ++ '.' :: right)) = true :=
    (isProduct_ofList _).2 (by simp)
  have parts : operators (String.ofList (left ++ '.' :: right))
      = [String.ofList left, String.ofList right] := by
    rw [operators, String.toList_ofList, splitPoints_append hl.no_point,
      splitPoints_eq_singleton hr.no_point]
    rfl
  unfold needs at h
  rw [if_pos product, parts] at h
  refine ⟨?_, h _ (mem_partNeeds_pair.2 (.inr rfl))⟩
  by_cases ho : String.ofList left = "o"
  · exact .inl ho
  · exact .inr (h _ (mem_partNeeds_pair.2 (.inl ⟨ho, rfl⟩)))

end OperatorWord

namespace Lexeme

open OperatorWord (Plain Usable)

variable {known : Signature → Prop} {v w : Vocabulary} {text rest : List Char} {n length : Nat}
  {kind : TokenKind}

theorem isOperator_of_isBinary {name : String} (h : v.isBinary name = true) :
    v.isOperator name = true := by
  rw [Vocabulary.isOperator, h, Bool.or_true]

theorem not_isOperator_of_narrows (hn : v.Narrows known w) {name : String}
    (unknown : v.isOperator name = false) : w.isOperator name = false := by
  refine Bool.eq_false_iff.2 fun h => Bool.eq_false_iff.1 unknown ?_
  rw [Vocabulary.isOperator, Bool.or_eq_true] at h ⊢
  exact h.imp (hn.unary name) (hn.binary name)

/-! ## § Operators -/

theorem combiner_narrow (h : combiner v text length rest = .token kind n)
    (hw : ∀ count, n = length + count → w.isBinary (String.ofList (rest.take count)) = true) :
    combiner w text length rest = .token kind n := by
  have accept {count : Nat}
      (ha : (if v.isBinary (String.ofList (rest.take count)) then
          Lexeme.token .operator (length + count)
        else fail text (.notAnOperator (String.ofList (rest.take count)))) = .token kind n) :
      (if w.isBinary (String.ofList (rest.take count)) then
          Lexeme.token .operator (length + count)
        else fail text (.notAnOperator (String.ofList (rest.take count)))) = .token kind n := by
    split at ha
    next hb =>
      injection ha with hk hn
      rw [if_pos (hw count hn.symm), hk, hn]
    next => exact absurd ha (fail_ne_token _ _ _ _)
  unfold combiner at h ⊢
  dsimp only at h ⊢
  split at h
  next => exact absurd h (fail_ne_token _ _ _ _)
  next c tail =>
    split at h
    next => exact accept h
    next =>
      split at h
      next hc =>
        rw [if_pos hc]
        split at h
        next =>
          split at h
          next ht =>
            rw [if_pos ht]
            exact accept h
          next => exact absurd h (fail_ne_token _ _ _ _)
        next => exact accept h
      next => exact absurd h (fail_ne_token _ _ _ _)

/-- An operator lexeme names only what it is made of. -/
theorem operator_narrow (hn : v.Narrows known w)
    (marks : ∀ s, known s → OperatorWord.splitMark? s.name = none)
    (hp : Plain (text.take length)) (hne : text.take length ≠ [])
    (h : operator v text length = .token kind n)
    (hu : Usable known (String.ofList (text.take n))) :
    operator w text length = .token kind n := by
  unfold operator at h ⊢
  dsimp only at h ⊢
  by_cases hb : String.ofList (text.take length) = "o" ∨
      v.isBinary (String.ofList (text.take length)) = true
  · rw [if_pos hb] at h
    have kept (hk : String.ofList (text.take length) = "o" ∨
        known ⟨String.ofList (text.take length), .binary⟩) :
        String.ofList (text.take length) = "o" ∨
          w.isBinary (String.ofList (text.take length)) = true := by
      rcases hb with hb | hb
      · exact .inl hb
      · exact hk.imp_right (hn.kept_binary _ (isOperator_of_isBinary hb))
    have fold {mark : Char} {tail : List Char} (hm : mark = '/' ∨ mark = '\\')
        (hd : text.drop length = mark :: tail)
        (ht : Lexeme.token .operator (length + 1) = .token kind n) :
        String.ofList (text.take length) = "o" ∨
          w.isBinary (String.ofList (text.take length)) = true := by
      injection ht with _ hlen
      rw [← hlen, List.take_add, hd, List.take_succ_cons, List.take_zero] at hu
      exact kept (.inr (OperatorWord.usable_fold marks hp hne hm hu))
    split at h
    next hd =>
      rw [if_pos (fold (.inl rfl) hd h)]
      exact h
    next hd =>
      rw [if_pos (fold (.inr rfl) hd h)]
      exact h
    next tail hd =>
      split at h
      next digit =>
        rw [if_pos digit]
        simpa using h
      next digit =>
        obtain ⟨-, count, rfl, -, plain, hc⟩ := combiner_inv h
        rw [Nat.add_assoc, Nat.add_comm 1, List.take_add, hd, List.take_succ_cons] at hu
        obtain ⟨hl, hr⟩ := OperatorWord.usable_product hp plain hu
        rw [if_pos (kept hl)]
        rw [if_neg digit]
        refine combiner_narrow h fun count' e => ?_
        obtain rfl : count' = count := by omega
        exact hn.kept_binary _ (isOperator_of_isBinary hc) hr
    next slash backslash point =>
      split <;> exact h
  · rw [if_neg hb] at h
    rw [if_neg]
    · exact h
    · exact fun hw => hb (hw.imp_right (hn.binary _))

/-! ## § Numbers -/

theorem realLength_congr (h : w.inputBase = v.inputBase) (slash imaginary : Bool)
    (text : List Char) : realLength w slash imaginary text = realLength v slash imaginary text := by
  unfold realLength numberDigits Vocabulary.digits
  rw [h]

theorem startsNumber_congr (h : w.inputBase = v.inputBase) (text : List Char) :
    startsNumber w text = startsNumber v text := by
  unfold startsNumber Vocabulary.isNumeral Vocabulary.digits
  rw [h]

theorem quotientLength_congr (h : w.inputBase = v.inputBase) (imaginary : Bool)
    (text : List Char) : quotientLength w imaginary text = quotientLength v imaginary text := by
  unfold quotientLength
  simp only [realLength_congr h, startsNumber_congr h]

theorem signedNumber_congr (h : w.inputBase = v.inputBase) (text : List Char) (sign : Nat) :
    signedNumber w text sign = signedNumber v text sign := by
  unfold signedNumber numberToken Vocabulary.digits
  simp only [quotientLength_congr h, h]

theorem number_narrow (hn : v.Narrows known w)
    (marks : ∀ s, known s → OperatorWord.splitMark? s.name = none)
    (h : number v text = .token kind n)
    (hu : kind = .operator → Usable known (String.ofList (text.take n))) :
    number w text = .token kind n := by
  unfold number at h ⊢
  split at h
  next hs =>
    obtain ⟨c, rest, rfl, hc⟩ := exists_sign_of_signLength hs
    rw [if_pos hs]
    split at h
    next => exact h
    next => exact h
    next =>
      rw [startsNumber_congr hn.inputBase, signedNumber_congr hn.inputBase]
      split at h
      next starts => rwa [if_pos starts]
      next starts =>
        rw [if_neg starts]
        have hk := (operator_inv h).1
        exact operator_narrow hn marks (plain_sign hc) (List.cons_ne_nil _ _) h (hu hk)
  next hs =>
    rw [if_neg hs, signedNumber_congr hn.inputBase]
    exact h

/-! ## § Words -/

/-- An operator word is left if the operator that it is the first word of is used. -/
theorem isOperator_of_usable (hn : v.Narrows known w)
    (marks : ∀ s, known s → OperatorWord.splitMark? s.name = none)
    (hp : Plain (text.take length)) (hne : text.take length ≠ [])
    (ho : String.ofList (text.take length) ≠ "o")
    (hv : v.isOperator (String.ofList (text.take length)) = true)
    (h : operator v text length = .token kind n)
    (hu : Usable known (String.ofList (text.take n))) :
    w.isOperator (String.ofList (text.take length)) = true := by
  rw [Vocabulary.isOperator, Bool.or_eq_true]
  cases (operator_inv h).2 with
  | plain =>
    obtain ⟨arity, hk⟩ := OperatorWord.usable_plain hp hu
    cases arity with
    | unary => exact .inl (hn.kept_unary _ hv hk)
    | binary => exact .inr (hn.kept_binary _ hv hk)
  | fold hm hd =>
    rw [List.take_add, hd, List.take_succ_cons, List.take_zero] at hu
    exact .inr (hn.kept_binary _ hv (OperatorWord.usable_fold marks hp hne hm hu))
  | product hd _ _ plain =>
    rw [Nat.add_assoc, Nat.add_comm 1, List.take_add, hd, List.take_succ_cons] at hu
    exact .inr (hn.kept_binary _ hv ((OperatorWord.usable_product hp plain hu).1.resolve_left ho))

theorem word_narrow (hn : v.Narrows known w)
    (marks : ∀ s, known s → OperatorWord.splitMark? s.name = none) {c : Char}
    (hc : Text.isWordChar c = true) (h : word v (c :: rest) = .token kind n)
    (hu : kind = .operator → Usable known (String.ofList ((c :: rest).take n))) :
    word w (c :: rest) = .token kind n := by
  have plain := plain_run (c :: rest)
  have hne : (c :: rest).take (runLength Text.isWordChar (c :: rest)) ≠ [] := by
    rw [take_runLength, List.takeWhile_cons, if_pos hc]
    exact List.cons_ne_nil _ _
  rw [word_token] at h ⊢
  obtain ⟨ends, h⟩ := h
  refine ⟨ends, ?_⟩
  cases called v ((c :: rest).take (runLength Text.isWordChar (c :: rest))) _
      ((c :: rest).drop (runLength Text.isWordChar (c :: rest))) with
  | keyword is_op => rwa [named_keyword is_op] at h ⊢
  | outer is_o point =>
    rw [named_outer is_o point] at h ⊢
    exact operator_narrow hn marks plain hne h (hu (operator_inv h).1)
  | single is_o no_point => rwa [named_single is_o no_point] at h ⊢
  | operator own known =>
    rw [named_operator own known] at h
    have hu := hu (operator_inv h).1
    rw [named_operator own (isOperator_of_usable hn marks plain hne own.2 known h hu)]
    exact operator_narrow hn marks plain hne h hu
  | digits own unknown all =>
    rw [named_digits own unknown all] at h
    rw [named_digits own (not_isOperator_of_narrows hn unknown) (by rwa [hn.inputBase])]
    exact number_narrow hn marks h hu
  | name own unknown other =>
    rw [named_name own unknown other] at h
    rwa [named_name own (not_isOperator_of_narrows hn unknown) (by rwa [hn.inputBase])]

theorem signed_narrow (hn : v.Narrows known w)
    (marks : ∀ s, known s → OperatorWord.splitMark? s.name = none) {previous : Option Char}
    {c : Char} (hc : c = '+' ∨ c = '-')
    (h : signed v previous (c :: rest) rest = .token kind n)
    (hu : kind = .operator → Usable known (String.ofList ((c :: rest).take n))) :
    signed w previous (c :: rest) rest = .token kind n := by
  have same : signOperates w previous rest = signOperates v previous rest := by
    unfold signOperates Vocabulary.isNumeral Vocabulary.digits
    rw [hn.inputBase]
  rw [signed_eq] at h ⊢
  rw [same]
  split at h
  next operates =>
    rw [if_pos operates]
    exact operator_narrow hn marks (plain_sign hc) (List.cons_ne_nil _ _) h
      (hu (operator_inv h).1)
  next other =>
    rw [if_neg other]
    exact number_narrow hn marks h hu

theorem symbolLength?_pos {c : Char} (h : symbolLength? c rest = some length) :
    (c :: rest).take length ≠ [] := by
  obtain ⟨pos, -⟩ := symbolLength?_le h
  cases length with
  | zero => omega
  | succ => exact List.cons_ne_nil _ _

/-- **A lexeme needs only the operators that it names.** -/
theorem ofText_narrow (hn : v.Narrows known w)
    (marks : ∀ s, known s → OperatorWord.splitMark? s.name = none) {previous : Option Char}
    {c : Char} (h : ofText v previous c rest = .token kind n)
    (hu : kind = .operator → Usable known (String.ofList ((c :: rest).take n))) :
    ofText w previous c rest = .token kind n := by
  cases ofText_begins c with
  | feed _ cut | semicolon _ cut | comment _ cut | quote _ cut | backquote _ cut => rwa [cut] at h ⊢
  | sign hc cut =>
    rw [cut] at h ⊢
    exact signed_narrow hn marks hc h hu
  | numeral _ _ cut =>
    rw [cut] at h ⊢
    exact number_narrow hn marks h hu
  | equals hc cut =>
    rw [cut] at h ⊢
    subst hc
    by_cases hs : startsWith '=' rest = true
    · rw [if_pos hs] at h ⊢
      cases rest with
      | nil => exact nomatch hs
      | cons d rest =>
        obtain rfl : d = '=' := by simpa [startsWith] using hs
        exact operator_narrow hn marks (OperatorWord.plain_of_forall (by simp))
          (List.cons_ne_nil _ _) h (hu (operator_inv h).1)
    · rwa [if_neg hs] at h ⊢
  | letter hc _ cut =>
    rw [cut] at h ⊢
    exact word_narrow hn marks hc h hu
  | special _ cut other =>
    cases hs : symbolLength? c rest with
    | some length =>
      rw [cut _ _ _ _ hs] at h ⊢
      exact operator_narrow hn marks (plain_symbol hs) (symbolLength?_pos hs) h
        (hu (operator_inv h).1)
    | none => rwa [other _ _ _ hs] at h ⊢

/-! ## § Names -/

theorem word_name (hn : v.Narrows known w)
    (digits : ∀ name, name ≠ "o" → v.isOperator name = true → w.isOperator name = false →
      Radix.isAllDigits name.toList v.inputBase = false) {c : Char}
    (hsign : c ≠ '+' ∧ c ≠ '-') (h : word v (c :: rest) = .token kind n) (hk : IsName kind)
    (hi : Text.isIdentifier (String.ofList ((c :: rest).take n)) = true) :
    ∃ kind', IsName kind' ∧ word w (c :: rest) = .token kind' n := by
  obtain ⟨ends, h⟩ := word_token.1 h
  simp only [word_token, ends, true_and]
  cases called v ((c :: rest).take (runLength Text.isWordChar (c :: rest))) _
      ((c :: rest).drop (runLength Text.isWordChar (c :: rest))) with
  | keyword is_op =>
    rw [named_keyword is_op] at h
    obtain ⟨rfl, -⟩ := Lexeme.token.inj h
    exact hk.elim nofun nofun
  | outer is_o point =>
    rw [named_outer is_o point] at h ⊢
    obtain ⟨rfl, hw⟩ := operator_name hn.binary h hi
    exact ⟨_, .inr rfl, hw⟩
  | single is_o no_point =>
    rw [named_single is_o no_point] at h ⊢
    exact ⟨_, hk, h⟩
  | operator own known =>
    rw [named_operator own known] at h
    obtain ⟨rfl, hw⟩ := operator_name hn.binary h hi
    cases left : w.isOperator
        (String.ofList ((c :: rest).take (runLength Text.isWordChar (c :: rest)))) with
    | true =>
      rw [named_operator own left]
      exact ⟨_, .inr rfl, hw⟩
    | false =>
      have no_digits := digits _ own.2 known left
      rw [String.toList_ofList] at no_digits
      rw [named_name own left (by rwa [hn.inputBase])]
      exact ⟨_, .inl rfl, rfl⟩
  | digits own unknown all =>
    rw [named_digits own unknown all] at h
    exact absurd hk (not_isName_of_unsigned (signLength_unsigned (not_or.2 hsign)) h)
  | name own unknown other =>
    rw [named_name own unknown other] at h
    rw [named_name own (not_isOperator_of_narrows hn unknown) (by rwa [hn.inputBase])]
    exact ⟨_, hk, h⟩

/-- **A name stays a lexeme**, even if it was the word of an operator and is none any more. -/
theorem ofText_name (hn : v.Narrows known w)
    (digits : ∀ name, name ≠ "o" → v.isOperator name = true → w.isOperator name = false →
      Radix.isAllDigits name.toList v.inputBase = false) {previous : Option Char}
    {c : Char} (h : ofText v previous c rest = .token kind n) (hk : IsName kind)
    (hi : Text.isIdentifier (String.ofList ((c :: rest).take n)) = true) :
    ∃ kind', IsName kind' ∧ ofText w previous c rest = .token kind' n := by
  have other (d : Char) (hd : Text.isWordChar d = false) : c ≠ d := by
    rintro rfl
    rw [isWordChar_of_isIdentifier hi (mem_take_of_isIdentifier hi)] at hd
    exact nomatch hd
  rw [ofText_of_isIdentifier hi] at h ⊢
  exact word_name hn digits ⟨other '+' (by decide), other '-' (by decide)⟩ h hk hi

end Lexeme

end ArrayCalc
