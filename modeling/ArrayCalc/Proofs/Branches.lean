import ArrayCalc.Token.Scanner

/-!
# The branches of the scanner

The first character of a lexeme tells what is cut from a text.  The vocabulary, the character before
and the text behind are given to the part of the scanner that cuts it, and only two kinds of
characters ask for more at once: an equals sign for another one behind it, and a special character
for the length of its operator.  A word is taken by its name, where the text behind it matters only
to end it and for the point of an outer product.
-/

namespace ArrayCalc.Lexeme

variable {c : Char} {rest : List Char} {kind : TokenKind}

/-- What a lexeme in the head of a definition may be. -/
def IsName (kind : TokenKind) : Prop := kind = .identifier ∨ kind = .operator

/-! ## § Special characters -/

/-- No word starts with a special character. -/
theorem symbolLength?_of_isWordChar (h : Text.isWordChar c = true) :
    symbolLength? c rest = none := by
  have single : singleOperators.contains c = false := by
    refine Bool.eq_false_iff.2 fun hm => ?_
    have special : singleOperators.all (fun d => !Text.isWordChar d) = true := by decide
    have := List.all_eq_true.1 special c (List.contains_iff_mem.1 hm)
    rw [h] at this
    exact nomatch this
  have tails : operatorTails c = [] := by
    unfold operatorTails
    split
    case h_6 => rfl
    all_goals exact absurd h (by decide)
  unfold symbolLength?
  rw [single, tails]
  rfl

/-- The lexeme of a bracket, or of a character that nothing starts with. -/
def single (text : List Char) (c : Char) : Lexeme :=
  match bracket? c with
  | some kind => .token kind 1
  | none => if Text.isAscii c then .token .char 1 else fail text (.unrecognized c)

theorem bracket?_kind (h : bracket? c = some kind) : ¬IsName kind ∧ kind.isLineEnd = false := by
  unfold bracket? at h
  split at h
  case h_6 => exact nomatch h
  all_goals
    obtain rfl := Option.some.inj h
    exact ⟨fun name => name.elim nofun nofun, rfl⟩

/-- Such a character is a token by itself, or an error. -/
theorem single_cases (c : Char) :
    (∃ kind, ¬IsName kind ∧ kind.isLineEnd = false ∧ ∀ text, single text c = .token kind 1) ∨
      ∀ text, single text c = fail text (.unrecognized c) := by
  unfold single
  cases hb : bracket? c with
  | some kind =>
    obtain ⟨no_name, inner⟩ := bracket?_kind hb
    exact .inl ⟨kind, no_name, inner, fun _ => rfl⟩
  | none =>
    by_cases ascii : Text.isAscii c = true
    · exact .inl ⟨.char, fun name => name.elim nofun nofun, rfl, fun _ => if_pos ascii⟩
    · exact .inr fun _ => if_neg ascii

/-! ## § First characters -/

/-- What a character begins, and how it is cut. -/
inductive Begins (c : Char) : Prop
  | feed (hc : c = '\n') (cut : ∀ v p rest, ofText v p c rest = .token .newline 1)
  | semicolon (hc : c = ';') (cut : ∀ v p rest, ofText v p c rest = .token .semicolon 1)
  | comment (hc : c = '#') (cut : ∀ v p rest, ofText v p c rest = .comment (lineLength (c :: rest)))
  | quote (hc : c = '\'' ∨ c = '"') (cut : ∀ v p rest, ofText v p c rest = quoted c (c :: rest))
  | backquote (hc : c = Text.Quoted.backquote) (cut : ∀ v p rest, ofText v p c rest = raw (c :: rest))
  | sign (hc : c = '+' ∨ c = '-') (cut : ∀ v p rest, ofText v p c rest = signed v p (c :: rest) rest)
  | numeral (hc : c = '.' ∨ Text.isAsciiDigit c = true) (unsigned : ¬(c = '+' ∨ c = '-'))
    (cut : ∀ v p rest, ofText v p c rest = number v (c :: rest))
  | equals (hc : c = '=') (cut : ∀ v p rest, ofText v p c rest =
      if startsWith '=' rest then operator v (c :: rest) 2 else .token .assign 1)
  | letter (hc : Text.isWordChar c = true)
    (no_number : ¬(c = '+' ∨ c = '-') ∧ Text.isAsciiDigit c = false)
    (cut : ∀ v p rest, ofText v p c rest = word v (c :: rest))
  | special (hc : Text.isWordChar c = false)
    (cut : ∀ v p rest length, symbolLength? c rest = some length →
      ofText v p c rest = operator v (c :: rest) length)
    (other : ∀ v p rest, symbolLength? c rest = none → ofText v p c rest = single (c :: rest) c)

/-- **Every character begins what one branch of the scanner cuts.** -/
theorem ofText_begins (c : Char) : Begins c := by
  by_cases feed : c = '\n'
  · exact .feed feed fun v p rest => by simp only [ofText, if_pos feed]
  by_cases semicolon : c = ';'
  · exact .semicolon semicolon fun v p rest => by simp only [ofText, if_neg feed, if_pos semicolon]
  by_cases comment : c = '#'
  · exact .comment comment fun v p rest => by
      simp only [ofText, if_neg feed, if_neg semicolon, if_pos comment]
  by_cases quote : c = '\'' ∨ c = '"'
  · exact .quote quote fun v p rest => by
      simp only [ofText, if_neg feed, if_neg semicolon, if_neg comment, if_pos quote]
  by_cases raw : c = Text.Quoted.backquote
  · exact .backquote raw fun v p rest => by
      simp only [ofText, if_neg feed, if_neg semicolon, if_neg comment, if_neg quote, if_pos raw]
  by_cases sign : c = '+' ∨ c = '-'
  · exact .sign sign fun v p rest => by
      simp only [ofText, if_neg feed, if_neg semicolon, if_neg comment, if_neg quote, if_neg raw,
        if_pos sign]
  by_cases numeral : c = '.' ∨ Text.isAsciiDigit c = true
  · exact .numeral numeral sign fun v p rest => by
      simp only [ofText, if_neg feed, if_neg semicolon, if_neg comment, if_neg quote, if_neg raw,
        if_neg sign, if_pos numeral]
  by_cases equals : c = '='
  · exact .equals equals fun v p rest => by
      simp only [ofText, if_neg feed, if_neg semicolon, if_neg comment, if_neg quote, if_neg raw,
        if_neg sign, if_neg numeral, if_pos equals]
  have no_digit : Text.isAsciiDigit c = false :=
    Bool.eq_false_iff.2 fun digit => numeral (.inr digit)
  by_cases letter : Text.isWordChar c = true
  · refine .letter letter ⟨sign, no_digit⟩ fun v p rest => ?_
    simp only [ofText, if_neg feed, if_neg semicolon, if_neg comment, if_neg quote, if_neg raw,
      if_neg sign, if_neg numeral, if_neg equals, symbolLength?_of_isWordChar letter, if_pos letter]
  -- A special character may be part of an operator, if the text behind it allows for it.
  refine .special (Bool.eq_false_iff.2 letter) (fun v p rest length hs => ?_)
    fun v p rest hs => ?_
  · simp only [ofText, if_neg feed, if_neg semicolon, if_neg comment, if_neg quote, if_neg raw,
      if_neg sign, if_neg numeral, if_neg equals, hs]
  · simp only [ofText, if_neg feed, if_neg semicolon, if_neg comment, if_neg quote, if_neg raw,
      if_neg sign, if_neg numeral, if_neg equals, hs, if_neg letter]
    rfl

/-! ## § Signs -/

/-- Whether a sign is an operator by what is around it: it stands behind an operand, or within a
line before a point that starts no number. -/
def signOperates (v : Vocabulary) (previous : Option Char) (rest : List Char) : Bool :=
  previous.any fun c =>
    endsOperand c || (startsWith '.' rest && !(rest.drop 1).head?.any v.isNumeral)

variable {v : Vocabulary} {text : List Char}

theorem signed_eq (previous : Option Char) : signed v previous text rest =
    if signOperates v previous rest then operator v text 1 else number v text := by
  cases previous <;> rfl

theorem signed_number {p : Char} (before : endsOperand p = false)
    (no_point : startsWith '.' rest = false) : signed v (some p) text rest = number v text := by
  rw [signed, before, no_point]
  rfl

/-! ## § Words -/

variable {chars behind : List Char} {name : String} {length n : Nat}

/-- A word is a token if it ends where a word may end, and then its name decides. -/
theorem word_token : word v text = .token kind n ↔
    atTerminator (text.drop (runLength Text.isWordChar text)) = true ∧
      word.named v text (text.take (runLength Text.isWordChar text))
        (String.ofList (text.take (runLength Text.isWordChar text)))
        (text.drop (runLength Text.isWordChar text)) (runLength Text.isWordChar text)
          = .token kind n := by
  unfold word
  dsimp only
  cases text.drop (runLength Text.isWordChar text) with
  | nil => exact (and_iff_right rfl).symm
  | cons c rest =>
    dsimp only
    cases atTerminator (c :: rest) with
    | false => exact ⟨nofun, fun h => nomatch h.1⟩
    | true => exact (and_iff_right rfl).symm

/-- What a word is by its name.  Only for the word `o` the text behind it matters. -/
inductive Called (v : Vocabulary) (chars : List Char) (name : String) (behind : List Char) : Prop
  | keyword (is_op : name = "op")
  | outer (is_o : name = "o") (point : startsWith '.' behind = true)
  | single (is_o : name = "o") (no_point : startsWith '.' behind = false)
  | operator (own : name ≠ "op" ∧ name ≠ "o") (known : v.isOperator name = true)
  | digits (own : name ≠ "op" ∧ name ≠ "o") (unknown : v.isOperator name = false)
    (all : Radix.isAllDigits chars v.inputBase = true)
  | name (own : name ≠ "op" ∧ name ≠ "o") (unknown : v.isOperator name = false)
    (other : Radix.isAllDigits chars v.inputBase = false)

/-- **Every word is called one of these.** -/
theorem called (v : Vocabulary) (chars : List Char) (name : String) (behind : List Char) :
    Called v chars name behind := by
  by_cases is_op : name = "op"
  · exact .keyword is_op
  by_cases is_o : name = "o"
  · cases point : startsWith '.' behind with
    | true => exact .outer is_o point
    | false => exact .single is_o point
  cases known : v.isOperator name with
  | true => exact .operator ⟨is_op, is_o⟩ known
  | false =>
    cases all : Radix.isAllDigits chars v.inputBase with
    | true => exact .digits ⟨is_op, is_o⟩ known all
    | false => exact .name ⟨is_op, is_o⟩ known all

theorem named_keyword (is_op : name = "op") :
    word.named v text chars name behind length = .token .opKeyword length :=
  if_pos is_op

theorem named_outer (is_o : name = "o") (point : startsWith '.' behind = true) :
    word.named v text chars name behind length = operator v text length := by
  rw [word.named, is_o, if_neg (by decide), if_pos rfl, if_pos point]

theorem named_single (is_o : name = "o") (no_point : startsWith '.' behind = false) :
    word.named v text chars name behind length = .token .identifier length := by
  rw [word.named, is_o, if_neg (by decide), if_pos rfl, no_point, if_neg (by decide)]

theorem named_operator (own : name ≠ "op" ∧ name ≠ "o") (known : v.isOperator name = true) :
    word.named v text chars name behind length = operator v text length := by
  rw [word.named, if_neg own.1, if_neg own.2, if_pos known]

theorem named_digits (own : name ≠ "op" ∧ name ≠ "o") (unknown : v.isOperator name = false)
    (all : Radix.isAllDigits chars v.inputBase = true) :
    word.named v text chars name behind length = number v text := by
  rw [word.named, if_neg own.1, if_neg own.2, unknown, if_neg (by decide), if_pos all]

theorem named_name (own : name ≠ "op" ∧ name ≠ "o") (unknown : v.isOperator name = false)
    (other : Radix.isAllDigits chars v.inputBase = false) :
    word.named v text chars name behind length = .token .identifier length := by
  rw [word.named, if_neg own.1, if_neg own.2, unknown, if_neg (by decide), other,
    if_neg (by decide)]

end ArrayCalc.Lexeme
