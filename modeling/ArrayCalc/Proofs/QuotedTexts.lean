import ArrayCalc.Proofs.DigitRuns
import ArrayCalc.Proofs.Pieces
import ArrayCalc.Proofs.PrintedLines
import ArrayCalc.Proofs.WrittenTokens

/-!
# Quoted texts

Three readers go along a quoted text, each with steps of its own: the scanner takes a backslash
together with the character behind it, and stops at a quote or at the end of the line; decoding takes
escapes, which may be longer; and before all that carriage returns are dropped from a source.  They
stay in step with what is written for each code point, which is a character that means itself or a
backslash with a letter, and perhaps digits.  So a quoted text is a token by itself, and stands for
what has been quoted.
-/

namespace ArrayCalc

/-! ## § One code point after the other -/

namespace Text.Quoted

/-- A character that means itself between single quotes. -/
structure Bare (c : Char) : Prop where
  backslash : c ≠ '\\'
  quote : c ≠ '\''
  feed : c ≠ '\n'
  ret : c ≠ '\r'

/-- A letter and digits that name a code point behind a backslash, whatever follows. -/
structure Names (c : CodePoint) (letter : Char) (digits : List Char) : Prop where
  feed : letter ≠ '\n'
  ret : letter ≠ '\r'
  bare : ∀ d ∈ digits, Bare d
  read : ∀ tail, escape (letter :: (digits ++ tail)) = .ok (c, 1 + digits.length)

/-- The digits of a surrogate. -/
theorem names_surrogate (code : Nat) (inside : 0xd800 ≤ code ∧ code < 0xe000) :
    Names (.surrogate code inside) 'u' (Radix.digitsOf 16 code) := by
  have run : Radix.Run 16 (Radix.digitsOf 16 code) := .digitsOf (by decide) (by decide) code
  have four : (Radix.digitsOf 16 code).length = 4 := by
    have places : Radix.places 16 code
        = [code % 16, code / 16 % 16, code / 16 / 16 % 16, code / 16 / 16 / 16] := by
      rw [Radix.places, if_neg (by omega), Radix.places, if_neg (by omega), Radix.places,
        if_neg (by omega), Radix.places, if_pos (by omega)]
    rw [Radix.digitsOf, places]
    rfl
  refine ⟨by decide, by decide, fun d hd => ?_, fun tail => ?_⟩
  · have other (c : Char)
        (strange : c ∉ Radix.decimalDigits ++ Radix.lowerLetters ++ Radix.upperLetters) : d ≠ c :=
      fun e => run.notMem strange (e ▸ hd)
    exact ⟨other _ (by decide), other _ (by decide), other _ (by decide), other _ (by decide)⟩
  · have hex : (Radix.digitsOf 16 code).all isHexDigit = true :=
      List.all_eq_true.2 fun c hc => List.contains_iff_mem.2 (run.digits c hc)
    have value : Radix.valueOf 16 (Radix.digitsOf 16 code) = code :=
      Radix.valueOf_digitsOf (by decide) (by decide) code
    have found : CodePoint.ofCode? code = some (.surrogate code inside) := by
      rw [CodePoint.ofCode?, dif_neg, dif_pos inside]
      intro valid
      rcases valid with low | ⟨high, -⟩ <;> omega
    have taken : (Radix.digitsOf 16 code ++ tail).take 4 = Radix.digitsOf 16 code :=
      List.take_left' four
    show (if ((Radix.digitsOf 16 code ++ tail).take 4).length ≠ 4 ∨ _ then _ else _) = _
    rw [taken, four, if_neg (by simp [hex]), value, found]

/-- A code point is written as an escape, or as a character that means itself. -/
theorem encodePoint_cases (c : CodePoint) :
    (∃ letter digits, encodePoint c = '\\' :: letter :: digits ∧ Names c letter digits) ∨
      ∃ d, c = .char d ∧ encodePoint c = [d] ∧ Bare d := by
  cases c with
  | surrogate code inside => exact .inl ⟨_, _, rfl, names_surrogate code inside⟩
  | char c =>
    have simple {letter : Char} (h : simpleEscape? letter = some c) (feed : letter ≠ '\n')
        (ret : letter ≠ '\r') : Names c letter [] := by
      refine ⟨feed, ret, fun _ hd => (nomatch hd), fun tail => ?_⟩
      show escape (letter :: tail) = _
      rw [escape, h]
      rfl
    unfold encodePoint
    dsimp only
    unfold encodeChar
    split
    case h_7 backslash quote feed tab ret null =>
      exact .inr ⟨c, rfl, rfl, backslash, quote, feed, ret⟩
    all_goals exact .inl ⟨_, _, rfl, simple rfl (by decide) (by decide)⟩

theorem quotedLength?_bare {text : List Char} (h : ∀ c ∈ text, Bare c) (tail : List Char) :
    Lexeme.quotedLength? '\'' (text ++ tail)
      = (Lexeme.quotedLength? '\'' tail).map (· + text.length) := by
  induction text with
  | nil => simp
  | cons c text ih =>
    obtain ⟨bare, rest⟩ := List.forall_mem_cons.1 h
    rw [List.cons_append,
      Lexeme.quotedLength?.eq_4 _ _ _ bare.feed fun _ _ h => absurd h bare.backslash,
      if_neg bare.quote, ih rest, Option.map_map]
    rfl

theorem quotedLength?_encoded (text : List CodePoint) (tail : List Char) :
    Lexeme.quotedLength? '\'' (text.flatMap encodePoint ++ '\'' :: tail)
      = some ((text.flatMap encodePoint).length + 1) := by
  induction text with
  | nil => rfl
  | cons c text ih =>
    rw [List.flatMap_cons, List.append_assoc, List.length_append]
    rcases encodePoint_cases c with ⟨letter, digits, code, names⟩ | ⟨d, -, code, bare⟩
    · rw [code, List.cons_append, List.cons_append, Lexeme.quotedLength?.eq_3, if_neg names.feed,
        quotedLength?_bare names.bare, ih, List.length_cons, List.length_cons]
      simp only [Option.map_some, Option.some.injEq]
      omega
    · rw [code, quotedLength?_bare (by simpa using bare), ih, Option.map_some, List.length_singleton]
      exact congrArg some (by omega)

theorem decodeBody_encoded (text : List CodePoint) :
    decodeBody (text.flatMap encodePoint) = .ok text := by
  induction text with
  | nil => simp [decodeBody]
  | cons c text ih =>
    rw [List.flatMap_cons]
    rcases encodePoint_cases c with ⟨letter, digits, code, names⟩ | ⟨d, rfl, code, bare⟩
    · rw [code, List.cons_append, List.cons_append, decodeBody, names.read]
      simp only [bind, Except.bind, Nat.add_comm 1, List.drop_succ_cons, List.drop_left]
      rw [ih]
      rfl
    · rw [code]
      simp only [List.cons_append, List.nil_append]
      rw [decodeBody.eq_3 _ _ fun h => absurd h bare.backslash, ih]
      rfl

/-- What is written is read back. -/
theorem decode_encode (text : List CodePoint) : decode (encode text) = .ok text := by
  have last : (text.flatMap encodePoint ++ ['\'']).getLast? = some '\'' := List.getLast?_concat
  unfold encode decode
  dsimp only [List.cons_append]
  rw [last, List.dropLast_concat]
  dsimp only
  rw [if_neg (by decide), if_neg (by decide)]
  exact decodeBody_encoded text

theorem encode_no_return (text : List CodePoint) : '\r' ∉ encode text := by
  have body : '\r' ∉ text.flatMap encodePoint := by
    intro hm
    obtain ⟨c, -, hc⟩ := List.mem_flatMap.1 hm
    rcases encodePoint_cases c with ⟨letter, digits, code, names⟩ | ⟨d, -, code, bare⟩
    · rw [code, List.mem_cons, List.mem_cons] at hc
      rcases hc with backslash | own | digit
      · exact absurd backslash (by decide)
      · exact names.ret own.symm
      · exact (names.bare _ digit).ret rfl
    · rw [code, List.mem_singleton] at hc
      exact bare.ret hc.symm
  unfold encode
  simp [body]

end Text.Quoted

theorem spelled_quoted (v : Vocabulary) (text : List CodePoint) :
    Spelled v .string (Text.Quoted.encode text) where
  cut := by
    refine ⟨'\'', text.flatMap Text.Quoted.encodePoint ++ ['\''], rfl, by decide, ?_⟩
    intro p d tail _ _
    show Lexeme.quoted '\'' _ = _
    rw [Lexeme.quoted_eq, List.append_assoc, List.drop_one, List.tail_cons, List.singleton_append,
      Text.Quoted.quotedLength?_encoded]
    simp [Lexeme.quotation, Text.Quoted.encode, Nat.add_comm]
  no_feed := Text.Quoted.encode_feed text
  no_return := Text.Quoted.encode_no_return text
  inner := rfl

/-! ## § Scanning a line -/

variable {v : Vocabulary} {x : List Char} {ts : List Token}

theorem Scanner.Cuts.results {s s' : Scanner} (h : s.Cuts v ts s') :
    s.results v = ts.map .ok ++ s'.results v := by
  induction h with
  | nil => rfl
  | cons h inner _ ih =>
    have before := beforeEnd_of_kind fun kind =>
      nomatch inner.symm.trans (congrArg TokenKind.isLineEnd kind)
    rw [results_inner before h, ih]
    rfl

/-- Scanning a text on a line of its own gives its tokens, the end of the line, and the end. -/
theorem Writes.results (h : Writes v x ts) (start : ¬SignedPoint (x ++ ['\n'])) :
    (Scanner.ofSource (x ++ ['\n'])).results v
      = ts.map .ok ++ [.ok ⟨.newline, "\n", 1⟩, .ok ⟨.endOfInput, "EOF", 2⟩] := by
  obtain ⟨s, cuts, feed⟩ := h.scanned start
  have line : Scanner.BeforeEnd (.ok ⟨.newline, "\n", 1⟩) := Scanner.beforeEnd_of_kind nofun
  have last : (⟨[], none, 1⟩ : Scanner).results v = [.ok ⟨.endOfInput, "EOF", 2⟩] :=
    Scanner.results_end rfl rfl
  rw [cuts.results, Scanner.results_inner line feed, last]

open Text.Quoted (encode decode)

/-- **Quoting is undone by scanning and decoding.**  The quoted form of a text has no end of a line
in it, whatever the text is.  On a line of its own it is one string token, and what the token stands
for is the text. -/
theorem Scanner.results_encode (v : Vocabulary) (text : List Char) :
    let quoted := encode (text.map .char)
    let token : Token := ⟨.string, String.ofList quoted, 1⟩
    ('\n' ∉ quoted ∧ '\r' ∉ quoted) ∧
      (ofSource (quoted ++ ['\n'])).results v
        = [.ok token, .ok ⟨.newline, "\n", 1⟩, .ok ⟨.endOfInput, "EOF", 2⟩] ∧
      decode token.text.toList = .ok (text.map .char) := by
  intro quoted token
  have spelled := spelled_quoted v (text.map .char)
  have start : ¬SignedPoint (quoted ++ ['\n']) := not_signedPoint_cons (by decide) _
  refine ⟨⟨spelled.no_feed, spelled.no_return⟩, (Writes.spelled spelled).results start, ?_⟩
  rw [String.toList_ofList]
  exact Text.Quoted.decode_encode (text.map .char)

end ArrayCalc
