import ArrayCalc.Proofs.PrintedDoubles
import ArrayCalc.Proofs.PrintedStatements
import ArrayCalc.Proofs.PureTrees
import ArrayCalc.Proofs.Resumption
import ArrayCalc.Proofs.Runs

/-!
# Literals that are evaluated again

The text of a literal, on a line of its own, is one statement, and a new session with the same
settings answers it with the literal.  The text does not depend on the base that numbers are read
in.  So in another base than ten, numbers have to be the same digit in both, and doubles are not read
at all.  No text is made for a vector without items, and the parts of a complex number and the
operand of `float` are read as exact numbers first, which loses infinite ones and those that are too
small.
-/

namespace ArrayCalc

open Grammar
open Lexeme (separators)
open Radix (Agrees)

/-- Numbers whose text stands for them in a base. -/
def Scalar.ReadsBack (base : Int) : Scalar → Prop
  | .int n => Agrees base n.toInt.natAbs
  | .rational q => Agrees base q.num.natAbs ∧ Agrees base q.den.natAbs
  | .float x => (base = 0 ∨ base = 10) ∧ (Double.magnitude x = .infinite ∨ Double.Readable x)
  | .complex z => (base = 0 ∨ base = 10) ∧ Double.Readable z.re ∧ Double.Readable z.im
  | .char _ => True

/-- Values whose text stands for them in a base. -/
def Value.ReadsBack (base : Int) : Value → Prop
  | .scalar s => s.ReadsBack base
  | .vector items => items ≠ []
  | .absent => False

variable {w : Workspace} {s : Scalar} {x : Float} {v : Value} {e : Expr} {t : Token}

/-! ## § The operator for doubles -/

theorem Primitive.toInexact_ok (h : Value.toFloat (.scalar s) = .ok x) :
    toInexact (.scalar s) = .ok (.float x) := by
  cases s with
  | complex | char => exact nomatch h
  | int | rational | float =>
    show (do return Scalar.float (← Value.toFloat _)) = _
    rw [h]
    rfl

/-- **A call of `float` gives the double that is nearest to its operand.** -/
theorem Evaluation.evaluateLine_float [Machine] (room : 2 ≤ Machine.calls)
    (h : Value.toFloat (.scalar s) = .ok x)
    (primitive : w.userOperator? .unary "float" = none) :
    (evaluateLine [.unary "float" (.constant s)]).run w = .ok [.scalar (.float x)] w := by
  have result : UnaryPrimitive.inexact.apply w.settings.origin w.dice (.scalar s)
      = (.ok (.scalar (.float x)), w.dice) := by
    have single : UnaryPrimitive.inexact.onSingle (.scalar s) = .ok (.float x) :=
      Primitive.toInexact_ok h
    unfold UnaryPrimitive.apply UnaryPrimitive.elementwise
    dsimp only
    rw [single]
    rfl
  have underived : OperatorWord.splitMark? "float" = none := by decide +kernel
  have known : UnaryPrimitive.ofName? "float" = some .inexact := by decide +kernel
  obtain ⟨depth, deep⟩ := Nat.exists_eq_add_of_le' room
  refine evaluateLine_single ?_ rfl nofun
  rw [evaluate, deep]
  exact run_unary underived primitive known result (constant_scalar (Nat.succ_pos depth) s w)

/-! ## § Signs -/

/-- A text that starts with a digit, or with a minus sign before one. -/
def StartsWithDigit (text : List Char) : Prop :=
  ∃ negative c rest, text = Lexeme.withSign negative (c :: rest) ∧ Text.isAsciiDigit c = true

namespace StartsWithDigit

variable {text : List Char}

theorem append (h : StartsWithDigit text) (tail : List Char) : StartsWithDigit (text ++ tail) := by
  obtain ⟨negative, c, rest, rfl, digit⟩ := h
  exact ⟨negative, c, rest ++ tail, by cases negative <;> rfl, digit⟩

theorem not_signedPoint (h : StartsWithDigit text) : ¬SignedPoint text := by
  obtain ⟨negative, c, rest, rfl, digit⟩ := h
  rintro ⟨sign, others, hs, eq⟩
  cases negative with
  | false =>
    obtain ⟨rfl, -⟩ := List.cons.inj eq
    rcases hs with rfl | rfl <;> exact absurd digit (by decide)
  | true =>
    obtain ⟨rfl, -⟩ := List.cons.inj (List.cons.inj eq).2
    exact absurd digit (by decide)

theorem intText (n : Int) : StartsWithDigit (Radix.intText 10 n) := by
  obtain ⟨c, rest, eq⟩ := List.exists_cons_of_ne_nil (Radix.digitsOf_ne_nil 10 n.natAbs)
  have digit := Radix.isAsciiDigit_digitsOf n.natAbs c (by simp [eq])
  exact ⟨_, c, rest, by rw [Radix.intText_eq, eq], digit⟩

theorem shortestText (h : Double.Readable x) : StartsWithDigit (Decimal.shortestText x).toList := by
  obtain ⟨d, ⟨plain, -⟩, text⟩ := Decimal.shortestText_spells h
  obtain ⟨c, rest, eq, digit⟩ := Numeral.Parts.sizeText_starts plain
  exact ⟨d.negative, c, rest, by rw [text, String.toList_ofList, Numeral.Parts.text, eq], digit⟩

end StartsWithDigit

/-! ## § Texts with a value -/

/-- The text of an expression that is answered with a value and changes nothing. -/
structure Denotes [Machine] (w : Workspace) (text : List Char) (v : Value) : Prop where
  derived : ∃ ts e, Writes w.vocabulary text ts ∧ Expression w Machine.nesting 0 ts e ∧
    (Evaluation.evaluateLine [e]).run w = .ok [v] w
  no_feed : '\n' ∉ text
  no_point : ¬SignedPoint text

namespace Denotes

variable [Machine]

section Words

variable (deep : 0 < Machine.nesting)

include deep

theorem of_word {kind : TokenKind} {word : List Char} (h : Spelled w.vocabulary kind word)
    (ht : leaf? w ⟨kind, String.ofList word, 1⟩ = some e)
    (value : (Evaluation.evaluateLine [e]).run w = .ok [v] w) (no_point : ¬SignedPoint word) :
    Denotes w word v := by
  have derived : Element w (Expression w 0 2) [⟨kind, String.ofList word, 1⟩] e := .leaf ht
  exact ⟨⟨_, e, .spelled h, derived.expression.mono deep, value⟩, h.no_feed, no_point⟩

/-- A number is a constant. -/
theorem of_number (room : 0 < Machine.calls) {kind : TokenKind} {text : String}
    (h : Spelled w.vocabulary kind text.toList) (numeral : kind.isNumeral = true)
    (read : Numeral.read text w.settings.inputBase = .ok s)
    (no_point : ¬SignedPoint text.toList) : Denotes w text.toList (.scalar s) := by
  refine .of_word deep (e := .constant s) h ?_ (Evaluation.evaluateLine_constant room s w) no_point
  rw [String.ofList_toList]
  exact leaf?_of_read numeral read 1

/-- A quoted text is its characters. -/
theorem of_quotation (w : Workspace) (text : List CodePoint)
    (value : (Evaluation.evaluateLine [quotation text]).run w = .ok [v] w) :
    Denotes w (Text.Quoted.encode text) v := by
  refine .of_word deep (spelled_quoted w.vocabulary text) ?_ value ?_
  · exact leaf?_of_decode (by rw [String.toList_ofList, Text.Quoted.decode_encode]) 1
  · exact not_signedPoint_cons (by decide) _

end Words

/-- The call of `float` stands in parentheses, and it takes six levels with its operand. -/
theorem float {word : List Char} (deep : 6 ≤ Machine.nesting) (room : 2 ≤ Machine.calls)
    (h : Numeral.WordFor w.vocabulary x word)
    (unary : w.definedUnary "float" = true) (primitive : w.userOperator? .unary "float" = none) :
    Denotes w ("(float " ++ String.ofList word ++ ")").toList (.scalar (.float x)) := by
  obtain ⟨spelled, s, read, value⟩ := h
  have known : w.vocabulary.isOperator "float" = true := Bool.or_eq_true_iff.2 (.inl unary)
  have call : Spelled w.vocabulary .operator "float".toList :=
    spelled_operator (by decide +kernel) (by decide) (by decide) known
  have text : ("(float " ++ String.ofList word ++ ")").toList
      = '(' :: ("float".toList ++ ' ' :: word ++ [')']) := by simp
  have writes := ((Writes.spelled call).blank (.spelled spelled)).parens
  have operand : Element w (Expression w 0 2) [⟨.number, String.ofList word, 1⟩] (.constant s) :=
    .leaf (leaf?_of_read rfl read 1)
  have call : Expression w 3 0 [⟨.operator, "float", 1⟩, ⟨.number, String.ofList word, 1⟩]
      (.unary "float" (.constant s)) :=
    ExpressionOver.unary (t := ⟨.operator, "float", 1⟩) rfl (.inr unary) operand.expression
  have enclosed : Element w (Expression w 5 2) (⟨.leftParen, "(", 1⟩ ::
      ([⟨.operator, "float", 1⟩, ⟨.number, String.ofList word, 1⟩] ++ [⟨.rightParen, ")", 1⟩]))
      (.unary "float" (.constant s)) := .parens rfl call rfl
  rw [text]
  refine ⟨⟨_, _, writes, enclosed.expression.mono deep,
    Evaluation.evaluateLine_float room value primitive⟩, ?_, ?_⟩
  · simp [spelled.no_feed]
  · exact not_signedPoint_cons (by decide) _

end Denotes

variable {settings : Settings}

/-- **The text of a number or a character denotes it.** -/
theorem Scalar.denotes [Machine] (deep : 6 ≤ Machine.nesting) (room : 2 ≤ Machine.calls)
    (canonical : s.Canonical) (h : s.ReadsBack settings.inputBase) :
    Denotes (.ofSettings settings) s.literalText.toList (.scalar s) := by
  have some_deep : 0 < Machine.nesting := Nat.zero_lt_of_lt deep
  have some_room : 0 < Machine.calls := Nat.zero_lt_of_lt room
  have integer (n : Int) : StartsWithDigit (Radix.decimalText n).toList := by
    rw [Radix.decimalText, String.toList_ofList]
    exact .intText n
  cases s with
  | int n =>
    have read : Numeral.read (Radix.decimalText n.toInt) settings.inputBase = .ok (.int n) := by
      rw [Numeral.read_int h (fits64_toInt n), Scalar.ofInt, Int64.ofInt_toInt]
    exact .of_number some_deep some_room (spelled_int h) rfl read (integer _).not_signedPoint
  | rational q =>
    obtain ⟨num, den⟩ := h
    refine .of_number some_deep some_room (spelled_fraction num den) rfl
      (Numeral.read_fraction canonical num den) ?_
    rw [literalText, String.toList_append, String.toList_append, List.append_assoc]
    exact ((integer _).append _).not_signedPoint
  | float x =>
    obtain ⟨decimal, value⟩ := h
    obtain ⟨word, text, reads⟩ :=
      @floatText (Workspace.ofSettings settings).vocabulary decimal x value
    rw [text]
    exact .float deep room reads rfl rfl
  | complex z =>
    obtain ⟨decimal, re, im⟩ := h
    obtain ⟨spelled, read⟩ :=
      @complexText (Workspace.ofSettings settings).vocabulary decimal z re im
    refine .of_number some_deep some_room spelled rfl read ?_
    rw [literalText, String.toList_append, String.toList_append, List.append_assoc]
    exact ((StartsWithDigit.shortestText re).append _).not_signedPoint
  | char c =>
    show Denotes _ (String.ofList (Text.Quoted.encode [c])).toList _
    rw [String.toList_ofList]
    exact .of_quotation some_deep _ [c] (Evaluation.evaluateLine_constant some_room _ _)

/-- The literals of tokens: numbers, characters, and texts of no or several characters. -/
theorem literal_cases (ht : leaf? w t = some e) (hv : e.literal? = some v) :
    (∃ s : Scalar, s.Canonical ∧ v = .scalar s) ∨
      ∃ text, quotation text = .string text ∧ v = .ofText text := by
  rcases leaf?_cases ht with ⟨s, read, rfl⟩ | ⟨text, -, rfl⟩ | ⟨-, rfl⟩
  · exact .inl ⟨s, Numeral.read_canonical _ _ _ read, (Option.some.inj hv).symm⟩
  · by_cases single : ∃ c, text = [c]
    · obtain ⟨c, rfl⟩ := single
      exact .inl ⟨.char c, Scalar.canonical_char c, (Option.some.inj hv).symm⟩
    · have several : quotation text = .string text := by
        unfold quotation
        split
        · exact absurd ⟨_, rfl⟩ single
        · rfl
      rw [several] at hv
      exact .inr ⟨text, several, (Option.some.inj hv).symm⟩
  · unfold named at hv
    split at hv <;> exact nomatch hv

/-- **The text of a literal denotes it.** -/
theorem Value.denotes [Machine] (deep : 6 ≤ Machine.nesting) (room : 2 ≤ Machine.calls)
    (ht : leaf? (.ofSettings settings) t = some e) (hv : e.literal? = some v)
    (h : v.ReadsBack settings.inputBase) :
    ∃ text, v.literalText = .ok text ∧ Denotes (.ofSettings settings) text.toList v := by
  rcases literal_cases ht hv with ⟨s, canonical, rfl⟩ | ⟨text, several, rfl⟩
  · exact ⟨_, rfl, Scalar.denotes deep room canonical h⟩
  · have some : text ≠ [] := by
      rintro rfl
      exact h rfl
    refine ⟨String.ofList (Text.Quoted.encode text), ?_, ?_⟩
    · show Except.ok (vectorText (text.map .char)) = _
      rw [vectorText, Value.text?_chars some]
    · rw [String.toList_ofList]
      refine .of_quotation (Nat.zero_lt_of_lt deep) _ text ?_
      rw [several]
      exact Evaluation.evaluateLine_string (Nat.zero_lt_of_lt room) text _

/-! ## § Evaluation -/

/-- Where nothing is left, reading comes to the end. -/
theorem Line.read_nothing [Machine] {s : Source} (fresh : s.peeked = none)
    (nothing : s.scanner.rest = []) (w : Workspace) : (read s w).1 = .ok .endOfInput := by
  obtain ⟨⟨rest, previous, feeds⟩, peeked, ended⟩ := s
  obtain rfl : peeked = none := fresh
  obtain rfl : rest = [] := nothing
  rfl

/-- Behind the only line of a text nothing is left. -/
theorem Line.read_only [Machine] {text : List Char} (no_feed : '\n' ∉ text) {es : List Expr}
    {s : Source} {w' : Workspace}
    (h : read (.ofText (text ++ ['\n'])) w = (.ok (.statements es), s, w')) :
    s.peeked = none ∧ s.scanner.rest = [] := by
  have path := reading_path
    (r := ⟨{ Source.ofText (text ++ ['\n']) with atLineEnd := false }, w, none⟩) rfl
  unfold read at h
  split at h
  next line r hr =>
    obtain ⟨hl, hs⟩ := Prod.mk.inj h
    obtain rfl := Except.ok.inj hl
    obtain ⟨rfl, -⟩ := Prod.mk.inj hs
    obtain ⟨walk, fresh, ended⟩ := path.of_ok hr
    have begun : (Source.ofText (text ++ ['\n'])).Resting := Source.resting_of_fresh rfl
    refine ⟨fresh, ?_⟩
    rcases (begun.onward.path walk.path).ended ended fresh with nothing | ⟨-, line, split⟩
    · exact nothing
    · have split : (text ++ ['\n']).filter (· != '\r')
          = line ++ '\n' :: r.source.scanner.rest := split
      rw [List.filter_append] at split
      -- The line feed at the end is the only one.
      rcases List.append_eq_append_iff.1 split with ⟨more, -, feed⟩ | ⟨more, before, feed⟩
      · rcases List.singleton_eq_append_iff.1 feed with ⟨-, last⟩ | ⟨-, none⟩
        · exact (List.cons.inj last).2
        · exact nomatch none
      · cases more with
        | nil => exact (List.cons.inj feed).2
        | cons c more =>
          obtain ⟨rfl, -⟩ := List.cons.inj feed
          have mem : '\n' ∈ text.filter (· != '\r') := by simp [before]
          exact absurd (List.mem_filter.1 mem).1 no_feed
  next => exact nomatch (Prod.mk.inj h).1

/-- A text that denotes a value is one statement, which has the value, and nothing stands behind
it. -/
theorem Denotes.read [Machine] {text : List Char} (h : Denotes (.ofSettings settings) text v) :
    ∃ e s, Line.read (.ofText (text ++ ['\n'])) (.ofSettings settings)
        = (.ok (.statements [e]), s, .ofSettings settings) ∧
      (Evaluation.evaluateLine [e]).run (.ofSettings settings) = .ok [v] (.ofSettings settings) ∧
      s.peeked = none ∧ s.scanner.rest = [] := by
  obtain ⟨⟨ts, e, writes, derived, value⟩, no_feed, no_point⟩ := h
  obtain ⟨s, line⟩ :=
    Line.read_written (w := .ofSettings settings) rfl rfl writes derived le_rfl no_point
  exact ⟨e, s, line, value, Line.read_only no_feed line⟩

namespace Session

theorem evaluateLines_nothing [Machine] {s : Source} (fresh : s.peeked = none)
    (nothing : s.scanner.rest = []) (count : Nat) (w : Workspace) (vs : List Value) :
    (evaluateLines count s w vs).1 = .ok vs := by
  cases count with
  | zero => rfl
  | succ count =>
    have line := Line.read_of_line (Line.read_nothing fresh nothing w)
    have response : respond s w
        = (.ok .finished, (Line.read s w).2.1, (Line.read s w).2.2) := by
      unfold respond
      rw [line]
    rw [evaluateLines, response]

/-- **A new session answers a text with the value that it denotes.** -/
theorem evaluate_denotes [Machine] {text : List Char} (h : Denotes (.ofSettings settings) text v) :
    (evaluate (text ++ ['\n']) (.ofSettings settings)).1 = .ok [v] := by
  obtain ⟨e, s, line, value, fresh, nothing⟩ := h.read
  have response : respond (.ofText (text ++ ['\n'])) (.ofSettings settings)
      = (.ok (.values [v]), s, remember (.ofSettings settings) [v]) := by
    unfold respond
    rw [line]
    dsimp only
    rw [value]
  show (evaluateLines (_ + 1) _ _ []).1 = _
  rw [evaluateLines, response]
  exact evaluateLines_nothing fresh nothing _ _ [v]

/-- **The text of a literal is answered with the literal,** as long as the machine has the levels that
a call of `float` in parentheses takes. -/
theorem evaluate_literalText [Machine] (deep : 6 ≤ Machine.nesting) (room : 2 ≤ Machine.calls)
    (ht : leaf? (.ofSettings settings) t = some e)
    (hv : e.literal? = some v) (readable : v.ReadsBack settings.inputBase) :
    ∃ text, v.literalText = .ok text ∧
      (evaluate (text ++ "\n").toList (.ofSettings settings)).1 = .ok [v] := by
  obtain ⟨text, printed, denotes⟩ := Value.denotes deep room ht hv readable
  have line : (text ++ "\n").toList = text.toList ++ ['\n'] := String.toList_append
  refine ⟨text, printed, ?_⟩
  rw [line]
  exact evaluate_denotes denotes

/-- A complex number with a quotient for its first part, in a session with base prefixes. -/
theorem evaluate_literalText_third :
    Value.literalText (.scalar (.complex ⟨1 / 3, -7⟩)) = .ok "0.3333333333333333j-7.0" ∧
      (evaluate "0.3333333333333333j-7.0\n".toList (.ofSettings { inputBase := 0 })).1
        = .ok [.scalar (.complex ⟨1 / 3, -7⟩)] := by
  have printed : Value.literalText (.scalar (.complex ⟨1 / 3, -7⟩))
      = .ok "0.3333333333333333j-7.0" := by decide +kernel
  have read : leaf? (.ofSettings { inputBase := 0 }) ⟨.complex, "1/3j-7", 1⟩
      = some (.constant (.complex ⟨1 / 3, -7⟩)) := by decide +kernel
  have third : Double.Readable (1 / 3) := by
    have value : Double.toRat? (1 / 3) = some (6004799503160661 / 18014398509481984) := by
      decide +kernel
    exact .inr ⟨_, value, by norm_num [Double.leastFraction, abs_of_pos]⟩
  have seven : Double.Readable (-7) := by
    have value : Double.toRat? (-7) = some (-7) := by decide +kernel
    exact .inr ⟨_, value, by norm_num [Double.leastFraction]⟩
  obtain ⟨text, same, answer⟩ :=
    evaluate_literalText (by decide) (by decide) read rfl ⟨.inl rfl, third, seven⟩
  obtain rfl := Except.ok.inj (same.symm.trans printed)
  exact ⟨printed, answer⟩

end Session

end ArrayCalc
