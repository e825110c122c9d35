import ArrayCalc.Proofs.NumeralTexts
import ArrayCalc.Proofs.PrintedLiterals

/-!
# Printed numbers that are evaluated again

Where numbers are read and printed in one base of at most nineteen digits, a printed integer or
fraction, or a vector of several, is a program for itself.

A number that starts with a letter is first taken for a word.  In these bases no operator of a new
session consists of digits only, so the word is recognized as a number; and since `j` is no digit yet,
nothing in it looks like the mark of an imaginary part.
-/

namespace ArrayCalc

open Grammar
open Lexeme (Unsigned TakenForNumber withSign quotientKind spelled_quotient)
open Radix (Run intText digitsOf)

/-! ## § Words of digits -/

/-- A vocabulary in which words of digits are numbers. -/
structure Vocabulary.Numeric (v : Vocabulary) (radix : Nat) : Prop where
  base : v.inputBase = radix
  least : 2 ≤ radix
  most : radix ≤ 19
  vacant : ∀ word, Run radix word → v.isOperator (String.ofList word) = false

/-- No operator of a new session has a name of digits only. -/
theorem Workspace.numeric_ofSettings [Machine] {settings : Settings} {radix : Nat}
    (least : 2 ≤ radix) (most : radix ≤ 19) (base : settings.inputBase = radix) :
    (ofSettings settings).vocabulary.Numeric radix := by
  have strange : ∀ radix ≤ 19,
      (∀ op ∈ UnaryPrimitive.all, Radix.isAllDigits op.name.toList (radix : Nat) = false) ∧
        ∀ op ∈ BinaryPrimitive.all, Radix.isAllDigits op.name.toList (radix : Nat) = false := by
    decide +kernel
  obtain ⟨unary, binary⟩ := strange radix most
  refine ⟨base, least, most, fun word run => ?_⟩
  have other {name : String} (h : Radix.isAllDigits name.toList radix = false) :
      name ≠ String.ofList word := by
    rintro rfl
    rw [String.toList_ofList, run.isAllDigits] at h
    exact nomatch h
  have no_unary : UnaryPrimitive.ofName? (String.ofList word) = none :=
    List.find?_eq_none.2 fun op hop => by simpa using other (unary op hop)
  have no_binary : BinaryPrimitive.ofName? (String.ofList word) = none :=
    List.find?_eq_none.2 fun op hop => by simpa using other (binary op hop)
  have unknown : (ofSettings settings).definedUnary (String.ofList word) = false ∧
      (ofSettings settings).definedBinary (String.ofList word) = false := by
    unfold definedUnary definedBinary
    rw [no_unary, no_binary]
    exact ⟨rfl, rfl⟩
  exact Bool.or_eq_false_iff.2 unknown

namespace Vocabulary.Numeric

variable {v : Vocabulary} {radix : Nat} {x y : List Char} (h : v.Numeric radix)

include h

/-- There is no `j` and no `o` among the digits. -/
theorem notMem (run : Run radix x) : 'j' ∉ x ∧ 'o' ∉ x := by
  have strange : ∀ radix ≤ 19, 'j' ∉ Radix.alphabet (radix : Nat) ∧
      'o' ∉ Radix.alphabet (radix : Nat) := by decide
  obtain ⟨j, o⟩ := strange radix h.most
  exact ⟨fun hm => j (run.digits _ hm), fun hm => o (run.digits _ hm)⟩

theorem contains_of_run (run : Run radix x) : ∀ c ∈ x, v.digits.contains c = true := by
  intro c hc
  rw [Vocabulary.digits, h.base]
  exact List.contains_iff_mem.2 (run.digits c hc)

theorem unsigned (run : Run radix x) : Unsigned v x := by
  refine Lexeme.unsigned_run run.nonempty (h.contains_of_run run) (h.notMem run).1 fun d tail _ => ?_
  have base : v.inputBase ≠ 0 := by
    have base := h.base
    have least := h.least
    omega
  exact if_neg base

/-- A word of digits by itself or before a slash is cut as a number, even if it starts with a
letter. -/
theorem taken (run : Run radix x) {more : List Char} (ends : more = [] ∨ ∃ y, more = '/' :: y) :
    TakenForNumber v (x ++ more) := by
  obtain ⟨c, word, rfl⟩ := List.exists_cons_of_ne_nil run.nonempty
  by_cases digit : Text.isAsciiDigit c = true
  · exact Lexeme.takenForNumber_digit digit _
  · intro c' rest eq p d tail hd
    rw [List.cons_append] at eq
    obtain ⟨rfl, rfl⟩ := List.cons.inj eq
    have words : ∀ e ∈ c :: word, Text.isWordChar e = true := fun e he =>
      Lexeme.isWordChar_of_digit (h.contains_of_run run e he)
    -- The word ends where the digits do.
    obtain ⟨e, others, behind, other, terminates⟩ : ∃ e others, more ++ d :: tail = e :: others ∧
        Text.isWordChar e = false ∧ Lexeme.atTerminator (e :: others) = true := by
      rcases ends with rfl | ⟨y, rfl⟩
      · have separates := Lexeme.separates_of_mem hd
        exact ⟨d, tail, rfl, separates.word, separates.terminator tail⟩
      · exact ⟨'/', y ++ d :: tail, rfl, by decide, rfl⟩
    have text : c :: (word ++ more ++ d :: tail) = c :: word ++ e :: others := by
      rw [← behind, List.append_assoc]
      rfl
    have name : String.ofList (c :: word) ≠ "op" ∧ String.ofList (c :: word) ≠ "o" := by
      have no_o := (h.notMem run).2
      constructor
      · intro eq
        have same : c :: word = "op".toList := by rw [← eq, String.toList_ofList]
        exact no_o (same ▸ by decide)
      · intro eq
        have same : c :: word = "o".toList := by rw [← eq, String.toList_ofList]
        exact no_o (same ▸ by decide)
    have digits : Radix.isAllDigits (c :: word) v.inputBase = true := by
      rw [h.base]
      exact run.isAllDigits
    rw [Lexeme.ofText_of_isWordChar (words c List.mem_cons_self) (Bool.eq_false_iff.2 digit),
      text, Lexeme.word_before words other terminates,
      Lexeme.named_digits name (h.vacant _ run) digits]

theorem run_digitsOf (n : Nat) : Run radix (digitsOf radix n) :=
  .digitsOf h.least (h.most.trans (by decide)) n

theorem spelled_int (n : Int) :
    ∃ kind, kind.isNumeral = true ∧ Spelled v kind (intText radix n) := by
  have run := h.run_digitsOf n.natAbs
  have taken := h.taken run (.inl rfl)
  rw [List.append_nil] at taken
  rw [Radix.intText_eq]
  exact ⟨_, Lexeme.isNumeral_quotientKind _, spelled_quotient (h.unsigned run).quotient taken _⟩

theorem spelled_fraction (q : Fraction) :
    ∃ kind, kind.isNumeral = true ∧
      Spelled v kind (intText radix q.num ++ '/' :: intText radix q.den) := by
  have num := h.run_digitsOf q.num.natAbs
  have den := h.run_digitsOf q.den.natAbs
  have positive : intText radix q.den = digitsOf radix q.den.natAbs := if_neg (by simp [Fraction.den])
  have text : intText radix q.num ++ '/' :: intText radix q.den
      = withSign (decide (q.num < 0))
        (digitsOf radix q.num.natAbs ++ '/' :: digitsOf radix q.den.natAbs) := by
    rw [positive, Radix.intText_eq]
    by_cases h : q.num < 0 <;> simp [withSign, h]
  rw [text]
  exact ⟨_, Lexeme.isNumeral_quotientKind _,
    spelled_quotient ((h.unsigned num).over (h.unsigned den)) (h.taken num (.inr ⟨_, rfl⟩)) _⟩

end Vocabulary.Numeric

/-! ## § Words for numbers -/

/-- A word that is read as a number wherever blanks stand beside it. -/
structure NumberWord (w : Workspace) (s : Scalar) (text : String) : Prop where
  spelled : ∃ kind, kind.isNumeral = true ∧ Spelled w.vocabulary kind text.toList
  read : Numeral.read text w.settings.inputBase = .ok s
  no_point : '.' ∉ text.toList

namespace NumberWord

variable {w : Workspace} {s : Scalar} {text : String} {items : List Scalar} {texts : List String}

theorem denotes [Machine] (deep : 0 < Machine.nesting) (room : 0 < Machine.calls)
    (h : NumberWord w s text) : Denotes w text.toList (.scalar s) := by
  obtain ⟨kind, numeral, spelled⟩ := h.spelled
  exact .of_number deep room spelled numeral h.read (not_signedPoint_of_notMem h.no_point)

/-- A word for a number is an operand. -/
theorem operandText (h : NumberWord w s text) (inner : Phrase) :
    OperandText w inner (.constant s) text := by
  obtain ⟨kind, numeral, spelled⟩ := h.spelled
  refine ⟨_, .spelled spelled, .leaf ?_⟩
  rw [String.ofList_toList]
  exact leaf?_of_read numeral h.read 1

theorem operandTexts (h : List.Forall₂ (NumberWord w) items texts) (inner : Phrase) :
    List.Forall₂ (OperandText w inner) (items.map .constant) texts :=
  List.forall₂_map_left_iff.2 (h.imp fun _ _ word => word.operandText inner)

theorem notMem_joined (h : List.Forall₂ (NumberWord w) items texts) :
    '\n' ∉ (" ".intercalate texts).toList ∧ '.' ∉ (" ".intercalate texts).toList := by
  have words : ∀ text ∈ texts, '\n' ∉ text.toList ∧ '.' ∉ text.toList := by
    induction h with
    | nil => exact nofun
    | cons word _ ih =>
      obtain ⟨kind, -, spelled⟩ := word.spelled
      exact List.forall_mem_cons.2 ⟨⟨spelled.no_feed, word.no_point⟩, ih⟩
  exact ⟨notMem_intercalate " " (by decide) fun text hm => (words text hm).1,
    notMem_intercalate " " (by decide) fun text hm => (words text hm).2⟩

end NumberWord

/-- **Words with blanks between them denote the vector of their numbers.** -/
theorem NumberWord.denotes_vector [Machine] (deep : 0 < Machine.nesting)
    (room : 4 ≤ Machine.calls) {w : Workspace} {items : List Scalar} {texts : List String}
    (h : List.Forall₂ (NumberWord w) items texts) (several : 2 ≤ items.length) :
    Denotes w (" ".intercalate texts).toList (.vector items) := by
  have nonempty : items.map Expr.constant ≠ [] := by
    rw [Ne, List.map_eq_nil_iff]
    rintro rfl
    exact absurd several (by decide)
  obtain ⟨ts, writes, strand⟩ := strand_of_texts (operandTexts h (Expression w 0 2)) nonempty
  have primary : Primary w (Expression w 0) _ _ := .mk strand .none
  rw [List.append_nil, joined_of_several (by rwa [List.length_map])] at primary
  obtain ⟨no_feed, no_point⟩ := notMem_joined h
  have derived : Expression w 1 0 ts (.strand (items.map .constant)) := .primary primary
  exact ⟨⟨ts, _, writes, derived.mono deep, Evaluation.evaluateLine_strand room items w⟩, no_feed,
    not_signedPoint_of_notMem no_point⟩

/-! ## § Values -/

/-- An integer or a canonical fraction. -/
inductive Scalar.Exact : Scalar → Prop
  | int (n : Int64) : Exact (.int n)
  | rational {q : Fraction} (canonical : (Scalar.rational q).Canonical) : Exact (.rational q)

/-- An exact number, or a vector of two or more. -/
inductive Value.Exact : Value → Prop
  | scalar {s : Scalar} (h : s.Exact) : Exact (.scalar s)
  | vector {items : List Scalar} (several : 2 ≤ items.length) (h : ∀ s ∈ items, s.Exact) :
    Exact (.vector items)

section Printed

variable [Machine] {settings : Settings} {radix : Nat} (least : 2 ≤ radix) (most : radix ≤ 19)
  (input : settings.inputBase = radix) (output : settings.outputBase = radix)

include least most input output

/-- **The text of an exact number is a word for it.** -/
theorem Scalar.Exact.printed {s : Scalar} (h : s.Exact) :
    ∃ text, s.format settings = .ok text ∧ NumberWord (.ofSettings settings) s text := by
  have numeric := Workspace.numeric_ofSettings least most input
  have below : radix ≤ 36 := most.trans (by decide)
  have stands {n : Int} (fits : Fits64 n) : Numeral.Stands settings.inputBase (intText radix n) n :=
    Numeral.stands_intText (.inl input) least below fits
  have no_point (n : Int) : '.' ∉ intText radix n := by
    have digits := (numeric.run_digitsOf n.natAbs).notMem (c := '.') (by decide)
    unfold intText
    split <;> simp [digits]
  cases h with
  | int n =>
    refine ⟨_, Scalar.format_int output n, ?_, ?_, ?_⟩
    · rw [String.toList_ofList]
      exact numeric.spelled_int n.toInt
    · have read := (stands (fits64_toInt n)).read_int (fits64_toInt n)
      rwa [Scalar.ofInt, Int64.ofInt_toInt] at read
    · rw [String.toList_ofList]
      exact no_point n.toInt
  | rational canonical =>
    refine ⟨_, Scalar.format_rational output _, ?_, ?_, ?_⟩
    · rw [String.toList_ofList]
      exact numeric.spelled_fraction _
    · exact (stands (Fraction.num_fits _)).read_fraction canonical (stands (Fraction.den_fits _))
    · rw [String.toList_ofList]
      simp [no_point]

/-- **The text of exact numbers is words for them with blanks between.** -/
theorem Scalar.Exact.printed_all {items : List Scalar} (h : ∀ s ∈ items, s.Exact) :
    ∃ texts, items.mapM (Scalar.format settings) = .ok texts ∧
      List.Forall₂ (NumberWord (.ofSettings settings)) items texts := by
  induction items with
  | nil => exact ⟨[], rfl, .nil⟩
  | cons s items ih =>
    rw [List.forall_mem_cons] at h
    obtain ⟨text, format, word⟩ := h.1.printed least most input output
    obtain ⟨texts, formats, words⟩ := ih h.2
    refine ⟨text :: texts, ?_, .cons word words⟩
    rw [List.mapM_cons, format, formats]
    rfl

/-- **The text of an exact value denotes it.** -/
theorem Value.Exact.printed (deep : 0 < Machine.nesting) (room : 4 ≤ Machine.calls)
    {v : Value} (h : v.Exact) :
    ∃ text, v.format settings = .ok text ∧ Denotes (.ofSettings settings) text.toList v := by
  cases h with
  | scalar h =>
    obtain ⟨text, format, word⟩ := h.printed least most input output
    exact ⟨text, format, word.denotes deep (Nat.zero_lt_of_lt room)⟩
  | @vector items several h =>
    obtain ⟨texts, formats, words⟩ := Scalar.Exact.printed_all least most input output h
    have no_text : Value.text? items = none := by
      match items, several with
      | s :: rest, _ =>
        have first := h s List.mem_cons_self
        cases first with
        | int n => rfl
        | rational canonical => rfl
    have format : (Value.vector items).format settings = .ok (" ".intercalate texts) := by
      unfold Value.format
      dsimp only
      rw [no_text, formats]
      rfl
    exact ⟨_, format, NumberWord.denotes_vector deep room words several⟩

end Printed

namespace Session

/-- **A printed exact value is a program for itself,** as long as the machine has the levels that a
strand of operands takes. -/
theorem evaluate_format [Machine] (deep : 0 < Machine.nesting) (room : 4 ≤ Machine.calls)
    {settings : Settings} {radix : Nat} (least : 2 ≤ radix) (most : radix ≤ 19)
    (input : settings.inputBase = radix) (output : settings.outputBase = radix) {v : Value}
    (exact : v.Exact) :
    ∃ text, v.format settings = .ok text ∧
      (evaluate (text ++ "\n").toList (.ofSettings settings)).1 = .ok [v] := by
  obtain ⟨text, format, denotes⟩ := exact.printed least most input output deep room
  have line : (text ++ "\n").toList = text.toList ++ ['\n'] := String.toList_append
  refine ⟨text, format, ?_⟩
  rw [line]
  exact evaluate_denotes denotes

/-- In base fifteen `e` is a digit, which a number can start with, and no exponent follows it. -/
theorem evaluate_format_fifteen :
    let settings : Settings := { inputBase := 15, outputBase := 15 }
    let v : Value :=
      .vector [.int 14, .rational ⟨-211 / 14, by decide +kernel, by decide +kernel⟩]
    v.format settings = .ok "e -e1/e" ∧
      (evaluate "e -e1/e\n".toList (.ofSettings settings)).1 = .ok [v] := by
  intro settings v
  have printed : v.format settings = .ok "e -e1/e" := by decide +kernel
  have exact : v.Exact := by
    refine .vector (by decide) ?_
    rw [List.forall_mem_cons, List.forall_mem_singleton]
    exact ⟨.int 14, .rational (by decide +kernel)⟩
  obtain ⟨text, same, answer⟩ :=
    @evaluate_format _ (by decide) (by decide) settings 15 (by decide) (by decide) rfl rfl v exact
  obtain rfl := Except.ok.inj (same.symm.trans printed)
  exact ⟨printed, answer⟩

end Session

end ArrayCalc
