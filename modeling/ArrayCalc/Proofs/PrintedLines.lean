import ArrayCalc.Proofs.Scope

/-!
# The line of a definition

The text of a tree stays on its line, as long as its words do: numbers are written with digits and a
few signs, and line feeds in texts are written as escapes.
-/

namespace ArrayCalc

/-! ## § Numbers -/

namespace Radix

theorem digitChar_ne_feed (digit : Nat) : digitChar digit ≠ '\n' := by
  have zero : '0'.toNat = 48 := rfl
  have letter : 'a'.toNat = 97 := rfl
  unfold digitChar
  generalize hn : (if digit < 10 then '0'.toNat + digit else 'a'.toNat + (digit - 10)) = n
  have large : 48 ≤ n := by
    rw [zero, letter] at hn
    split at hn <;> omega
  intro h
  have code : (Char.ofNat n).toNat = 10 := by rw [h]; rfl
  by_cases valid : n.isValidChar
  · rw [Char.ofNat, dif_pos valid] at code
    change n = 10 at code
    omega
  · rw [Char.ofNat, dif_neg valid] at code
    cases code

theorem digitsOf_feed (base n : Nat) : '\n' ∉ digitsOf base n := by
  intro h
  obtain ⟨digit, -, hd⟩ := List.mem_map.1 h
  exact digitChar_ne_feed digit hd

theorem decimalText_feed (n : Int) : '\n' ∉ (decimalText n).toList := by
  unfold decimalText intText
  rw [String.toList_ofList]
  split
  · simpa using digitsOf_feed 10 n.natAbs
  · exact digitsOf_feed 10 n.natAbs

end Radix

namespace Decimal

theorem normalize_feed (count digits : Nat) (exponent : Int) :
    '\n' ∉ (normalize count digits exponent).digits := by
  unfold normalize
  split <;> exact Radix.digitsOf_feed _ _

theorem search_feed (n : Neighbourhood) (exponent : Int) (count tries : Nat) :
    '\n' ∉ (n.search exponent count tries).digits := by
  induction tries generalizing count with
  | zero => exact normalize_feed _ _ _
  | succ tries ih =>
    rw [Neighbourhood.search]
    split
    · exact normalize_feed _ _ _
    · exact ih (count + 1)

theorem pointAfterFirst_feed {digits : List Char} (h : '\n' ∉ digits) (keepPoint : Bool) :
    '\n' ∉ pointAfterFirst digits keepPoint := by
  unfold pointAfterFirst
  split
  · exact h
  next first rest =>
    rw [List.mem_cons, not_or] at h
    split <;> simp [h]

theorem pointBeforeLast_feed {digits : List Char} (h : '\n' ∉ digits) (places : Nat)
    (keepPoint : Bool) : '\n' ∉ pointBeforeLast places digits keepPoint := by
  have padded : '\n' ∉ List.replicate (places + 1 - digits.length) '0' ++ digits := by
    simp [h]
  unfold pointBeforeLast
  dsimp only
  rw [List.mem_append, not_or]
  refine ⟨fun hm => padded (List.mem_of_mem_take hm), ?_⟩
  split
  · split <;> simp
  · rw [List.mem_cons, not_or]
    exact ⟨by decide, fun hm => padded (List.mem_of_mem_drop hm)⟩

theorem exponentText_feed (exponent : Int) : '\n' ∉ exponentText 'e' exponent := by
  have digits := Radix.digitsOf_feed 10 exponent.natAbs
  unfold exponentText
  dsimp only
  split <;> split <;> simp [digits]

theorem shortestText_feed (x : Float) : '\n' ∉ (shortestText x).toList := by
  have negated {size : List Char} (h : '\n' ∉ size) :
      '\n' ∉ (String.ofList (if Double.isNegative x then '-' :: size else size)).toList := by
    rw [String.toList_ofList]
    split
    · simpa using h
    · exact h
  unfold shortestText
  split
  · decide
  · split <;> decide
  next mantissa exponent _ =>
    refine negated ?_
    split
    · decide
    have digits : '\n' ∉ (shortest mantissa exponent).digits := search_feed _ _ _ _
    dsimp only
    split
    · rw [List.mem_append, not_or]
      exact ⟨pointAfterFirst_feed digits false, exponentText_feed _⟩
    split
    · simp [digits]
    · exact pointBeforeLast_feed digits _ false

end Decimal

/-! ## § Texts -/

theorem Text.Quoted.encodePoint_feed (c : CodePoint) : '\n' ∉ Text.Quoted.encodePoint c := by
  cases c with
  | char c =>
    show '\n' ∉ encodeChar c
    unfold encodeChar
    split
    all_goals try decide
    next h _ _ _ =>
      rw [List.mem_singleton]
      exact fun e => h e.symm
  | surrogate code => simp [encodePoint, Radix.digitsOf_feed]

theorem Text.Quoted.encode_feed (text : List CodePoint) : '\n' ∉ Text.Quoted.encode text := by
  unfold encode
  simp only [List.cons_append, List.mem_cons, List.mem_append, List.mem_flatMap, List.mem_nil_iff,
    or_false, not_or, not_exists, not_and]
  exact ⟨by decide, fun c _ => encodePoint_feed c, by decide⟩

theorem Scalar.literalText_feed (s : Scalar) : '\n' ∉ s.literalText.toList := by
  unfold literalText
  split
  · exact Radix.decimalText_feed _
  next q =>
    simp [Radix.decimalText_feed]
  next x =>
    split
    · decide
    · split <;> decide
    · simp [Decimal.shortestText_feed]
  next z => simp [Decimal.shortestText_feed]
  · rw [String.toList_ofList]
    exact Text.Quoted.encode_feed _

/-- Texts side by side have no characters but their own and those between them. -/
theorem notMem_intercalate {c : Char} {texts : List String} (separator : String)
    (hs : c ∉ separator.toList) (h : ∀ text ∈ texts, c ∉ text.toList) :
    c ∉ (separator.intercalate texts).toList := by
  rw [String.toList_intercalate]
  induction texts with
  | nil => exact List.not_mem_nil
  | cons text texts ih =>
    rw [List.forall_mem_cons] at h
    cases texts with
    | nil => simpa using h.1
    | cons second others =>
      rw [List.map_cons, List.map_cons, List.intercalate_cons_cons, List.mem_append,
        List.mem_append, not_or, not_or]
      exact ⟨⟨h.1, hs⟩, ih h.2⟩

theorem Value.vectorText_feed (items : List Scalar) : '\n' ∉ (Value.vectorText items).toList := by
  unfold vectorText
  split
  · rw [String.toList_ofList]
    exact Text.Quoted.encode_feed _
  · refine notMem_intercalate " " (by decide) fun text hm => ?_
    obtain ⟨s, -, rfl⟩ := List.mem_map.1 hm
    exact s.literalText_feed

/-! ## § Trees -/

namespace Expr

theorem OnLine.mono {nodes others : List Expr} (h : OnLine nodes) (hs : others ⊆ nodes) :
    OnLine others := fun node hm => h node (hs hm)

theorem enclose_feed {e : Expr} {text : String} (h : '\n' ∉ text.toList) :
    '\n' ∉ (e.enclose text).toList := by
  unfold enclose
  split
  · exact h
  · simp [h]

mutual

theorem text_feed (e : Expr) (h : OnLine e.nodes) : '\n' ∉ e.text.toList := by
  have own (word : String) (hw : word ∈ e.words) : '\n' ∉ word.toList :=
    h e e.self_mem_nodes word hw
  cases e with
  | constant s => exact s.literalText_feed
  | string chars => exact Value.vectorText_feed _
  | sessionVar name => exact own name (by simp [words])
  | slotVar name slot => exact own name (by simp [words])
  | unary operator right =>
    have right := text_feed right fun node hm => h node (by simp [nodes, hm])
    have operator := own operator (by simp [words])
    simp [text, right, operator]
  | binary operator left right =>
    have left := enclose_feed (e := left)
      (text_feed left fun node hm => h node (by simp [nodes, hm]))
    have right := text_feed right fun node hm => h node (by simp [nodes, hm])
    have operator := own operator (by simp [words])
    simp [text, left, right, operator]
  | assign target value =>
    have target := enclose_feed (e := target)
      (text_feed target fun node hm => h node (by simp [nodes, hm]))
    have value := text_feed value fun node hm => h node (by simp [nodes, hm])
    simp [text, target, value]
  | conditional condition result =>
    have condition := text_feed condition fun node hm => h node (by simp [nodes, hm])
    have result := text_feed result fun node hm => h node (by simp [nodes, hm])
    simp [text, condition, result]
  | index base subscripts =>
    have base := enclose_feed (e := base)
      (text_feed base fun node hm => h node (by simp [nodes, hm]))
    have subscripts := notMem_intercalate "; " (by decide)
      (texts_feed subscripts fun node hm => h node (by simp [nodes, hm]))
    simp only [text, String.toList_append, List.mem_append, not_or]
    exact ⟨⟨⟨base, by decide⟩, subscripts⟩, by decide⟩
  | strand items =>
    exact notMem_intercalate " " (by decide)
      (enclosedTexts_feed items fun node hm => h node (by simp [nodes, hm]))
  | empty => exact List.not_mem_nil

theorem texts_feed (es : List Expr) (h : OnLine (nodesOf es)) :
    ∀ text ∈ texts es, '\n' ∉ text.toList := by
  cases es with
  | nil => exact nofun
  | cons e es =>
    rw [texts, List.forall_mem_cons]
    exact ⟨text_feed e (h.mono (List.subset_append_left _ _)),
      texts_feed es (h.mono (List.subset_append_right _ _))⟩

theorem enclosedTexts_feed (es : List Expr) (h : OnLine (nodesOf es)) :
    ∀ text ∈ enclosedTexts es, '\n' ∉ text.toList := by
  cases es with
  | nil => exact nofun
  | cons e es =>
    rw [enclosedTexts, List.forall_mem_cons]
    exact ⟨enclose_feed (text_feed e (h.mono (List.subset_append_left _ _))),
      enclosedTexts_feed es (h.mono (List.subset_append_right _ _))⟩

end

end Expr

/-- **A definition is written on one line**, as long as its words are. -/
theorem UserOperator.definitionText_feed {f : UserOperator} (hn : '\n' ∉ f.name.toList)
    (hp : ∀ name ∈ f.parameters, '\n' ∉ name.toList) (h : Expr.OnLine f.nodes) :
    '\n' ∉ f.definitionText.toList := by
  have texts : ∀ text ∈ f.body.map Expr.text, '\n' ∉ text.toList := by
    intro text hm
    obtain ⟨e, he, rfl⟩ := List.mem_map.1 hm
    exact e.text_feed (h.mono (Expr.nodes_subset_nodesOf he))
  have body := notMem_intercalate "; " (by decide) texts
  simp only [parameters, List.forall_mem_append, List.forall_mem_singleton] at hp
  unfold definitionText
  simp only [String.toList_append, List.mem_append, not_or]
  refine ⟨⟨⟨⟨⟨⟨by decide, ?_⟩, hn⟩, by decide⟩, hp.2⟩, by decide⟩, body⟩
  split
  next name hl =>
    rw [hl] at hp
    simpa using hp.1
  next => decide

end ArrayCalc
