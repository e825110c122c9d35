import ArrayCalc.Token.OperatorWord

/-!
# The parts of operator words

A word is the product of the texts between its points, and a fold of the text before its mark.  A
plain word is neither: nothing has been derived from it yet.
-/

namespace ArrayCalc.OperatorWord

/-! ## § Points in a word -/

theorem splitPoints_eq_singleton {cs : List Char} (h : '.' ∉ cs) : splitPoints cs = [cs] := by
  induction cs with
  | nil => rfl
  | cons c cs ih =>
    rw [List.mem_cons, not_or] at h
    rw [splitPoints, if_neg (Ne.symm h.1), ih h.2]

theorem splitPoints_append {cs : List Char} (h : '.' ∉ cs) (ds : List Char) :
    splitPoints (cs ++ '.' :: ds) = cs :: splitPoints ds := by
  induction cs with
  | nil => rfl
  | cons c cs ih =>
    rw [List.mem_cons, not_or] at h
    rw [List.cons_append, splitPoints, if_neg (Ne.symm h.1), ih h.2]

theorem splitPoints_ne_nil (cs : List Char) : splitPoints cs ≠ [] := by
  cases cs with
  | nil => simp [splitPoints]
  | cons c cs =>
    rw [splitPoints]
    split
    · simp
    · split <;> simp

/-- A word is put together again from its parts. -/
theorem intercalate_splitPoints (cs : List Char) : ['.'].intercalate (splitPoints cs) = cs := by
  induction cs with
  | nil => rfl
  | cons c cs ih =>
    cases hs : splitPoints cs with
    | nil => exact absurd hs (splitPoints_ne_nil cs)
    | cons first others =>
      rw [hs] at ih
      rw [splitPoints, hs]
      by_cases hc : c = '.'
      · rw [if_pos hc, List.intercalate_cons_cons, ih, hc]
        rfl
      · rw [if_neg hc]
        cases others with
        | nil => simp_all [List.intercalate]
        | cons second others =>
          rw [List.intercalate_cons_cons] at ih ⊢
          rw [← ih]
          rfl

theorem operators_eq_singleton {word : String} (h : '.' ∉ word.toList) :
    operators word = [word] := by
  rw [operators, splitPoints_eq_singleton h, List.map_singleton, String.ofList_toList]

theorem operators_append {f : String} (h : '.' ∉ f.toList) (g : String) :
    operators (f ++ "." ++ g) = f :: operators g := by
  have : (f ++ "." ++ g).toList = f.toList ++ '.' :: g.toList := by simp
  rw [operators, this, splitPoints_append h, List.map_cons, String.ofList_toList]
  rfl

theorem product_operators (word : String) : product (operators word) = word := by
  rw [product, operators, ← String.toList_inj, String.toList_intercalate, List.map_map]
  simpa [Function.comp_def] using intercalate_splitPoints word.toList

/-! ## § Plain words -/

/-- A word that nothing has been derived from yet. -/
structure Plain (word : List Char) : Prop where
  no_point : '.' ∉ word
  no_feed : '\n' ∉ word
  no_mark : splitMark? (String.ofList word) = none

theorem splitMark?_ofList_append (word : List Char) (mark : Char) :
    splitMark? (String.ofList (word ++ [mark])) =
      if word ≠ [] ∧ (mark = '/' ∨ mark = '\\') then some (String.ofList word, mark) else none := by
  unfold splitMark?
  rw [String.toList_ofList, List.reverse_append, List.reverse_singleton, List.singleton_append]
  cases h : word.reverse with
  | nil =>
    obtain rfl := List.reverse_eq_nil_iff.1 h
    simp
  | cons c rest =>
    have hw : word = (c :: rest).reverse := by rw [← h, List.reverse_reverse]
    by_cases hm : mark = '/' ∨ mark = '\\'
    · simp [hm, hw]
    · simp [hm]

/-- A mark stands behind words with another character before it only. -/
theorem plain_of_forall {word : List Char}
    (h : ∀ c ∈ word, c ≠ '.' ∧ c ≠ '\n' ∧ c ≠ '/' ∧ c ≠ '\\') : Plain word := by
  refine ⟨fun hc => (h _ hc).1 rfl, fun hc => (h _ hc).2.1 rfl, ?_⟩
  rcases List.eq_nil_or_concat word with rfl | ⟨init, last, rfl⟩
  · rfl
  · have hl := h last (by simp)
    rw [List.concat_eq_append, splitMark?_ofList_append, if_neg]
    rintro ⟨-, rfl | rfl⟩
    · exact hl.2.2.1 rfl
    · exact hl.2.2.2 rfl

theorem plain_singleton {c : Char} (h : c ≠ '.' ∧ c ≠ '\n') : Plain [c] := by
  refine ⟨by simpa using h.1.symm, by simpa using h.2.symm, ?_⟩
  simp [splitMark?]

theorem isProduct_ofList (word : List Char) :
    isProduct (String.ofList word) = true ↔ '.' ∈ word := by
  simp [isProduct]

end ArrayCalc.OperatorWord
