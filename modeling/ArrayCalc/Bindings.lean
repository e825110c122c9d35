/-!
# Bindings

A finite map from names to values, in the order in which the names were first bound.
-/

namespace ArrayCalc

structure Bindings (α : Type) where
  entries : List (String × α)
deriving DecidableEq, Repr

namespace Bindings

variable {α : Type}

def empty : Bindings α := ⟨[]⟩

def names (b : Bindings α) : List String := b.entries.map Prod.fst

def get? (b : Bindings α) (name : String) : Option α :=
  (b.entries.find? fun entry => entry.1 == name).map Prod.snd

def contains (b : Bindings α) (name : String) : Bool := (b.get? name).isSome

/-- Binds a name anew; a name that is bound already keeps its place. -/
def insert (b : Bindings α) (name : String) (a : α) : Bindings α :=
  if b.contains name then
    ⟨b.entries.map fun entry => if entry.1 == name then (name, a) else entry⟩
  else ⟨b.entries ++ [(name, a)]⟩

def erase (b : Bindings α) (name : String) : Bindings α :=
  ⟨b.entries.filter fun entry => entry.1 != name⟩

/-- Binds a name or, without a value, forgets it. -/
def restore (b : Bindings α) (name : String) : Option α → Bindings α
  | some a => b.insert name a
  | none => b.erase name

/-! ## § What a look-up finds after a change -/

theorem contains_eq_false_iff {b : Bindings α} {name : String} :
    b.contains name = false ↔ ∀ entry ∈ b.entries, entry.1 ≠ name := by
  simp [contains, get?, List.find?_eq_none]

theorem contains_iff_mem_names {b : Bindings α} {name : String} :
    b.contains name = true ↔ name ∈ b.names := by
  rw [← Decidable.not_iff_not, Bool.not_eq_true, contains_eq_false_iff]
  simp only [names, List.mem_map, not_exists, not_and]

theorem mem_names_of_get? {b : Bindings α} {name : String} {a : α} (h : b.get? name = some a) :
    name ∈ b.names := by
  refine contains_iff_mem_names.1 ?_
  rw [contains, h]
  rfl

private theorem find?_map_replace (entries : List (String × α)) (name other : String) (a : α) :
    ((entries.map fun entry => if entry.1 == name then (name, a) else entry).find?
        fun entry => entry.1 == other).map Prod.snd
      = if other = name then (entries.find? fun entry => entry.1 == name).map fun _ => a
        else (entries.find? fun entry => entry.1 == other).map Prod.snd := by
  induction entries with
  | nil => simp
  | cons entry rest ih =>
    by_cases hn : entry.1 = name <;> by_cases ho : other = name
    · simp [hn, ho]
    · have : ¬name = other := fun h => ho h.symm
      simp_all
    · simp_all
    · by_cases he : entry.1 = other <;> simp_all

theorem get?_insert (b : Bindings α) (name other : String) (a : α) :
    (b.insert name a).get? other = if other = name then some a else b.get? other := by
  by_cases h : b.contains name = true
  · have found : ((b.entries.find? fun entry => entry.1 == name).map fun _ => a) = some a := by
      cases hf : b.entries.find? fun entry => entry.1 == name with
      | none => simp [contains, get?, hf] at h
      | some entry => rfl
    simp only [insert, h, if_true, get?]
    rw [find?_map_replace, found]
  · have unbound := contains_eq_false_iff.1 (Bool.eq_false_iff.2 h)
    simp only [insert, h, if_false, get?, List.find?_append, Bool.false_eq_true]
    by_cases ho : other = name
    · subst ho
      have : (b.entries.find? fun entry => entry.1 == other) = none := by
        simpa [List.find?_eq_none] using unbound
      simp [this]
    · have : ¬name = other := fun e => ho e.symm
      cases b.entries.find? fun entry => entry.1 == other <;> simp [this, ho]

/-- Only a new name is added to the others. -/
theorem names_insert (b : Bindings α) (name : String) (a : α) :
    (b.insert name a).names = if name ∈ b.names then b.names else b.names ++ [name] := by
  unfold insert
  by_cases bound : b.contains name = true
  · have replaced : (fun entry : String × α => (if entry.1 == name then (name, a) else entry).1)
        = Prod.fst := by
      funext entry
      by_cases h : entry.1 = name <;> simp [h]
    rw [if_pos bound, if_pos (contains_iff_mem_names.1 bound), names, List.map_map]
    exact congrArg (List.map · b.entries) replaced
  · rw [if_neg bound, if_neg fun h => bound (contains_iff_mem_names.2 h)]
    simp [names]

theorem get?_erase (b : Bindings α) (name other : String) :
    (b.erase name).get? other = if other = name then none else b.get? other := by
  have kept :
      (fun entry : String × α => decide ((entry.1 != name) = true ∧ (entry.1 == other) = true))
        = fun entry => if other = name then false else entry.1 == other := by
    funext entry
    by_cases h : entry.1 = other <;> by_cases ho : other = name <;> simp_all
  rw [erase, get?, List.find?_filter, kept]
  by_cases h : other = name <;> simp [h, get?]

theorem get?_restore (b : Bindings α) (name other : String) (a : Option α) :
    (b.restore name a).get? other = if other = name then a else b.get? other := by
  cases a with
  | some a => exact get?_insert b name other a
  | none => exact get?_erase b name other

/-- Whether two maps bind the same names to the same values, in whatever order. -/
def agrees [DecidableEq α] (a b : Bindings α) : Bool :=
  (a.names ++ b.names).all fun name => a.get? name == b.get? name

end Bindings

end ArrayCalc
