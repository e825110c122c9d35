import ArrayCalc.Evaluation
import ArrayCalc.Proofs.CanonicalResults
import ArrayCalc.Proofs.Frames
import Mathlib.Data.List.Nodup

/-!
# Elements of vectors

A subscript of integers selects one position after the other, and an index outside of the vector is
an error.  What is written there is read again: where a position is selected twice the last item
stays, and all that is not selected is kept.
-/

namespace ArrayCalc

variable {items news xs : List Scalar} {places : List Nat} {ks : List Int64} {origin : Int}
  {length : Nat} {s v : Value}

/-! ## § Subscripts -/

/-- The integers that a subscript consists of. -/
inductive Indices : Value → List Int64 → Prop
  | one (k : Int64) : Indices (.scalar (.int k)) [k]
  | many (ks : List Int64) : Indices (.vector (ks.map .int)) ks

/-- Every index lies in a vector of this length. -/
def Within (origin : Int) (length : Nat) (ks : List Int64) : Prop :=
  ∀ k ∈ ks, 0 ≤ k.toInt - origin ∧ k.toInt - origin < length

instance : Decidable (Within origin length ks) := List.decidableBAll _ ks

/-- The positions of indices that lie in a vector. -/
def offsets (origin : Int) (ks : List Int64) : List Nat :=
  ks.map fun k => (k.toInt - origin).toNat

@[simp]
theorem length_offsets (origin : Int) (ks : List Int64) : (offsets origin ks).length = ks.length :=
  List.length_map _

namespace Value

/-- The item that a value supplies for one of several places; a scalar goes to all of them. -/
def item? : Value → Nat → Option Scalar
  | .scalar s, _ => some s
  | .vector items, j => items[j]?
  | .absent, _ => none

/-- A value that can be assigned to that many places. -/
def Supplies : Value → Nat → Prop
  | .scalar _, _ => True
  | .vector items, count => items.length = count
  | .absent, _ => False

end Value

namespace Evaluation

theorem elements_indices (h : Indices s ks) : s.elements = .ok (ks.map .int) := by
  cases h <;> rfl

theorem position_int (origin : Int) (length : Nat) (k : Int64) :
    position origin length (.int k)
      = if 0 ≤ k.toInt - origin ∧ k.toInt - origin < length then .ok (k.toInt - origin).toNat
        else .shape (.indexRange k.toInt length) := rfl

/-- Indices within the vector select their positions. -/
theorem positions_within (h : Indices s ks) (within : Within origin length ks) :
    positions origin length s = .ok (offsets origin ks) := by
  have each : (ks.map Scalar.int).mapM (position origin length) = .ok (offsets origin ks) := by
    clear h
    induction ks with
    | nil => rfl
    | cons k ks ih =>
      obtain ⟨inside, others⟩ := List.forall_mem_cons.1 within
      rw [List.map_cons, List.mapM_cons, position_int, if_pos inside, ih others]
      rfl
  unfold positions
  rw [elements_indices h]
  exact each

/-- Different indices have different positions. -/
theorem nodup_offsets (within : Within origin length ks) (distinct : ks.Nodup) :
    (offsets origin ks).Nodup := by
  refine List.Nodup.map_on (fun k hk k' hk' same => ?_) distinct
  have first := within k hk
  have second := within k' hk'
  exact Int64.toInt_inj.1 (by omega)

/-- The first index outside of the vector is an error. -/
theorem positions_outside (h : Indices s ks) (outside : ¬Within origin length ks) :
    ∃ k ∈ ks, positions origin length s = .shape (.indexRange k.toInt length) := by
  have first : ∃ k ∈ ks, (ks.map Scalar.int).mapM (position origin length)
      = .shape (.indexRange k.toInt length) := by
    clear h
    induction ks with
    | nil => exact absurd nofun outside
    | cons k ks ih =>
      rw [List.map_cons, List.mapM_cons, position_int]
      by_cases inside : 0 ≤ k.toInt - origin ∧ k.toInt - origin < length
      · have others : ¬Within origin length ks := fun all =>
          outside (List.forall_mem_cons.2 ⟨inside, all⟩)
        obtain ⟨other, member, error⟩ := ih others
        refine ⟨other, List.mem_cons_of_mem k member, ?_⟩
        rw [if_pos inside, error]
        rfl
      · refine ⟨k, List.mem_cons_self, ?_⟩
        rw [if_neg inside]
        rfl
  unfold positions
  rw [elements_indices h]
  exact first

/-- The indices of all items, as far as they are words. -/
def allIndices (origin : Int) (length : Nat) : List Int64 :=
  (List.range length).map fun i : Nat => Int64.ofInt (origin + i)

theorem iota_length (origin : Int) (short : Fits64 length) :
    Primitive.iota origin (.scalar (.ofInt length))
      = .ok (.vector ((allIndices origin length).map .int)) := by
  show (if (Int64.ofInt length).toInt < 0 then .domain .negativeCount
    else .ok (.vector ((List.range (Int64.ofInt length).toInt.toNat).map
      fun i : Nat => .ofInt (origin + i))) : Result Value) = _
  rw [toInt_ofInt_of_fits short, if_neg (by omega), Int.toNat_natCast, allIndices, List.map_map]
  rfl

section

variable (fits : ∀ i < length, Fits64 (origin + i))

include fits

theorem toInt_index {i : Nat} (hi : i < length) :
    (Int64.ofInt (origin + i)).toInt - origin = i := by
  rw [toInt_ofInt_of_fits (fits i hi)]
  omega

theorem within_allIndices : Within origin length (allIndices origin length) := by
  intro k member
  obtain ⟨i, hi, rfl⟩ := List.mem_map.1 member
  rw [toInt_index fits (List.mem_range.1 hi)]
  have := List.mem_range.1 hi
  omega

theorem offsets_allIndices : offsets origin (allIndices origin length) = List.range length := by
  rw [offsets, allIndices, List.map_map]
  refine (List.map_congr_left fun i hi => ?_).trans (List.map_id _)
  show ((Int64.ofInt (origin + i)).toInt - origin).toNat = i
  rw [toInt_index fits (List.mem_range.1 hi), Int.toNat_natCast]

end

/-- The positions that are assigned to; without a subscript these are all. -/
def selected (origin : Int) (length : Nat) : Option Value → Result (List Nat)
  | none => .ok (List.range length)
  | some s => positions origin length s

theorem selected_within (h : Indices s ks) (within : Within origin length ks) :
    selected origin length (some s) = .ok (offsets origin ks) := positions_within h within

/-- Whatever is selected lies in the vector. -/
theorem selected_lt (origin : Int) (length : Nat) (chosen : Option Value) :
    Makes (selected origin length chosen) fun places => ∀ p ∈ places, p < length := by
  cases chosen with
  | none => exact .ok fun p hp => List.mem_range.1 hp
  | some s =>
    refine .andThen fun indices => .mapM fun index _ => .andThen fun i => ?_
    dsimp only
    split
    next inside => exact .ok (by omega)
    next => exact .error _

/-! ## § Replacing -/

@[simp]
theorem length_replaceAt (items : List Scalar) (changes : List (Nat × Scalar)) :
    (replaceAt items changes).length = items.length := by
  unfold replaceAt
  induction changes generalizing items with
  | nil => rfl
  | cons change changes ih => rw [List.foldl_cons, ih, List.length_set]

/-- A position without a change is kept. -/
theorem getElem?_replaceAt_of_ne {changes : List (Nat × Scalar)} {p : Nat}
    (h : ∀ change ∈ changes, change.1 ≠ p) : (replaceAt items changes)[p]? = items[p]? := by
  induction changes generalizing items with
  | nil => rfl
  | cons change changes ih =>
    obtain ⟨other, others⟩ := List.forall_mem_cons.1 h
    show (replaceAt (items.set change.1 change.2) changes)[p]? = _
    rw [ih others, List.getElem?_set_ne other]

/-- **The last change of a position stays.** -/
theorem getElem?_replaceAt_last {changes : List (Nat × Scalar)} {j p : Nat} {item : Scalar}
    (inside : p < items.length) (hj : changes[j]? = some (p, item))
    (only : ∀ i change, j < i → changes[i]? = some change → change.1 ≠ p) :
    (replaceAt items changes)[p]? = some item := by
  induction changes generalizing items j with
  | nil => exact nomatch hj
  | cons change changes ih =>
    show (replaceAt (items.set change.1 change.2) changes)[p]? = _
    cases j with
    | zero =>
      obtain rfl := Option.some.inj hj
      have others : ∀ change ∈ changes, change.1 ≠ p := by
        intro change member
        obtain ⟨i, hi⟩ := List.mem_iff_getElem?.1 member
        exact only (i + 1) change (Nat.succ_pos i) hi
      rw [getElem?_replaceAt_of_ne others, List.getElem?_set_self inside]
    | succ j =>
      refine ih (by rwa [List.length_set]) hj fun i change later hi => ?_
      exact only (i + 1) change (Nat.succ_lt_succ later) hi

/-- What becomes of the items of a vector when a value is assigned to some places. -/
structure Replaced (items : List Scalar) (places : List Nat) (v : Value) (news : List Scalar) :
    Prop where
  length : news.length = items.length
  /-- Of several items for one place the last one stays. -/
  last : ∀ j p, places[j]? = some p → (∀ i, j < i → places[i]? ≠ some p) → news[p]? = v.item? j
  others : ∀ p, p ∉ places → news[p]? = items[p]?

theorem replaced_zip (inside : ∀ p ∈ places, p < items.length) (all : xs.length = places.length) :
    Replaced items places (.vector xs) (replaceAt items (places.zip xs)) where
  length := length_replaceAt items _
  last j p hp only := by
    have within : j < xs.length := all ▸ (List.getElem?_eq_some_iff.1 hp).1
    have item : xs[j]? = some xs[j] := List.getElem?_eq_getElem within
    refine (getElem?_replaceAt_last (inside p (List.mem_of_getElem? hp))
      (List.getElem?_zip_eq_some.2 ⟨hp, item⟩) ?_).trans item.symm
    rintro i change later hi rfl
    exact only i later (List.getElem?_zip_eq_some.1 hi).1
  others p hp := by
    refine getElem?_replaceAt_of_ne fun change member => ?_
    rintro rfl
    exact hp (List.of_mem_zip member).1

/-- One item for all places is that many items. -/
theorem map_eq_zip (places : List Nat) (item : Scalar) :
    places.map (·, item) = places.zip (List.replicate places.length item) := by
  induction places with
  | nil => rfl
  | cons p places ih =>
    rw [List.map_cons, ih, List.length_cons, List.replicate_succ, List.zip_cons_cons]

theorem replaced_map (inside : ∀ p ∈ places, p < items.length) (item : Scalar) :
    Replaced items places (.scalar item) (replaceAt items (places.map (·, item))) := by
  have zip : Replaced items places (.vector (List.replicate places.length item)) _ :=
    replaced_zip inside List.length_replicate
  rw [map_eq_zip]
  refine ⟨zip.length, fun j p hp only => ?_, zip.others⟩
  have within : j < places.length := (List.getElem?_eq_some_iff.1 hp).1
  rw [zip.last j p hp only]
  simp [Value.item?, within]

section

variable {chosen : Option Value}

/-- What is assigned is put in the selected places. -/
theorem replace_eq (origin : Int) (items : List Scalar) (chosen : Option Value) (v : Value) :
    replace origin items chosen v = (do
      let places ← selected origin items.length chosen
      match v with
      | .vector news =>
        if news.length ≠ places.length then
          Result.shape (.assignmentLength places.length news.length)
        else return replaceAt items (places.zip news)
      | .scalar s => return replaceAt items (places.map (·, s))
      | .absent => Result.fault .absentElement) := by
  cases chosen <;> rfl

theorem replace_supplied (hs : selected origin items.length chosen = .ok places)
    (supplies : v.Supplies places.length) :
    ∃ news, replace origin items chosen v = .ok news ∧ Replaced items places v news := by
  have inside := selected_lt origin items.length chosen places hs
  rw [replace_eq, hs]
  cases v with
  | scalar s => exact ⟨_, rfl, replaced_map inside s⟩
  | vector xs => exact ⟨_, if_neg (not_not.2 supplies), replaced_zip inside supplies⟩
  | absent => exact supplies.elim

theorem replace_unsupplied (hs : selected origin items.length chosen = .ok places)
    (unsupplied : ¬v.Supplies places.length) :
    ∃ failure, replace origin items chosen v = .error failure := by
  rw [replace_eq, hs]
  cases v with
  | scalar s => exact absurd trivial unsupplied
  | vector xs => exact ⟨_, if_pos unsupplied⟩
  | absent => exact ⟨_, rfl⟩

theorem replace_unselected {failure : Failure}
    (hs : selected origin items.length chosen = .error failure) :
    replace origin items chosen v = .error failure := by
  rw [replace_eq, hs]
  rfl

/-- **A vector that has been assigned to has the new items in the selected places.** -/
theorem replaced_of_replace (h : replace origin items chosen v = .ok news) :
    ∃ places, selected origin items.length chosen = .ok places ∧ Replaced items places v news := by
  cases hs : selected origin items.length chosen with
  | error failure => exact nomatch (replace_unselected hs).symm.trans h
  | ok places =>
    by_cases supplies : v.Supplies places.length
    · obtain ⟨others, same, replaced⟩ := replace_supplied hs supplies
      obtain rfl := Except.ok.inj (h.symm.trans same)
      exact ⟨places, rfl, replaced⟩
    · obtain ⟨failure, error⟩ := replace_unsupplied hs supplies
      exact nomatch error.symm.trans h

end

/-! ## § Selecting -/

/-- The items at some places, known one by one. -/
theorem elementsAt_eq (each : ∀ j p : Nat, places[j]? = some p → items[p]? = xs[j]?)
    (all : xs.length = places.length) : elementsAt items places = xs := by
  induction places generalizing xs with
  | nil => exact (List.eq_nil_of_length_eq_zero all).symm
  | cons p places ih =>
    cases xs with
    | nil => exact nomatch all
    | cons x xs =>
      have first : items[p]? = some x := each 0 p rfl
      have others : elementsAt items places = xs :=
        ih (fun j p hp => each (j + 1) p hp) (Nat.succ.inj all)
      unfold elementsAt at others ⊢
      rw [List.filterMap_cons, first, others]

/-- **Different places give back what was put there.** -/
theorem Replaced.elementsAt (h : Replaced items places (.vector xs) news) (distinct : places.Nodup)
    (all : xs.length = places.length) : Evaluation.elementsAt news places = xs := by
  refine elementsAt_eq (fun j p hp => h.last j p hp fun i later hi => ?_) all
  have within : j < places.length := (List.getElem?_eq_some_iff.1 hp).1
  exact Nat.ne_of_lt later ((List.getElem?_inj within distinct).1 (hp.trans hi.symm))

/-- All places give back the vector. -/
theorem elementsAt_range (items : List Scalar) :
    elementsAt items (List.range items.length) = items := by
  refine elementsAt_eq (fun j p hp => ?_) List.length_range.symm
  obtain ⟨-, rfl⟩ := List.getElem?_eq_some_iff.1 hp
  rw [List.getElem_range]

/-- A vector of subscripts selects a vector. -/
theorem select_within (within : Within origin items.length ks) :
    select origin (.vector items) (some (.vector (ks.map .int)))
      = .ok (.vector (elementsAt items (offsets origin ks))) := by
  show (do
    let places ← positions origin items.length (.vector (ks.map .int))
    return .vector (elementsAt items places) : Result Value) = _
  rw [positions_within (.many ks) within]
  rfl

end Evaluation

end ArrayCalc
