import ArrayCalc.Value

/-!
# The call stack

One row of slots, with the sizes of the frames that it is made of.  A call opens a frame at the end
of the row and closes it when it ends, so what lies below is out of its reach.

Opening a frame takes two steps.  A call that is given up between them has its size on record but no
slots, and then the frames below are closed by the wrong sizes.
-/

namespace ArrayCalc

structure CallStack where
  /-- The sizes of the frames, the innermost first. -/
  sizes : List Nat
  /-- All slots, those of the outermost frame first. -/
  slots : List Value
deriving DecidableEq

namespace CallStack

def empty : CallStack := ⟨[], []⟩

def depth (s : CallStack) : Nat := s.sizes.length

/-- Puts the size of a frame on record. -/
def reserve (s : CallStack) (size : Nat) : CallStack := { s with sizes := size :: s.sizes }

@[simp]
theorem depth_reserve (s : CallStack) (size : Nat) : (s.reserve size).depth = s.depth + 1 := rfl

/-- The slots of a new frame: the operands fill the first ones, and the others are absent. -/
def fresh (operands : List Value) (size : Nat) : List Value :=
  (operands ++ List.replicate (size - operands.length) Value.absent).take size

@[simp]
theorem length_fresh (operands : List Value) (size : Nat) : (fresh operands size).length = size := by
  rw [fresh, List.length_take, List.length_append, List.length_replicate]
  omega

/-- Opens a frame of `size` slots. -/
def enter (s : CallStack) (operands : List Value) (size : Nat) : CallStack :=
  { s.reserve size with slots := s.slots ++ fresh operands size }

@[simp]
theorem depth_enter (s : CallStack) (operands : List Value) (size : Nat) :
    (s.enter operands size).depth = s.depth + 1 := rfl

/-- How many slots of a row of some length are left when a frame is closed.  A size beyond the row
is counted from its start and then once more from its end. -/
def keeping (length size : Nat) : Nat :=
  if size ≤ length then length - size else 2 * length - size

/-- Closes the innermost frame. -/
def pop? (s : CallStack) : Option CallStack :=
  match s.sizes with
  | [] => none
  | size :: callers => some ⟨callers, s.slots.take (keeping s.slots.length size)⟩

/-- Where the innermost frame begins. -/
def base (s : CallStack) : Nat := s.slots.length - s.sizes.headD 0

/-- The value in a slot of the innermost frame, counted from one. -/
def slot? (s : CallStack) (slot : Nat) : Option Value :=
  if s.sizes = [] ∨ slot = 0 then none else s.slots[s.base + (slot - 1)]?

/-- Fills a slot of the innermost frame; nothing if there is no such slot. -/
def setSlot? (s : CallStack) (slot : Nat) (v : Value) : Option CallStack :=
  if s.sizes = [] ∨ slot = 0 ∨ s.slots.length ≤ s.base + (slot - 1) then none
  else some { s with slots := s.slots.set (s.base + (slot - 1)) v }

theorem base_of_setSlot? {s t : CallStack} {slot : Nat} {v : Value}
    (h : s.setSlot? slot v = some t) : t.base = s.base := by
  unfold setSlot? at h
  split at h
  · exact nomatch h
  next =>
    obtain rfl := Option.some.inj h
    rw [base, base, List.length_set]

/-- A stack with a slot has a frame. -/
theorem depth_ne_zero_of_slot? {s : CallStack} {slot : Nat} {v : Value}
    (h : s.slot? slot = some v) : s.depth ≠ 0 := by
  unfold slot? at h
  split at h
  · exact nomatch h
  next there => exact fun none => there (.inl (List.eq_nil_of_length_eq_zero none))

/-- A slot that is there can be filled. -/
theorem exists_setSlot? {s : CallStack} {slot : Nat} {u : Value} (h : s.slot? slot = some u)
    (v : Value) : ∃ t, s.setSlot? slot v = some t := by
  unfold slot? at h
  split at h
  · exact nomatch h
  next there =>
    rw [not_or] at there
    obtain ⟨inside, -⟩ := List.getElem?_eq_some_iff.1 h
    refine ⟨_, if_neg ?_⟩
    rw [not_or, not_or]
    exact ⟨there.1, there.2, by omega⟩

/-- Filling a slot changes no other one. -/
theorem slot?_setSlot? {s t : CallStack} {slot : Nat} {v : Value}
    (h : s.setSlot? slot v = some t) (other : Nat) :
    t.slot? other = if other = slot then some v else s.slot? other := by
  have base := base_of_setSlot? h
  unfold setSlot? at h
  split at h
  · exact nomatch h
  next there =>
    rw [not_or, not_or] at there
    obtain ⟨frames, positive, inside⟩ := there
    obtain rfl := Option.some.inj h
    unfold slot?
    rw [base]
    dsimp only
    by_cases same : other = slot
    · subst same
      rw [if_neg (by rw [not_or]; exact ⟨frames, positive⟩), if_pos rfl,
        List.getElem?_set_self (by omega)]
    · rw [if_neg same]
      split
      · rfl
      · rename_i here
        rw [List.getElem?_set_ne]
        intro clash
        rw [not_or] at here
        exact same (by omega)

/-! ## § Any slot of the row -/

/-- Where a slot lies in the row, counted from one at the start of the innermost frame.  Slots of
the frames below have numbers from zero down, and before the outermost one the row is entered from
its end. -/
def position? (s : CallStack) (slot : Int) : Option Nat :=
  let total := s.slots.length
  let place : Int := total - s.sizes.headD 0 + slot - 1
  let place := if place < 0 then place + total else place
  if 0 ≤ place ∧ place < total then some place.toNat else none

/-- Looks into any frame. -/
def inspect? (s : CallStack) (slot : Int) : Option Value := do
  s.slots[← s.position? slot]?

/-- Changes a slot of any frame. -/
def alter? (s : CallStack) (slot : Int) (v : Value) : Option CallStack := do
  let place ← s.position? slot
  return { s with slots := s.slots.set place v }

end CallStack

end ArrayCalc
