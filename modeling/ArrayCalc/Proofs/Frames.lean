import ArrayCalc.Evaluation
import ArrayCalc.Proofs.Outcome
import ArrayCalc.Proofs.Scope

/-!
# Frames

While a body runs, the stack keeps its shape: calls open and close frames of their own, and what
lies below the innermost frame is out of reach.  `SameFrame` is all that stays between two moments
of a body.

A failure leaves the frame as well, with one exception.  When a call is given up while its frame is
opened, the size of that frame stays on record.  Every call around it then closes a frame of the
wrong size, so that the stack ends up with one size too many, and nothing can be said of its slots.
-/

namespace ArrayCalc

namespace CallStack

/-- How many slots of the innermost frame there are. -/
def room (s : CallStack) : Nat := min (s.sizes.headD 0) s.slots.length

theorem room_of_nil {s : CallStack} (h : s.sizes = []) : s.room = 0 := by
  rw [room, h]
  exact Nat.zero_min _

/-- Two stacks that differ in the values of the innermost frame only. -/
structure SameShape (s t : CallStack) : Prop where
  sizes : t.sizes = s.sizes
  length : t.slots.length = s.slots.length
  below : t.slots.take s.base = s.slots.take s.base

theorem SameShape.refl (s : CallStack) : s.SameShape s := ⟨rfl, rfl, rfl⟩

theorem SameShape.base {s t : CallStack} (h : s.SameShape t) : t.base = s.base := by
  rw [CallStack.base, h.sizes, h.length, CallStack.base]

theorem SameShape.trans {s t u : CallStack} (h : s.SameShape t) (k : t.SameShape u) :
    s.SameShape u where
  sizes := k.sizes.trans h.sizes
  length := k.length.trans h.length
  below := by
    have below := k.below
    rw [h.base] at below
    exact below.trans h.below

theorem SameShape.room {s t : CallStack} (h : s.SameShape t) : t.room = s.room := by
  rw [CallStack.room, h.sizes, h.length, CallStack.room]

theorem SameShape.depth {s t : CallStack} (h : s.SameShape t) : t.depth = s.depth := by
  rw [CallStack.depth, h.sizes, CallStack.depth]

/-- An empty stack has one shape. -/
theorem SameShape.eq_empty {t : CallStack} (h : CallStack.empty.SameShape t) :
    t = CallStack.empty := by
  obtain ⟨sizes, slots⟩ := t
  obtain rfl : sizes = [] := h.sizes
  obtain rfl : slots = [] := List.eq_nil_of_length_eq_zero h.length
  rfl

theorem SameShape.setSlot? {s t u : CallStack} (h : s.SameShape t) {slot : Nat} {v : Value}
    (ht : t.setSlot? slot v = some u) : s.SameShape u := by
  refine h.trans ?_
  unfold CallStack.setSlot? at ht
  split at ht
  · exact nomatch ht
  · obtain rfl := Option.some.inj ht
    exact ⟨rfl, List.length_set, List.take_set_of_le (Nat.le_add_right _ _)⟩

theorem base_enter (s : CallStack) (operands : List Value) (size : Nat) :
    (s.enter operands size).base = s.slots.length := by
  simp [base, enter, reserve]

/-- Closing the frame of a call brings back the stack from before it. -/
theorem SameShape.pop?_enter {s t : CallStack} {operands : List Value} {size : Nat}
    (h : (s.enter operands size).SameShape t) : t.pop? = some s := by
  have sizes : t.sizes = size :: s.sizes := h.sizes
  have length : t.slots.length = s.slots.length + size := by
    rw [h.length]
    simp [enter]
  have below := h.below
  rw [base_enter] at below
  have slots : t.slots.take s.slots.length = s.slots := by
    rw [below, enter]
    exact List.take_left
  unfold pop? keeping
  rw [sizes, length]
  dsimp only
  rw [if_pos (Nat.le_add_left _ _), Nat.add_sub_cancel, slots]

/-- A new frame has all of its slots. -/
theorem room_enter (s : CallStack) (operands : List Value) (size : Nat) :
    (s.enter operands size).room = size := by
  simp [room, enter, reserve]

/-- A slot that there is can be read and filled. -/
theorem exists_slot {s : CallStack} {slot : Nat} (pos : 0 < slot) (le : slot ≤ s.room)
    (v : Value) : (∃ w, s.slot? slot = some w) ∧ ∃ t, s.setSlot? slot v = some t := by
  have frames : s.sizes ≠ [] := fun none => by
    rw [room_of_nil none] at le
    omega
  have inside : s.base + (slot - 1) < s.slots.length := by
    unfold room at le
    unfold base
    omega
  have there : s.slot? slot = some s.slots[s.base + (slot - 1)] := by
    rw [slot?, if_neg (by rw [not_or]; exact ⟨frames, by omega⟩)]
    exact List.getElem?_eq_getElem inside
  exact ⟨⟨_, there⟩, exists_setSlot? there v⟩

end CallStack

namespace Workspace

/-- What no evaluation changes. -/
structure SameTables (w w' : Workspace) : Prop where
  settings : w'.settings = w.settings
  unary : w'.unary = w.unary
  binary : w'.binary = w.binary
  definitions : w'.definitions = w.definitions
  declared : w'.declared = w.declared
  bound : ∀ name, (w.global? name).isSome → (w'.global? name).isSome

namespace SameTables

variable {w w' : Workspace}

theorem refl (w : Workspace) : w.SameTables w := ⟨rfl, rfl, rfl, rfl, rfl, fun _ h => h⟩

theorem trans {w'' : Workspace} (h : w.SameTables w') (k : w'.SameTables w'') :
    w.SameTables w'' where
  settings := k.settings.trans h.settings
  unary := k.unary.trans h.unary
  binary := k.binary.trans h.binary
  definitions := k.definitions.trans h.definitions
  declared := k.declared.trans h.declared
  bound name hb := k.bound name (h.bound name hb)

theorem userOperator? (h : w.SameTables w') (arity : Arity) (name : String) :
    w'.userOperator? arity name = w.userOperator? arity name := by
  cases arity
  · show w'.unary.get? name = w.unary.get? name
    rw [h.unary]
  · show w'.binary.get? name = w.binary.get? name
    rw [h.binary]

theorem setGlobal (h : w.SameTables w') (name : String) (v : Value) :
    w.SameTables (w'.setGlobal name v) where
  settings := h.settings
  unary := h.unary
  binary := h.binary
  definitions := h.definitions
  declared := h.declared
  bound other hb := by
    show ((w'.globals.insert name v).get? other).isSome
    rw [Bindings.get?_insert]
    split
    · rfl
    · exact h.bound other hb

theorem setStack (h : w.SameTables w') (stack : CallStack) :
    w.SameTables { w' with stack := stack } := { h with }

theorem setDice (h : w.SameTables w') (dice : Dice) : w.SameTables { w' with dice := dice } :=
  { h with }

end SameTables

/-- What stays the same while the innermost frame does. -/
structure SameFrame (w w' : Workspace) : Prop extends SameTables w w' where
  stack : w.stack.SameShape w'.stack

namespace SameFrame

variable {w w' : Workspace}

theorem refl (w : Workspace) : w.SameFrame w := ⟨.refl w, .refl _⟩

theorem trans {w'' : Workspace} (h : w.SameFrame w') (k : w'.SameFrame w'') : w.SameFrame w'' :=
  ⟨h.toSameTables.trans k.toSameTables, h.stack.trans k.stack⟩

theorem setGlobal (h : w.SameFrame w') (name : String) (v : Value) :
    w.SameFrame (w'.setGlobal name v) := ⟨h.toSameTables.setGlobal name v, h.stack⟩

theorem setSlot? (h : w.SameFrame w') {slot : Nat} {v : Value} {stack : CallStack}
    (hs : w'.stack.setSlot? slot v = some stack) : w.SameFrame { w' with stack := stack } :=
  ⟨h.setStack stack, h.stack.setSlot? hs⟩

theorem setDice (h : w.SameFrame w') (dice : Dice) : w.SameFrame { w' with dice := dice } :=
  ⟨h.toSameTables.setDice dice, h.stack⟩

end SameFrame

/-! ## § Failures -/

section

variable [Machine]

/-- What is left after a call has been given up while its frame was opened. -/
structure Torn (w w' : Workspace) : Prop extends SameTables w w' where
  torn : Machine.tearsFrames = true
  sizes : ∃ size, w'.stack.sizes = size :: w.stack.sizes
  depth : w'.stack.depth ≤ w'.settings.maxStack

/-- What a failure leaves behind. -/
inductive Leaves (w w' : Workspace) : Failure → Prop
  | frame {failure : Failure} (h : w.SameFrame w') : Leaves w w' failure
  | torn (h : w.Torn w') : Leaves w w' (.error (.call .tooDeep))

variable {w w' w'' : Workspace} {failure : Failure}

theorem SameFrame.torn (h : w.SameFrame w') (k : w'.Torn w'') : w.Torn w'' where
  toSameTables := h.toSameTables.trans k.toSameTables
  torn := k.torn
  sizes := by
    rw [← h.stack.sizes]
    exact k.sizes
  depth := k.depth

/-- What comes before a failure in the same frame does not matter. -/
theorem SameFrame.leaves (h : w.SameFrame w') (k : w'.Leaves w'' failure) :
    w.Leaves w'' failure := by
  cases k with
  | frame k => exact .frame (h.trans k)
  | torn k => exact .torn (h.torn k)

theorem Leaves.tables (h : w.Leaves w' failure) : w.SameTables w' := by
  cases h with
  | frame h => exact h.toSameTables
  | torn h => exact h.toSameTables

end

/-- Every slot that a tree names lies in the innermost frame. -/
def Fits (w : Workspace) (e : Expr) : Prop :=
  ∀ name slot, .slotVar name slot ∈ e.nodes → 0 < slot ∧ slot ≤ w.stack.room

theorem Fits.of_sameFrame {w w' : Workspace} {e : Expr} (h : w.Fits e) (hw : w.SameFrame w') :
    w'.Fits e := by
  intro name slot hs
  rw [hw.stack.room]
  exact h name slot hs

theorem Fits.part {w : Workspace} {e part : Expr} (h : w.Fits e) (hp : part.nodes ⊆ e.nodes) :
    w.Fits part :=
  fun name slot hs => h name slot (hp hs)

/-- Whether some slot that a tree names lies outside of the innermost frame. -/
def namesOutside (w : Workspace) (e : Expr) : Bool :=
  e.nodes.any fun
    | .slotVar _ slot => slot = 0 || w.stack.room < slot
    | _ => false

theorem Fits.namesOutside {w : Workspace} {e : Expr} (h : w.Fits e) : w.namesOutside e = false := by
  unfold Workspace.namesOutside
  rw [List.any_eq_false]
  intro node hn
  split
  next name slot =>
    obtain ⟨hpos, hle⟩ := h name slot hn
    simp
    omega
  next => simp

/-- A workspace that can go on: the calls that are active are not too many, and the slots that the
stored operators name have a place in their frames. -/
structure Steady (w : Workspace) : Prop where
  depth : w.stack.depth ≤ w.settings.maxStack
  bodies : ∀ arity name f, w.userOperator? arity name = some f →
    ∀ name slot, .slotVar name slot ∈ f.nodes → 0 < slot ∧ slot ≤ f.locals.length

theorem Steady.of_sameFrame {w w' : Workspace} (h : w.Steady) (hw : w.SameFrame w') :
    w'.Steady where
  depth := by
    rw [hw.stack.depth, hw.settings]
    exact h.depth
  bodies arity name f hf := by
    rw [hw.userOperator?] at hf
    exact h.bodies arity name f hf

/-- No failure leaves more calls active than may be. -/
theorem Steady.depth_of_leaves [Machine] {w w' : Workspace} {failure : Failure} (h : w.Steady)
    (hw : w.Leaves w' failure) : w'.stack.depth ≤ w'.settings.maxStack := by
  cases hw with
  | frame hw => exact (h.of_sameFrame hw).depth
  | torn hw => exact hw.depth

end Workspace

end ArrayCalc
