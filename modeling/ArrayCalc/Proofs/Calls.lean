import ArrayCalc.Proofs.Agreement

/-!
# Calls

The guarded evaluator is the evaluator with a guard that looks at the workspace before and after
every tree and after every frame that is opened, and may stop the evaluation there.

One guard stops the evaluation where too many calls are active or a tree names a slot outside of the
innermost frame.  From a steady workspace it never has to: both evaluators do the same.  A call
leaves the stack as it was, even if it fails, with one exception: if a call has been given up while
its frame was opened, the size of the outermost frame stays on record.
-/

namespace ArrayCalc.Evaluation

open Workspace

/-! ## § The guarded evaluator -/

/-- A look at the workspace before or after a tree. -/
abbrev Guard := Expr → Evaluation Unit

/-- Calls an operator as `enter` does, with a look at the new frame. -/
def enterGuarded (guard : Guard) (eval : Evaluating) (f : UserOperator) (operands : List Value) :
    Evaluation Value := do
  pushFrame f operands
  guard .empty
  try
    let v ← runBody eval f.body .absent
    leave
    return v
  catch failure =>
    leave
    throw failure

section

variable [Machine]

mutual

/-- Evaluates a tree as `evaluateWithin` does, with a look at the workspace before and after it. -/
def evaluateGuarded (guard : Guard) : (depth toll : Nat) → Evaluating
  | 0, _, _ => failCall .tooDeep
  | depth + 1, toll + 1, e => evaluateGuarded guard depth toll e
  | depth + 1, 0, e => do
    guard e
    let v ← node (fun toll part => evaluateGuarded guard depth toll part)
      (fun toll f operands => callGuarded guard depth toll f operands) e
    guard e
    return v

def callGuarded (guard : Guard) : (depth toll : Nat) → Calling
  | 0, _, _, _ => failCall .tooDeep
  | depth + 1, toll + 1, f, operands => callGuarded guard depth toll f operands
  | depth + 1, 0, f, operands =>
    if depth = 0 then tear f
    else enterGuarded guard (fun part => evaluateGuarded guard depth 0 part) f operands

end

/-- Evaluates the statements of a line under a guard. -/
def evaluateLineGuarded (guard : Guard) : List Expr → Evaluation (List Value)
  | [] => return []
  | e :: rest => do
    let v ← evaluateGuarded guard Machine.calls 0 e
    let others ← evaluateLineGuarded guard rest
    return if e.isSilent || v == .absent then others else v :: others

end

/-- A guard that does nothing at trees which fit into the frame of a steady workspace, unless it
stops there. -/
def Watches (stop : Failure → Prop) (guard : Guard) : Prop :=
  ∀ w e, w.Steady → w.Fits e →
    (guard e).run w = .ok () w ∨
      ∃ failure w', stop failure ∧ (guard e).run w = .error failure w'

/-- Stops with an alarm if too many calls are active or if a tree names a slot outside of the
innermost frame. -/
def guardFrame (alarm : Failure) : Guard := fun e => do
  let w ← get
  if w.settings.maxStack < w.stack.depth ∨ w.namesOutside e = true then throw alarm

/-- Nothing happens where all is well. -/
theorem guardFrame_watches (alarm : Failure) : Watches (fun _ => False) (guardFrame alarm) := by
  intro w e hw hf
  have : ¬(w.settings.maxStack < w.stack.depth ∨ w.namesOutside e = true) := by
    rw [hf.namesOutside, not_or]
    exact ⟨by have := hw.depth; omega, by decide⟩
  refine .inl ?_
  show EStateM.run (if w.settings.maxStack < w.stack.depth ∨ w.namesOutside e = true
    then throw alarm else pure ()) w = _
  rw [if_neg this]
  rfl

/-! ## § One call -/

/-- The workspace with a new frame. -/
def entered (w : Workspace) (f : UserOperator) (operands : List Value) : Workspace :=
  { w with stack := w.stack.enter operands f.locals.length }

theorem run_bind_checkDepth {α : Type} (w : Workspace) (f : UserOperator) (x : Evaluation α) :
    (do checkDepth f; x).run w =
      if w.settings.maxStack ≤ w.stack.depth then
        .error (.error (.call (.tooDeepIn f.name))) w
      else x.run w := by
  have check : (checkDepth f).run w = EStateM.run
      (if w.settings.maxStack ≤ w.stack.depth then failCall (.tooDeepIn f.name) else pure ()) w :=
    rfl
  rw [EStateM.run_bind, check]
  by_cases full : w.settings.maxStack ≤ w.stack.depth
  · rw [if_pos full, if_pos full]
    rfl
  · rw [if_neg full, if_neg full]
    rfl

theorem run_pushFrame (w : Workspace) (f : UserOperator) (operands : List Value) :
    (pushFrame f operands).run w =
      if w.settings.maxStack ≤ w.stack.depth then
        .error (.error (.call (.tooDeepIn f.name))) w
      else .ok () (entered w f operands) :=
  run_bind_checkDepth w f _

/-- Closes the innermost frame. -/
def left (w : Workspace) : Workspace := { w with stack := w.stack.pop?.getD w.stack }

theorem enter_eq (eval : Evaluating) (f : UserOperator) (operands : List Value) :
    enter eval f operands = (do
      pushFrame f operands
      closing (runBody eval f.body .absent) left left) := rfl

theorem enterGuarded_eq (guard : Guard) (eval : Evaluating) (f : UserOperator)
    (operands : List Value) :
    enterGuarded guard eval f operands = (do
      pushFrame f operands
      guard .empty
      closing (runBody eval f.body .absent) left left) := rfl

variable {w w' : Workspace} {f : UserOperator} {operands : List Value} {failure : Failure}

theorem steady_entered (hw : w.Steady) (h : w.stack.depth < w.settings.maxStack) :
    (entered w f operands).Steady where
  depth := by
    show ((w.stack.enter operands f.locals.length).depth : Int) ≤ w.settings.maxStack
    rw [CallStack.depth_enter]
    omega
  bodies arity name g hg := by
    refine hw.bodies arity name g ?_
    rw [← hg]
    cases arity <;> rfl

/-- The trees of a body fit into the frame of a call. -/
theorem fits_entered
    (hf : ∀ name slot, .slotVar name slot ∈ f.nodes → 0 < slot ∧ slot ≤ f.locals.length) :
    ∀ e ∈ f.body, (entered w f operands).Fits e := by
  intro e he name slot hs
  obtain ⟨hpos, hle⟩ := hf name slot (Expr.nodes_subset_nodesOf he hs)
  refine ⟨hpos, ?_⟩
  show slot ≤ (w.stack.enter operands f.locals.length).room
  rwa [CallStack.room_enter]

/-- What a call leaves behind when it returns. -/
structure CallReturns (w w' : Workspace) : Prop extends SameTables w w' where
  stack : w'.stack = w.stack

theorem CallReturns.frame (h : CallReturns w w') : w.SameFrame w' where
  toSameTables := h.toSameTables
  stack := h.stack ▸ .refl _

variable [Machine]

/-- What a call leaves behind when it fails: the same, unless there is the size of a frame without
its slots. -/
inductive CallFails (w w' : Workspace) (f : UserOperator) : Failure → Prop
  | whole {failure : Failure} (h : CallReturns w w') : CallFails w w' f failure
  | torn (h : w.Torn w') (sizes : w'.stack.sizes = f.locals.length :: w.stack.sizes) :
      CallFails w w' f (.error (.call .tooDeep))

theorem CallFails.leaves (h : CallFails w w' f failure) : w.Leaves w' failure := by
  cases h with
  | whole h => exact .frame h.frame
  | torn h => exact .torn h

omit [Machine] in
/-- To close the frame of a call brings back the stack from before it. -/
theorem callReturns_left (h : (entered w f operands).SameFrame w') : CallReturns w (left w') where
  settings := h.settings
  unary := h.unary
  binary := h.binary
  definitions := h.definitions
  declared := h.declared
  bound := h.bound
  stack := by
    show w'.stack.pop?.getD w'.stack = w.stack
    rw [h.stack.pop?_enter, Option.getD_some]

/-- Where a frame has its size on record but no slots, its caller closes that one in place of its
own. -/
theorem callFails_left (h : (entered w f operands).Leaves w' failure) :
    CallFails w (left w') f failure := by
  cases h with
  | frame h => exact .whole (callReturns_left h)
  | torn h =>
    obtain ⟨size, sizes⟩ := h.sizes
    have here : (left w').stack.sizes = f.locals.length :: w.stack.sizes := by
      show (w'.stack.pop?.getD w'.stack).sizes = _
      unfold CallStack.pop?
      rw [sizes]
      rfl
    refine .torn ⟨⟨h.settings, h.unary, h.binary, h.definitions, h.declared, h.bound⟩, h.torn,
      ⟨_, here⟩, ?_⟩ here
    have depth : w'.stack.depth = (left w').stack.depth + 1 := by
      rw [CallStack.depth, CallStack.depth, sizes, here]
      rfl
    have before := h.depth
    show ((left w').stack.depth : Int) ≤ w'.settings.maxStack
    omega

theorem tear_fails (w : Workspace) (f : UserOperator) :
    Outcome (tear f) w (fun _ _ => False) fun failure w' => CallFails w w' f failure := by
  unfold tear Outcome
  rw [run_bind_checkDepth]
  by_cases full : w.settings.maxStack ≤ w.stack.depth
  · rw [if_pos full]
    exact .whole ⟨.refl w, rfl⟩
  · rw [if_neg full]
    by_cases tears : Machine.tearsFrames = true
    · rw [if_pos tears]
      refine .torn ⟨(SameTables.refl w).setStack _, tears, ⟨_, rfl⟩, ?_⟩ rfl
      show ((w.stack.reserve f.locals.length).depth : Int) ≤ w.settings.maxStack
      rw [CallStack.depth_reserve]
      omega
    · rw [if_neg tears]
      exact .whole ⟨.refl w, rfl⟩

variable {stop : Failure → Prop} {guard : Guard}

/-- A guard in front of the second computation. -/
theorem Agree.guarded {α : Type} {w₀ : Workspace} {e : Expr} {x y : Evaluation α}
    (watches : Watches stop guard) (hw : w.Steady) (hf : w.Fits e) (h : Agree stop w₀ w x y) :
    Agree stop w₀ w x (do guard e; y) := by
  refine ⟨?_, h.2⟩
  rcases watches w e hw hf with quiet | ⟨failure, w', stopped, run⟩
  · rw [run_bind_ok quiet]
    exact h.1
  · exact .inr ⟨failure, w', stopped, run_bind_error run _⟩

/-- Two ways to call an operator agree, and this is what the first one leaves behind. -/
def CallAgrees (stop : Failure → Prop) (w : Workspace) (f : UserOperator)
    (x y : Evaluation Value) : Prop :=
  (x.run w = y.run w ∨ ∃ failure w', stop failure ∧ y.run w = .error failure w') ∧
    Outcome x w (fun _ w' => CallReturns w w') fun failure w' => CallFails w w' f failure

theorem CallAgrees.agree {w₀ : Workspace} {x y : Evaluation Value} (h : CallAgrees stop w f x y)
    (hw : w₀.SameFrame w) : Agree stop w₀ w x y :=
  ⟨h.1, h.2.mono (fun _ _ k => hw.trans k.frame) fun _ _ k => hw.leaves k.leaves⟩

theorem enter_agrees {eval eval' : Evaluating} (watches : Watches stop guard) (hw : w.Steady)
    (hf : ∀ name slot, .slotVar name slot ∈ f.nodes → 0 < slot ∧ slot ≤ f.locals.length)
    (he : w.stack.depth < w.settings.maxStack →
      EvaluatingAgrees stop (entered w f operands) eval eval') :
    CallAgrees stop w f (enter eval f operands) (enterGuarded guard eval' f operands) := by
  rw [enter_eq, enterGuarded_eq]
  have pushed := run_pushFrame w f operands
  by_cases full : w.settings.maxStack ≤ w.stack.depth
  · rw [if_pos full] at pushed
    constructor
    · rw [run_bind_error pushed, run_bind_error pushed]
      exact .inl rfl
    · unfold Outcome
      rw [run_bind_error pushed]
      exact .whole ⟨.refl w, rfl⟩
  · rw [if_neg full] at pushed
    have room : w.stack.depth < w.settings.maxStack := by omega
    have body := runBody_agrees (he room) (fits_entered hf) .absent _ (.refl _)
    constructor
    · rw [run_bind_ok pushed, run_bind_ok pushed]
      rcases watches _ .empty (steady_entered hw room) (by simp [Fits, Expr.nodes]) with
        quiet | ⟨failure, w', stopped, run⟩
      · rw [run_bind_ok quiet, run_closing, run_closing]
        rcases body.1 with same | ⟨failure, w', stopped, run⟩
        · rw [same]
          exact .inl rfl
        · rw [run]
          exact .inr ⟨failure, _, stopped, rfl⟩
      · exact .inr ⟨failure, w', stopped, run_bind_error run _⟩
    · unfold Outcome
      rw [run_bind_ok pushed]
      exact outcome_closing (body.2.mono (fun _ _ h => callReturns_left h)
        fun _ _ h => callFails_left h)

/-! ## § All calls -/

theorem node_guarded {depth : Nat} {e : Expr} (watches : Watches stop guard) (hw : w.Steady)
    (hf : w.Fits e)
    (he : ∀ toll, EvaluatingAgrees stop w (evaluateWithin depth toll)
      (evaluateGuarded guard depth toll))
    (hc : ∀ toll, CallingAgrees stop w (callWithin depth toll) (callGuarded guard depth toll)) :
    Agrees stop w (evaluateWithin (depth + 1) 0 e) (evaluateGuarded guard (depth + 1) 0 e) := by
  intro w' hw'
  rw [evaluateWithin, evaluateGuarded, ← bind_pure (node _ _ e)]
  refine .guarded watches (hw.of_sameFrame hw') (hf.of_sameFrame hw') ?_
  refine (node_agrees he hc hf w' hw').bind fun v w'' hw'' => ?_
  exact .guarded watches (hw.of_sameFrame hw'') (hf.of_sameFrame hw'') (.pure hw'')

/-- **The guarded evaluator does the same as the evaluator**, at whatever depth, unless the guard
stops it. -/
theorem guarded_agrees (watches : Watches stop guard) (depth toll : Nat) :
    (∀ w, w.Steady → EvaluatingAgrees stop w (evaluateWithin depth toll)
      (evaluateGuarded guard depth toll)) ∧
    ∀ w, w.Steady → ∀ f operands,
      (∀ name slot, .slotVar name slot ∈ f.nodes → 0 < slot ∧ slot ≤ f.locals.length) →
        CallAgrees stop w f (callWithin depth toll f operands)
          (callGuarded guard depth toll f operands) := by
  induction depth generalizing toll with
  | zero =>
    constructor
    · intro w _ e _
      rw [evaluateWithin, evaluateGuarded]
      exact .fail _
    · intro w _ f operands _
      rw [callWithin, callGuarded]
      exact ⟨.inl rfl, .whole ⟨.refl w, rfl⟩⟩
  | succ depth ih =>
    cases toll with
    | succ toll =>
      constructor
      · intro w hw e hf
        rw [evaluateWithin, evaluateGuarded]
        exact (ih toll).1 w hw e hf
      · intro w hw f operands hf
        rw [callWithin, callGuarded]
        exact (ih toll).2 w hw f operands hf
    | zero =>
      constructor
      · intro w hw e hf
        refine node_guarded watches hw hf (fun toll => (ih toll).1 w hw) ?_
        intro toll arity name f hbound operands w' hw'
        exact ((ih toll).2 w' (hw.of_sameFrame hw') f operands
          (hw.bodies arity name f hbound)).agree hw'
      · intro w hw f operands hf
        rw [callWithin, callGuarded]
        split
        · exact ⟨.inl rfl, (tear_fails w f).mono (fun _ _ k => k.elim) fun _ _ k => k⟩
        · exact enter_agrees watches hw hf fun room => (ih 0).1 _ (steady_entered hw room)

/-! ## § Lines -/

/-- A line of trees that fit into the innermost frame stays in it. -/
theorem evaluateLine_agrees (watches : Watches stop guard) (hw : w.Steady) {es : List Expr}
    (hf : ∀ e ∈ es, w.Fits e) :
    Agrees stop w (evaluateLine es) (evaluateLineGuarded guard es) := by
  induction es with
  | nil => exact .pure _
  | cons e es ih =>
    refine .bind ((guarded_agrees watches _ _).1 w hw e (hf e List.mem_cons_self)) fun v => ?_
    exact .bind (ih fun e' hm => hf e' (List.mem_cons_of_mem e hm)) fun others => .pure _

end ArrayCalc.Evaluation
