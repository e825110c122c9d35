/-!
# Outcomes

What holds after a computation that changes a state and may fail: one thing of its result and the
state then, and another of the state that a failure leaves behind.
-/

namespace ArrayCalc

variable {ε σ α β : Type} {s : σ}

def Outcome (x : EStateM ε σ α) (s : σ) (Q : α → σ → Prop) (E : ε → σ → Prop) : Prop :=
  match x.run s with
  | .ok a s' => Q a s'
  | .error e s' => E e s'

namespace Outcome

variable {Q : β → σ → Prop} {P : α → σ → Prop} {E : ε → σ → Prop}

theorem mono {P' : α → σ → Prop} {E' : ε → σ → Prop} {x : EStateM ε σ α} (h : Outcome x s P' E')
    (hP : ∀ a s', P' a s' → P a s') (hE : ∀ e s', E' e s' → E e s') : Outcome x s P E := by
  unfold Outcome at h ⊢
  cases hx : x.run s with
  | ok a s' =>
    rw [hx] at h
    exact hP a s' h
  | error e s' =>
    rw [hx] at h
    exact hE e s' h

/-- Two things that hold after the same computation. -/
theorem and {P₁ P₂ : α → σ → Prop} {E₁ E₂ : ε → σ → Prop} {x : EStateM ε σ α}
    (h : Outcome x s P₁ E₁) (k : Outcome x s P₂ E₂) (hP : ∀ a s', P₁ a s' → P₂ a s' → P a s')
    (hE : ∀ e s', E₁ e s' → E₂ e s' → E e s') : Outcome x s P E := by
  unfold Outcome at h k ⊢
  cases hx : x.run s with
  | ok a s' =>
    rw [hx] at h k
    exact hP a s' h k
  | error e s' =>
    rw [hx] at h k
    exact hE e s' h k

theorem of_run {x y : EStateM ε σ α} (h : Outcome y s P E) (same : x.run s = y.run s) :
    Outcome x s P E := by
  unfold Outcome at h ⊢
  rwa [same]

theorem pure {a : α} (h : P a s) : Outcome (Pure.pure a) s P E := h

theorem throw {e : ε} (h : E e s) : Outcome (throw e : EStateM ε σ α) s P E := h

theorem bind {x : EStateM ε σ α} {f : α → EStateM ε σ β} (hx : Outcome x s P E)
    (hf : ∀ a s', P a s' → Outcome (f a) s' Q E) : Outcome (x >>= f) s Q E := by
  unfold Outcome at hx ⊢
  rw [EStateM.run_bind]
  cases h : x.run s with
  | ok a s' =>
    rw [h] at hx
    exact hf a s' hx
  | error e s' =>
    rw [h] at hx
    exact hx

/-- The state as it is. -/
theorem get {f : σ → EStateM ε σ β} (h : Outcome (f s) s Q E) :
    Outcome (MonadState.get >>= f) s Q E := h

theorem set {s' : σ} {f : PUnit → EStateM ε σ β} (h : Outcome (f ⟨⟩) s' Q E) :
    Outcome (MonadStateOf.set s' >>= f) s Q E := h

theorem modify {g : σ → σ} {f : PUnit → EStateM ε σ β} (h : Outcome (f ⟨⟩) (g s) Q E) :
    Outcome (modifyThe σ g >>= f) s Q E := h

theorem of_ok {x : EStateM ε σ α} {a : α} {s' : σ} (h : Outcome x s P E)
    (hx : x.run s = .ok a s') : P a s' := by
  unfold Outcome at h
  rw [hx] at h
  exact h

theorem of_error {x : EStateM ε σ α} {e : ε} {s' : σ} (h : Outcome x s P E)
    (hx : x.run s = .error e s') : E e s' := by
  unfold Outcome at h
  rw [hx] at h
  exact h

end Outcome

/-! ## § Two steps -/

section

variable {s' : σ} {x : EStateM ε σ α}

theorem run_bind_ok {a : α} (hx : x.run s = .ok a s') (f : α → EStateM ε σ β) :
    (x >>= f).run s = (f a).run s' := by
  rw [EStateM.run_bind, hx]

theorem run_bind_error {e : ε} (hx : x.run s = .error e s') (f : α → EStateM ε σ β) :
    (x >>= f).run s = .error e s' := by
  rw [EStateM.run_bind, hx]

/-- Two steps that succeed, one after the other. -/
theorem bind_ok {f : α → EStateM ε σ β} {b : β} (h : (x >>= f).run s = .ok b s') :
    ∃ a s₁, x.run s = .ok a s₁ ∧ (f a).run s₁ = .ok b s' := by
  rw [EStateM.run_bind] at h
  cases hx : x.run s with
  | ok a s₁ =>
    rw [hx] at h
    exact ⟨a, s₁, rfl, h⟩
  | error =>
    rw [hx] at h
    exact nomatch h

end

/-! ## § Something to do at the end -/

/-- A computation with something to do after it, whether it succeeds or fails. -/
def closing (x : EStateM ε σ α) (done undone : σ → σ) : EStateM ε σ α := do
  try
    let a ← x
    modify done
    return a
  catch e =>
    modify undone
    throw e

theorem run_closing (x : EStateM ε σ α) (done undone : σ → σ) (s : σ) :
    (closing x done undone).run s =
      match x.run s with
      | .ok a s' => .ok a (done s')
      | .error e s' => .error e (undone s') := by
  unfold closing EStateM.run
  simp only [Bind.bind, tryCatchThe, tryCatch, MonadExceptOf.tryCatch]
  delta EStateM.tryCatch EStateM.bind
  dsimp only
  cases x s <;> rfl

theorem outcome_closing {P : α → σ → Prop} {E : ε → σ → Prop} {x : EStateM ε σ α}
    {done undone : σ → σ}
    (hx : Outcome x s (fun a s' => P a (done s')) fun e s' => E e (undone s')) :
    Outcome (closing x done undone) s P E := by
  unfold Outcome at hx ⊢
  rw [run_closing]
  cases h : x.run s with
  | ok a s' =>
    rw [h] at hx
    exact hx
  | error e s' =>
    rw [h] at hx
    exact hx

end ArrayCalc
