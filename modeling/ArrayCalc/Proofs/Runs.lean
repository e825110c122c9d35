import ArrayCalc.Proofs.Situations

/-!
# Runs

An evaluation of a text and a run with commands and files do nothing but take the steps of a session,
whatever the host does: every result and every failure of theirs comes of a line in a situation that
steps lead to.  So all that is true of situations is true of evaluations and runs.
-/

namespace ArrayCalc

/-! ## § Results that always have a property -/

section

variable {m : Type → Type} {α β : Type}

/-- Every result of a computation has a property, whatever the monad does. -/
def Always [Functor m] (x : m α) (P : α → Prop) : Prop :=
  ∃ y : m { a // P a }, Subtype.val <$> y = x

namespace Always

variable [Monad m] [LawfulMonad m] {P : α → Prop} {Q : β → Prop}

theorem pure {a : α} (h : P a) : Always (Pure.pure a : m α) P :=
  ⟨Pure.pure ⟨a, h⟩, map_pure _ _⟩

theorem trivial (x : m α) : Always x fun _ => True :=
  ⟨(fun a => ⟨a, True.intro⟩) <$> x, by rw [← comp_map]; exact id_map x⟩

theorem bind {x : m α} {f : α → m β} (hx : Always x P) (hf : ∀ a, P a → Always (f a) Q) :
    Always (x >>= f) Q := by
  obtain ⟨y, rfl⟩ := hx
  have chosen := fun a : { a // P a } => (hf a.1 a.2).choose_spec
  refine ⟨y >>= fun a => (hf a.1 a.2).choose, ?_⟩
  rw [map_bind, bind_map_left]
  exact congrArg (y >>= ·) (funext chosen)

theorem mono {P' : α → Prop} {x : m α} (h : Always x P') (sub : ∀ a, P' a → P a) :
    Always x P := by
  have := h.bind (f := Pure.pure) (Q := P) fun a ha => .pure (sub a ha)
  rwa [bind_pure] at this

end Always

end

namespace Session

open Workspace

variable {settings : Settings} {w w' : Workspace} {s s' : Source} {ss : List Source}

/-! ## § Evaluations -/

section

variable [Machine]

/-- An evaluation that has begun leads to the situation after it.  Its values are those of a line on
the way, or the ones that there were before, and a failure is that of a line. -/
theorem evaluateLines_leads (count : Nat) (s : Source) (w : Workspace) (vs : List Value) :
    Leads ⟨s :: ss, w⟩ ⟨ss, (evaluateLines count s w vs).2⟩ ∧
    (∀ us, (evaluateLines count s w vs).1 = .ok us → us = vs ∨ ∃ s' w',
      Leads ⟨s :: ss, w⟩ ⟨s' :: ss, w'⟩ ∧ (respond s' w').1 = .ok (.values us)) ∧
    ∀ failure, (evaluateLines count s w vs).1 = .error failure → ∃ s' w',
      Leads ⟨s :: ss, w⟩ ⟨s' :: ss, w'⟩ ∧ (respond s' w').1 = .error failure := by
  induction count generalizing s w vs with
  | zero =>
    refine ⟨.single (.closed s ss w), fun us hu => .inl ?_, nofun⟩
    exact (Except.ok.inj hu).symm
  | succ count ih =>
    have line : Leads ⟨s :: ss, w⟩ ⟨(respond s w).2.1 :: ss, (respond s w).2.2⟩ :=
      .single (.line _ s ss w)
    unfold evaluateLines
    split
    next failure s₁ w₁ hr =>
      rw [hr] at line
      refine ⟨line.tail (.closed s₁ ss w₁), nofun, ?_⟩
      rintro _ ⟨⟩
      exact ⟨s, w, .refl, congrArg Prod.fst hr⟩
    next s₁ w₁ hr =>
      rw [hr] at line
      refine ⟨line.tail (.closed s₁ ss w₁), fun us hu => .inl ?_, nofun⟩
      exact (Except.ok.inj hu).symm
    next news s₁ w₁ hr =>
      rw [hr] at line
      obtain ⟨leads, values, failures⟩ := ih s₁ w₁ news
      refine ⟨line.trans leads, fun us hu => ?_, fun failure hf => ?_⟩
      · rcases values us hu with rfl | ⟨s₂, w₂, l, answer⟩
        · exact .inr ⟨s, w, .refl, congrArg Prod.fst hr⟩
        · exact .inr ⟨s₂, w₂, line.trans l, answer⟩
      · obtain ⟨s₂, w₂, l, answer⟩ := failures failure hf
        exact ⟨s₂, w₂, line.trans l, answer⟩
    next other s₁ w₁ _ _ hr =>
      rw [hr] at line
      obtain ⟨leads, values, failures⟩ := ih s₁ w₁ vs
      refine ⟨line.trans leads, fun us hu => ?_, fun failure hf => ?_⟩
      · refine (values us hu).imp_right ?_
        rintro ⟨s₂, w₂, l, answer⟩
        exact ⟨s₂, w₂, line.trans l, answer⟩
      · obtain ⟨s₂, w₂, l, answer⟩ := failures failure hf
        exact ⟨s₂, w₂, line.trans l, answer⟩

/-- **An evaluation takes the steps of a session**, and what comes of it comes of a line. -/
theorem evaluate_leads (text : List Char) (ss : List Source) (w : Workspace) :
    Leads ⟨ss, w⟩ ⟨ss, (evaluate text w).2⟩ ∧
    (∀ vs, (evaluate text w).1 = .ok vs → vs = [] ∨ ∃ s w',
      Leads ⟨ss, w⟩ ⟨s :: ss, w'⟩ ∧ (respond s w').1 = .ok (.values vs)) ∧
    ∀ failure, (evaluate text w).1 = .error failure → ∃ s w',
      Leads ⟨ss, w⟩ ⟨s :: ss, w'⟩ ∧ (respond s w').1 = .error failure := by
  have begun : Leads ⟨ss, w⟩ ⟨Source.ofText text :: ss, w⟩ := .single (.opened ss w text)
  obtain ⟨leads, values, failures⟩ :=
    @evaluateLines_leads ss _ (Source.ofText text).remaining (Source.ofText text) w []
  refine ⟨begun.trans leads, fun vs hv => (values vs hv).imp_right ?_, fun failure hf => ?_⟩
  · rintro ⟨s, w', l, answer⟩
    exact ⟨s, w', begun.trans l, answer⟩
  · obtain ⟨s, w', l, answer⟩ := failures failure hf
    exact ⟨s, w', begun.trans l, answer⟩

end

/-! ## § Runs -/

section

variable {m : Type → Type} [Monad m] [Host m]

theorem runWithin_zero (machine : Machine) (mode : Mode) (input : Input) :
    runWithin (m := m) machine 0 mode input
      = runLines (fun _ _ => throw .nestedFiles) mode input.lines input true := rfl

theorem runWithin_succ (machine : Machine) (depth : Nat) (mode : Mode) (input : Input) :
    runWithin (m := m) machine (depth + 1) mode input
      = runLines (fun name bytes => runWithin machine.within depth ⟨name, false⟩
          (.ofFile name bytes)) mode input.lines input true := rfl

end

/-- The faults that a run can end with: those of an evaluation, those of a command that names a file,
and half of a character that is to be printed. -/
inductive Ending : Fault → Prop
  | overflow : Ending .overflow
  | undefinedInteger : Ending .undefinedInteger
  | surrogate : Ending .surrogate
  | fileName : Ending .fileName
  | nestedFiles : Ending .nestedFiles

variable {m : Type → Type} [Monad m] [LawfulMonad m] {α β : Type}

/-- A run that, whatever the host does, leaves a result and a workspace with a property, unless it
ends with a fault. -/
def Runs (w : Workspace) (x : Running m α) (Q : α → Workspace → Prop) : Prop :=
  Always (x.run w).run fun
    | .ok (a, w') => Q a w'
    | .error f => Ending f

namespace Runs
variable {w : Workspace} {Q : α → Workspace → Prop} {R : β → Workspace → Prop}

theorem pure {a : α} (h : Q a w) : Runs w (Pure.pure a : Running m α) Q := Always.pure h

theorem throw {f : Fault} (h : Ending f) : Runs w (MonadExcept.throw f : Running m α) Q := by
  show Always (Pure.pure (Except.error f) >>= ExceptT.bindCont fun a => Pure.pure (a, w)) _
  rw [pure_bind]
  exact .pure h

theorem mono {Q' : α → Workspace → Prop} {x : Running m α} (h : Runs w x Q')
    (sub : ∀ a w', Q' a w' → Q a w') : Runs w x Q := by
  refine Always.mono h fun r hr => ?_
  cases r with
  | ok r => exact sub r.1 r.2 hr
  | error f => exact hr

theorem bind {x : Running m α} {f : α → Running m β} (hx : Runs w x Q)
    (hf : ∀ a w', Q a w' → Runs w' (f a) R) : Runs w (x >>= f) R := by
  refine Always.bind hx fun r hr => ?_
  cases r with
  | ok r => exact hf r.1 r.2 hr
  | error e => exact .pure hr

theorem get {f : Workspace → Running m β} (h : Runs w (f w) R) :
    Runs w (MonadState.get >>= f) R := by
  refine .bind (Q := fun a w' => a = w ∧ w' = w) (Always.pure ⟨rfl, rfl⟩) ?_
  rintro _ _ ⟨rfl, rfl⟩
  exact h

theorem set {w' : Workspace} {f : PUnit → Running m β} (h : Runs w' (f ⟨⟩) R) :
    Runs w (MonadStateOf.set w' >>= f) R := by
  refine .bind (Q := fun _ w₁ => w₁ = w') (Always.pure rfl) ?_
  rintro _ _ rfl
  exact h

/-- What a host does leaves the workspace alone. -/
theorem lift {P : α → Prop} {x : m α} (h : Always x P) :
    Runs w (liftM x : Running m α) fun a w' => P a ∧ w' = w := by
  show Always ((Except.ok <$> x) >>= ExceptT.bindCont fun a => Pure.pure (a, w)) _
  rw [bind_map_left]
  exact .bind h fun a ha => .pure ⟨ha, rfl⟩

end Runs

/-- Asking about a file leaves the workspace alone, and only a name can be refused. -/
theorem withFile_runs {P : α → Prop} (name : String) {act : m α} (h : Always act P) :
    Runs w (withFile name act) fun a w' => P a ∧ w' = w := by
  unfold withFile
  split
  · exact .throw .fileName
  · exact .lift h

variable [Host m]

theorem print_runs (text : String) : Runs w (print (m := m) text) fun _ w' => w' = w :=
  (Runs.lift (.trivial _)).mono fun _ _ k => k.2

theorem reportError_runs (source : String) (e : Error) :
    Runs w (reportError (m := m) source e) fun _ w' => w' = w :=
  (Runs.lift (.trivial _)).mono fun _ _ k => k.2

theorem prompt_runs (mode : Mode) : Runs w (prompt (m := m) mode) fun _ w' => w' = w := by
  refine .get ?_
  dsimp only
  split
  · exact print_runs _
  · exact .pure rfl

theorem save_runs (name : String) : Runs w (save (m := m) name) fun _ w' => w' = w := by
  refine .get (.bind (withFile_runs name (.trivial _)) ?_)
  rintro result _ ⟨-, rfl⟩
  split
  · exact .pure rfl
  · exact .pure rfl

/-- A way to run files that takes the steps of a session. -/
def Loads (settings : Settings) (runFile : RunningFile m) : Prop :=
  ∀ ss w name bytes, InOrder settings ⟨ss, w⟩ →
    Runs w (runFile name bytes) fun _ w' => Leads ⟨ss, w⟩ ⟨ss, w'⟩

variable {runFile : RunningFile m}

theorem load_runs (loads : Loads settings runFile) (order : InOrder settings ⟨ss, w⟩)
    (name : String) : Runs w (load runFile name) fun _ w' => Leads ⟨ss, w⟩ ⟨ss, w'⟩ := by
  refine .bind (withFile_runs name (.trivial _)) ?_
  rintro result w ⟨-, rfl⟩
  split
  · exact .bind (loads ss w name _ order) fun _ w₁ leads => .pure leads
  · exact .pure .refl

theorem command_runs (loads : Loads settings runFile) (order : InOrder settings ⟨ss, w⟩)
    (words : List String) :
    Runs w (command runFile words) fun _ w' => Leads ⟨ss, w⟩ ⟨ss, w'⟩ := by
  unfold command
  split
  · split
    · refine .bind (save_runs _) ?_
      rintro result _ rfl
      exact .pure .refl
    · exact .pure .refl
  · split
    · split
      · exact load_runs loads order _
      · exact .pure .refl
    · exact .pure .refl

/-- Behind a command the source goes on where it was, unless its file has changed. -/
theorem afterCommand_always (input : Input) :
    Always (Input.afterCommand (m := m) input) fun next =>
      next.source = input.source ∨ ∃ text, next.source = input.source.goOn text := by
  unfold Input.afterCommand
  split
  · exact .pure (.inl rfl)
  next file _ =>
    refine .bind (.trivial _) fun result _ => ?_
    split
    next bytes =>
      have followed : (file.follow input.source bytes).2 = input.source ∨
          ∃ text, (file.follow input.source bytes).2 = input.source.goOn text := by
        unfold OpenFile.follow
        split
        · exact .inl rfl
        · exact .inr ⟨_, rfl⟩
      exact .pure followed
    · exact .pure (.inl rfl)

theorem runLines_runs (machine : Machine) {format : FloatFormat}
    (hf : FloatFormat.read settings.floatFormat = .ok format) (loads : Loads settings runFile)
    (mode : Mode) (count : Nat) (input : Input) (ok : Bool)
    (order : InOrder settings ⟨input.source :: ss, w⟩) :
    Runs w (runLines runFile mode count input ok)
      fun _ w' => Leads ⟨input.source :: ss, w⟩ ⟨ss, w'⟩ := by
  induction count generalizing input ok w with
  | zero => exact .pure (.single (.closed _ _ _))
  | succ count ih =>
    unfold runLines
    refine .bind (prompt_runs mode) ?_
    rintro _ w rfl
    refine .get ?_
    obtain ⟨ready, others⟩ := List.forall_mem_cons.1 order.ready
    have advance := respond_advance order.settled ready
    have line := Step.line machine input.source ss w
    have next := line.inOrder order
    -- All that matters of the line is the situation after it.
    generalize respond input.source w = answer at advance line next ⊢
    obtain ⟨response, source, w₁⟩ := answer
    have goOn (ok : Bool) : Runs w₁ (runLines runFile mode count { input with source := source } ok)
        fun _ w' => Leads ⟨input.source :: ss, w⟩ ⟨ss, w'⟩ :=
      (ih { input with source := source } ok next).mono fun _ _ leads => .head line leads
    refine .set ?_
    dsimp only
    split
    · exact .pure (.tail (.single line) (.closed _ _ _))
    · exact goOn ok
    next words =>
      refine .bind (command_runs loads next words) fun result w₂ loaded => ?_
      have there : InOrder settings ⟨source :: ss, w₂⟩ := Leads.inOrder loaded next
      -- The file of a source that goes on may have changed.
      have followed (success : Bool) : Runs w₂ (do
          runLines runFile mode count (← liftM (Input.afterCommand (m := m)
            { input with source := source })) (ok && success))
          fun _ w' => Leads ⟨input.source :: ss, w⟩ ⟨ss, w'⟩ := by
        refine .bind (.lift (afterCommand_always _)) ?_
        rintro following w₂ ⟨place, rfl⟩
        have change : Leads ⟨source :: ss, w₂⟩ ⟨following.source :: ss, w₂⟩ := by
          rcases place with same | ⟨text, goes_on⟩
          · rw [same]
          · rw [goes_on]
            exact .single (.followed source ss w₂ text)
        refine (ih following _ (Leads.inOrder change there)).mono fun _ _ leads => ?_
        exact .head line (loaded.trans (change.trans leads))
      split
      · refine .bind (Q := fun _ w' => w' = w₂) (.pure rfl) ?_
        rintro success _ rfl
        exact followed success
      · refine .bind (reportError_runs _ _) ?_
        rintro _ w₃ rfl
        refine .bind (Q := fun _ w' => w' = w₃) (.pure rfl) ?_
        rintro success _ rfl
        exact followed success
    next vs =>
      split
      · exact goOn ok
      · have settings_eq : w₁.settings = settings := next.settled.settings
        rw [settings_eq]
        cases shown : Value.formatAll settings vs with
        | ok text =>
          refine .bind (print_runs _) ?_
          rintro _ _ rfl
          exact goOn ok
        | error failure =>
          cases formatAll_fails hf shown with
          | overflow => exact .throw .overflow
          | undefinedInteger => exact .throw .undefinedInteger
          | surrogate => exact .throw .surrogate
    next e =>
      refine .bind (reportError_runs _ _) ?_
      rintro _ _ rfl
      exact goOn false
    next f =>
      refine .throw ?_
      rcases (advance.failures (.fault f) rfl).resolve_left id with rfl | rfl
      · exact .overflow
      · exact .undefinedInteger

theorem runWithin_runs (machine : Machine) {format : FloatFormat}
    (hf : FloatFormat.read settings.floatFormat = .ok format) (depth : Nat) (mode : Mode)
    (input : Input) (order : InOrder settings ⟨input.source :: ss, w⟩) :
    Runs w (runWithin (m := m) machine depth mode input)
      fun _ w' => Leads ⟨input.source :: ss, w⟩ ⟨ss, w'⟩ := by
  induction depth generalizing machine mode input ss w with
  | zero =>
    rw [runWithin_zero]
    exact runLines_runs machine hf (fun _ _ _ _ _ => .throw .nestedFiles) mode _ input true order
  | succ depth ih =>
    rw [runWithin_succ]
    refine runLines_runs machine hf (fun ss w name bytes outer => ?_) mode _ input true order
    have begun : Step ⟨ss, w⟩ ⟨(Input.ofFile name bytes).source :: ss, w⟩ := .opened ss w _
    have inner := begun.inOrder outer
    exact (ih machine.within ⟨name, false⟩ (.ofFile name bytes) inner).mono
      fun _ _ leads => .head begun leads

/-- **A run takes the steps of a session, whatever the host does**, and there are five faults that can
end it. -/
theorem run_leads [Machine] {format : FloatFormat}
    (hf : FloatFormat.read settings.floatFormat = .ok format) (order : InOrder settings ⟨ss, w⟩)
    (mode : Mode) (text : String) (name : String) (bytes : List UInt8) :
    (Runs w (runText (m := m) mode text) fun _ w' => Leads ⟨ss, w⟩ ⟨ss, w'⟩) ∧
      Runs w (Session.runFile (m := m) name bytes) fun _ w' => Leads ⟨ss, w⟩ ⟨ss, w'⟩ := by
  have opened (mode : Mode) (input : Input)
      (begun : Step ⟨ss, w⟩ ⟨input.source :: ss, w⟩) :
      Runs w (run (m := m) mode input) fun _ w' => Leads ⟨ss, w⟩ ⟨ss, w'⟩ := by
    have inner := begun.inOrder order
    exact (runWithin_runs _ hf _ mode input inner).mono fun _ _ leads => .head begun leads
  constructor
  · exact opened mode (.ofText text) (.opened ss w _)
  · exact opened ⟨name, false⟩ (.ofFile name bytes) (.opened ss w _)

end Session

end ArrayCalc
