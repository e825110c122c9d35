import ArrayCalc.Proofs.Calls
import ArrayCalc.Proofs.Lines
import ArrayCalc.Machine.Standard
import ArrayCalc.Session

/-!
# Reachable workspaces

A workspace is reachable if a session can come to it line by line, whatever the lines are and
whether they succeed or fail.  A line may stand in a file that is loaded, so each has a machine of
its own.  Between two lines nothing is declared, and the scope of every stored operator is right.

From there calls are looked at in the midst of an evaluation: any number of frames may be open, as
long as the settings allow for it, and the variables may have any values.
-/

namespace ArrayCalc.Session

open Evaluation Workspace

/-- The workspaces that lines lead to. -/
inductive Reachable (settings : Settings) : Workspace → Prop
  | new (machine : Machine) : Reachable settings (@ofSettings machine settings)
  | line {w : Workspace} (h : Reachable settings w) (machine : Machine) (s : Source) :
      Reachable settings (@respond machine s w).2.2

/-- The vocabulary of a new workspace. -/
def newVocabulary (settings : Settings) : Vocabulary where
  inputBase := settings.inputBase
  isUnary name := (UnaryPrimitive.ofName? name).isSome
  isBinary name := (BinaryPrimitive.ofName? name).isSome

/-- What is true between two lines. -/
structure Idle (settings : Settings) (w : Workspace) : Prop where
  names : ∀ arity name, (w.userOperator? arity name).isSome →
    Text.isIdentifier name = true ∧ Lexeme.Named (newVocabulary settings) name
  depth : w.stack.depth ≤ settings.maxStack
  settings : w.settings = settings
  declared : w.declared = []
  spares : w.SparesOuter
  operators : ∀ arity name f, w.userOperator? arity name = some f →
    (f.name = name ∧ f.arity = arity) ∧ f.WellScoped
  nodup : w.definitions.Nodup
  listed : ∀ s, s ∈ w.definitions ↔ (w.userOperator? s.arity s.name).isSome
  numbers : ∀ name ∈ ["e", "pi"], (w.global? name).isSome

variable {settings : Settings} {w w' : Workspace}

theorem maxStack_pos (h : settings.check = .ok settings) : 0 < settings.maxStack := by
  unfold Settings.check at h
  split at h
  · exact nomatch h
  split at h
  · exact nomatch h
  split at h
  · exact nomatch h
  · omega

theorem inputBase_cases (h : settings.check = .ok settings) :
    settings.inputBase = 0 ∨ 2 ≤ settings.inputBase ∧ settings.inputBase ≤ 36 := by
  unfold Settings.check at h
  split at h
  · exact nomatch h
  next base =>
    simp only [Settings.isBase, Bool.and_eq_false_iff, decide_eq_false_iff_not] at base
    omega

theorem idle_new [Machine] (hs : settings.check = .ok settings) :
    Idle settings (ofSettings settings) where
  settings := rfl
  declared := rfl
  depth := Int.le_of_lt (maxStack_pos hs)
  spares := rfl
  operators arity _ _ h := by cases arity <;> exact nomatch h
  names arity _ h := by cases arity <;> exact nomatch h
  nodup := .nil
  listed s := by
    obtain ⟨name, arity⟩ := s
    cases arity <;> exact ⟨nofun, nofun⟩
  numbers name h := by
    simp only [List.mem_cons, List.not_mem_nil, or_false] at h
    rcases h with rfl | rfl <;> rfl

/-! ## § One line -/

/-- A name for an idle workspace is one for a new workspace. -/
theorem Idle.named (h : Idle settings w) {name : String}
    (hn : Lexeme.Named w.vocabulary name) : Lexeme.Named (newVocabulary settings) name := by
  have inputBase : w.vocabulary.inputBase = (newVocabulary settings).inputBase := by
    show w.settings.inputBase = settings.inputBase
    rw [h.settings]
  refine ⟨hn.no_keyword, ?_⟩
  rcases hn.no_number with ho | known | digits
  · exact .inl ho
  · obtain ⟨-, known⟩ := isOperator_vocabulary.1 known
    have split (arity : Arity) (hk : w.Knows ⟨name, arity⟩ = true) :
        name = "o" ∨ (newVocabulary settings).isOperator name = true ∨
          Radix.isAllDigits name.toList (newVocabulary settings).inputBase = false := by
      rw [knows_eq, Bool.or_eq_true] at hk
      rcases hk with primitive | stored
      · refine .inr (.inl (Bool.or_eq_true_iff.2 ?_))
        cases arity
        · exact .inl primitive
        · exact .inr primitive
      · exact (h.names arity name stored).2.no_number
    rw [knowsName, Bool.or_eq_true] at known
    exact known.elim (split _) (split _)
  · exact .inr (.inr (inputBase ▸ digits))

theorem Idle.installed (h : Idle settings w) {f : UserOperator} (scope : f.WellScoped)
    (worded : f.Worded w.vocabulary) (hf : w.Installed f w') (spares : w'.SparesOuter) :
    Idle settings w' where
  settings := hf.rest.settings.trans h.settings
  declared := hf.declared
  depth := hf.rest.stack ▸ h.depth
  spares := spares
  operators arity name g hg := by
    rw [hf.operators] at hg
    split at hg
    next same =>
      obtain rfl := Option.some.inj hg
      exact ⟨⟨same.1.symm, same.2.symm⟩, scope⟩
    next => exact h.operators arity name g hg
  names arity name hg := by
    rw [hf.operators] at hg
    split at hg
    next same =>
      rw [same.1]
      exact ⟨worded.name, h.named worded.named⟩
    next => exact h.names arity name hg
  nodup := by
    rw [hf.definitions, List.nodup_append]
    refine ⟨h.nodup.filter _, by simp, fun s hs t ht => ?_⟩
    obtain rfl := List.mem_singleton.1 ht
    simpa using (List.mem_filter.1 hs).2
  listed s := by
    obtain ⟨name, arity⟩ := s
    rw [hf.definitions, hf.operators, List.mem_append, List.mem_filter, List.mem_singleton,
      h.listed]
    by_cases same : name = f.name ∧ arity = f.arity
    · simp [same]
    · simp [same]
  numbers name hn := by
    have unchanged := hf.rest.reserved name (by
      simp only [List.mem_cons, List.not_mem_nil, or_false] at hn
      rcases hn with rfl | rfl <;> decide)
    rw [unchanged]
    exact h.numbers name hn

theorem Idle.restored (h : Idle settings w) (hr : w.Restored w') : Idle settings w' where
  settings := hr.rest.settings.trans h.settings
  declared := hr.declared
  depth := hr.rest.stack ▸ h.depth
  spares := (hr.operators _ _).trans h.spares
  operators arity name f hf := by
    rw [hr.operators] at hf
    exact h.operators arity name f hf
  names arity name hf := by
    rw [hr.operators] at hf
    exact h.names arity name hf
  nodup := hr.definitions ▸ h.nodup
  listed s := by rw [hr.definitions, hr.operators, h.listed]
  numbers name hn := by
    have unchanged := hr.rest.reserved name (by
      simp only [List.mem_cons, List.not_mem_nil, or_false] at hn
      rcases hn with rfl | rfl <;> decide)
    rw [unchanged]
    exact h.numbers name hn

theorem Idle.sameTables (h : Idle settings w) (hw : w.SameTables w')
    (depth : w'.stack.depth ≤ w'.settings.maxStack) : Idle settings w' where
  settings := hw.settings.trans h.settings
  declared := hw.declared.trans h.declared
  depth := (hw.settings.trans h.settings) ▸ depth
  spares := (hw.userOperator? _ _).trans h.spares
  operators arity name f hf := by
    rw [hw.userOperator?] at hf
    exact h.operators arity name f hf
  names arity name hf := by
    rw [hw.userOperator?] at hf
    exact h.names arity name hf
  nodup := hw.definitions ▸ h.nodup
  listed s := by rw [hw.definitions, hw.userOperator?, h.listed]
  numbers name hn := hw.bound name (h.numbers name hn)

/-- The slots that a stored operator names have a place in its frames. -/
theorem Idle.bodies (h : Idle settings w) {arity : Arity} {name : String} {f : UserOperator}
    (hf : w.userOperator? arity name = some f) {x : String} {slot : Nat}
    (hs : .slotVar x slot ∈ f.nodes) : 0 < slot ∧ slot ≤ f.locals.length := by
  have scope := (h.operators arity name f hf).2
  exact ⟨(scope.slots x slot hs).1, scope.slot_le hs⟩

theorem Idle.steady (h : Idle settings w) : w.Steady where
  depth := h.settings ▸ h.depth
  bodies _ _ _ hf _ _ hm := h.bodies hf hm

theorem Idle.sameFrame (h : Idle settings w) (hw : w.SameFrame w') : Idle settings w' :=
  h.sameTables hw.toSameTables (h.steady.of_sameFrame hw).depth

theorem Idle.leaves [Machine] (h : Idle settings w) {failure : Failure} (hw : w.Leaves w' failure) :
    Idle settings w' :=
  h.sameTables hw.tables (h.steady.depth_of_leaves hw)

theorem remember_frame (w : Workspace) (vs : List Value) : w.SameFrame (remember w vs) := by
  unfold Session.remember
  split
  · exact (SameFrame.refl w).setGlobal _ _
  · exact .refl w

theorem Idle.remember (h : Idle settings w) (vs : List Value) :
    Idle settings (remember w vs) := h.sameFrame (remember_frame w vs)

section

variable [Machine]

/-- A line of trees without slots stays in the frame that it finds. -/
theorem evaluateLine_frame (h : Idle settings w) {es : List Expr}
    (closed : ∀ name slot, .slotVar name slot ∉ Expr.nodesOf es) :
    Outcome (evaluateLine es) w (fun _ w' => w.SameFrame w')
      fun failure w' => w.Leaves w' failure := by
  have fits : ∀ e ∈ es, w.Fits e := fun e he name slot hn =>
    absurd (Expr.nodes_subset_nodesOf he hn) (closed name slot)
  have watches := guardFrame_watches (.fault .noSlot)
  exact (evaluateLine_agrees watches h.steady fits w (.refl w)).2

/-- What a line can come to: it is not read, or it is a definition, or its statements are evaluated,
or it leaves the workspace as it is. -/
theorem respond_cases {P : Result Response → Source → Workspace → Prop} (hd : w.declared = [])
    (ho : w.SparesOuter) (s : Source)
    (failed : ∀ failure s' w', Line.read s w = (.error failure, s', w') → P (.error failure) s' w')
    (defined : ∀ f s' w', Line.read s w = (.ok (.definition f), s', w') → P (.ok .nothing) s' w')
    (stated : ∀ es s', Line.read s w = (.ok (.statements es), s', w) →
      Outcome (evaluateLine es) w (fun vs w' => P (.ok (.values vs)) s' (remember w' vs))
        fun failure w' => P (.error failure) s' w')
    (passed : ∀ line response s', Line.read s w = (.ok line, s', w) →
      (∀ f, line ≠ .definition f) → (∀ vs, response ≠ .values vs) → P (.ok response) s' w) :
    P (respond s w).1 (respond s w).2.1 (respond s w).2.2 := by
  unfold respond
  split
  next failure s' w₁ hr => exact failed failure s' w₁ hr
  next line s' w₁ hr =>
    cases Line.read_ok hd ho hr with
    | definition => exact defined _ s' w₁ hr
    | endOfInput => exact passed _ .finished s' hr nofun nofun
    | blank => exact passed _ .nothing s' hr nofun nofun
    | command words => exact passed _ (.command words) s' hr nofun nofun
    | statements =>
      have evaluated := stated _ s' hr
      dsimp only
      split
      next vs w₂ hv => exact evaluated.of_ok hv
      next failure w₂ hv => exact evaluated.of_error hv

/-- Every line ends as it began, between two lines. -/
theorem respond_idle (h : Idle settings w) (s : Source) : Idle settings (respond s w).2.2 := by
  refine respond_cases (P := fun _ _ w' => Idle settings w') h.declared h.spares s ?_ ?_ ?_ ?_
  · intro failure s' w' hr
    exact h.restored (Line.read_error h.declared h.spares hr)
  · intro f s' w' hr
    rcases Line.read_ok h.declared h.spares hr with ⟨scope, worded, installed, spares⟩
    exact h.installed scope worded installed spares
  · intro es s' hr
    rcases Line.read_ok h.declared h.spares hr with _ | closed
    exact (evaluateLine_frame h closed).mono (fun vs _ hw => (h.sameFrame hw).remember vs)
      fun _ _ hw => h.leaves hw
  · intro _ _ _ _ _ _
    exact h

omit [Machine] in
theorem Reachable.idle (hs : settings.check = .ok settings) (h : Reachable settings w) :
    Idle settings w := by
  induction h with
  | new machine => exact @idle_new _ machine hs
  | line _ machine s ih => exact @respond_idle _ _ machine ih s

/-! ## § Scopes -/

/-- **The scope of every operator is right**, be it stored or just read, and outside of definitions
no tree names a slot. -/
theorem definitions_wellScoped (hs : settings.check = .ok settings) (h : Reachable settings w) :
    (∀ arity name f, w.userOperator? arity name = some f → f.WellScoped) ∧
      (∀ s f s' w', Line.read s w = (.ok (.definition f), s', w') →
        f.WellScoped ∧ w'.userOperator? f.arity f.name = some f) ∧
      ∀ s es s' w', Line.read s w = (.ok (.statements es), s', w') →
        ∀ name slot, .slotVar name slot ∉ Expr.nodesOf es := by
  have idle := h.idle hs
  refine ⟨fun arity name f hf => (idle.operators arity name f hf).2, ?_, ?_⟩
  · intro s f s' w' hr
    rcases Line.read_ok idle.declared idle.spares hr with ⟨scope, -, installed, -⟩
    refine ⟨scope, ?_⟩
    rw [installed.operators, if_pos ⟨rfl, rfl⟩]
  · intro s es s' w' hr
    rcases Line.read_ok idle.declared idle.spares hr with _ | closed
    exact closed

end

/-- What a definition of `o` and another one that uses it both ways lead to. -/
def outerTwice : Workspace :=
  (respond (Source.ofText "op f x = o.5; o = x\n".toList)
    (respond (Source.ofText "op o x = x\n".toList) (ofSettings {})).2.2).2.2

theorem reachable_outerTwice : Reachable {} outerTwice := by
  unfold outerTwice
  exact .line (.line (.new _) _ _) _ _

theorem definitions_wellScoped_outerTwice :
    ∃ f, outerTwice.userOperator? .unary "f" = some f ∧ f.WellScoped ∧ f.locals = ["x", "o"] := by
  have stored : (outerTwice.userOperator? .unary "f").map UserOperator.locals = some ["x", "o"] := by
    decide +kernel
  obtain ⟨f, hf, hl⟩ := Option.map_eq_some_iff.1 stored
  exact ⟨f, hf, (definitions_wellScoped rfl reachable_outerTwice).1 .unary "f" f hf, hl⟩

/-- The unary `o` can be applied where `o` is a slot. -/
theorem applied_outer_is_slot :
    ¬∀ settings w, settings.check = .ok settings → Reachable settings w →
      ∀ arity name f, w.userOperator? arity name = some f →
        ∀ need ∈ f.applied, need.name ∉ f.locals := by
  intro claim
  have stored : ((outerTwice.userOperator? .unary "f").map fun f =>
      f.applied.any fun need => f.locals.contains need.name) = some true := by
    decide +kernel
  obtain ⟨f, hf, some_need⟩ := Option.map_eq_some_iff.1 stored
  obtain ⟨need, hneed, hm⟩ := List.any_eq_true.1 some_need
  exact claim {} outerTwice rfl reachable_outerTwice .unary "f" f hf need hneed
    (List.contains_iff_mem.1 hm)

/-! ## § Calls -/

/-- A moment of an evaluation from `w` on: the operators are those of `w`, and no more calls are
active than may be. -/
structure Moment (w now : Workspace) : Prop where
  settings : now.settings = w.settings
  operators : ∀ arity name, now.userOperator? arity name = w.userOperator? arity name
  depth : now.stack.depth ≤ now.settings.maxStack

variable {now now' : Workspace}

theorem Moment.of_stack {stack : CallStack} (h : (stack.depth : Int) ≤ w.settings.maxStack) :
    Moment w { w with stack := stack } where
  settings := rfl
  operators arity _ := by cases arity <;> rfl
  depth := h

theorem Moment.steady (hm : Moment w now) (h : Idle settings w) : now.Steady where
  depth := hm.depth
  bodies arity name f hf _ _ hs := by
    rw [hm.operators] at hf
    exact h.bodies hf hs

theorem Moment.sameTables (hm : Moment w now) (h : now.SameTables now')
    (depth : now'.stack.depth ≤ now'.settings.maxStack) : Moment w now' where
  settings := h.settings.trans hm.settings
  operators arity name := (h.userOperator? arity name).trans (hm.operators arity name)
  depth := depth

section

variable [Machine]

/-- How the stack differs after a call has been given up while its frame was opened: there is the
size of one frame more. -/
inductive TornStack (size : Nat) (s t : CallStack) : Failure → Prop
  | intro (tears : Machine.tearsFrames = true) (sizes : t.sizes = size :: s.sizes) :
      TornStack size s t (.error (.call .tooDeep))

/-- What a line does to the stack: no frame is left open, and an empty stack stays empty, unless a
call has been given up while its frame was opened. -/
def KeepsStack (s : CallStack) (answer : Result Response) (t : CallStack) : Prop :=
  t.sizes = s.sizes ∧ (s = .empty → t = .empty) ∨
    ∃ failure size, answer = .error failure ∧ TornStack size s t failure

theorem KeepsStack.of_sameShape {s t : CallStack} (h : s.SameShape t) (answer : Result Response) :
    KeepsStack s answer t :=
  .inl ⟨h.sizes, fun empty => by subst empty; exact h.eq_empty⟩

theorem KeepsStack.of_leaves {failure : Failure} (h : w.Leaves w' failure) :
    KeepsStack w.stack (.error failure) w'.stack := by
  cases h with
  | frame h => exact .of_sameShape h.stack _
  | torn h =>
    obtain ⟨size, sizes⟩ := h.sizes
    exact .inr ⟨_, size, rfl, h.torn, sizes⟩

theorem respond_stack (h : Idle settings w) (s : Source) :
    KeepsStack w.stack (respond s w).1 (respond s w).2.2.stack := by
  have same {w' : Workspace} (stack : w'.stack = w.stack) (answer : Result Response) :
      KeepsStack w.stack answer w'.stack := stack ▸ .of_sameShape (.refl _) answer
  refine respond_cases (P := fun answer _ w' => KeepsStack w.stack answer w'.stack) h.declared
    h.spares s ?_ ?_ ?_ ?_
  · intro failure s' w' hr
    exact same (Line.read_error h.declared h.spares hr).rest.stack _
  · intro f s' w' hr
    rcases Line.read_ok h.declared h.spares hr with ⟨-, -, installed, -⟩
    exact same installed.rest.stack _
  · intro es s' hr
    rcases Line.read_ok h.declared h.spares hr with _ | closed
    refine (evaluateLine_frame h closed).mono (fun vs w' hw => ?_) fun _ _ hw => .of_leaves hw
    exact .of_sameShape (hw.trans (remember_frame w' vs)).stack _
  · intro _ _ _ _ _ _
    exact same rfl _

/-- **Calls do not disturb their callers.**  The guard has nothing to do, so no slot outside of the
frame is touched and never are there more calls than may be.  A call leaves the stack as it was, even
if it fails, and so does a line.  The exception are evaluations that go too deep, where a call may
have been given up while its frame was opened: then the size of the outermost frame stays on
record. -/
theorem call_leaves_callers (hs : settings.check = .ok settings) (h : Reachable settings w)
    {arity : Arity} {name : String} {f : UserOperator} (hf : w.userOperator? arity name = some f)
    (hm : Moment w now) (depth toll : Nat) (operands : List Value) :
    (∀ alarm, (callWithin depth toll f operands).run now
      = (callGuarded (guardFrame alarm) depth toll f operands).run now) ∧
      Outcome (callWithin depth toll f operands) now
        (fun _ now' => Moment w now' ∧ now'.stack = now.stack)
        (fun failure now' => Moment w now' ∧
          (now'.stack = now.stack ∨ TornStack f.locals.length now.stack now'.stack failure)) ∧
      ∀ s, KeepsStack w.stack (respond s w).1 (respond s w).2.2.stack := by
  have idle := h.idle hs
  have steady := hm.steady idle
  have guarded (alarm : Failure) := (guarded_agrees (guardFrame_watches alarm) depth toll).2 now
    steady f operands fun _ _ hslot => idle.bodies hf hslot
  refine ⟨fun alarm => (guarded alarm).1.resolve_right ?_, ?_, fun s => ?_⟩
  · rintro ⟨_, _, stopped, _⟩
    exact stopped
  · refine (guarded (.fault .noSlot)).2.mono (fun _ now' left => ?_) fun failure now' left => ?_
    · exact ⟨hm.sameTables left.toSameTables (steady.of_sameFrame left.frame).depth, left.stack⟩
    · refine ⟨hm.sameTables left.leaves.tables (steady.depth_of_leaves left.leaves), ?_⟩
      cases left with
      | whole left => exact .inl left.stack
      | torn left sizes => exact .inr ⟨left.torn, sizes⟩
  · exact respond_stack idle s

end

/-- An operator that calls itself without end. -/
def endless : Workspace :=
  (respond (Source.ofText "op f x = f x\n".toList) (ofSettings {})).2.2

theorem reachable_endless : Reachable {} endless := by
  unfold endless
  exact .line (.new _) _ _

theorem call_leaves_callers_endless :
    ∃ f, endless.userOperator? .unary "f" = some f ∧
      ∀ depth toll operands,
        Outcome (callWithin depth toll f operands)
          { endless with stack := CallStack.empty.enter [.absent] 2 }
          (fun _ now' => now'.stack = CallStack.empty.enter [.absent] 2)
          fun failure now' => now'.stack = CallStack.empty.enter [.absent] 2 ∨
            failure = .error (.call .tooDeep) ∧ now'.stack.sizes = [1, 2] := by
  have stored : (endless.userOperator? .unary "f").map (·.locals.length) = some 1 := by
    decide +kernel
  obtain ⟨f, hf, size⟩ := Option.map_eq_some_iff.1 stored
  refine ⟨f, hf, fun depth toll operands => ?_⟩
  have settings : endless.settings = {} := by decide +kernel
  have room : ((CallStack.empty.enter [.absent] 2).depth : Int) ≤ endless.settings.maxStack := by
    rw [settings]
    decide
  have left :=
    (call_leaves_callers rfl reachable_endless hf (.of_stack room) depth toll operands).2.1
  refine left.mono (fun _ _ same => same.2) fun failure _ same => same.2.imp id ?_
  rintro ⟨-, sizes⟩
  refine ⟨rfl, ?_⟩
  rw [sizes, size]
  rfl

end ArrayCalc.Session
