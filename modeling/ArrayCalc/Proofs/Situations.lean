import ArrayCalc.Proofs.Presence
import ArrayCalc.Proofs.Reachable
import ArrayCalc.Proofs.ReadingTrees
import Mathlib.Logic.Relation

/-!
# Situations of a session

Between two lines a session has a workspace and the sources it is in the midst of, since a line may
load a file and a text may be evaluated at any time.  What a step does to a situation is said once;
what is true of all situations that steps lead to follows by induction.

No step makes an operator unknown.  So whatever a tree has been read with is still there when the
tree is evaluated, be it at once or as a part of a body much later.
-/

namespace ArrayCalc

namespace Workspace

variable {w w' : Workspace} {f : UserOperator}

theorem Installed.knows (h : w.Installed f w') {s : Signature}
    (known : s = ⟨f.name, f.arity⟩ ∨ w.Knows s = true) : w'.Knows s = true := by
  obtain ⟨name, arity⟩ := s
  rw [knows_eq, h.operators]
  by_cases same : name = f.name ∧ arity = f.arity
  · rw [if_pos same]
    exact Bool.or_true _
  · rw [if_neg same, ← knows_eq]
    refine known.resolve_left fun eq => same ?_
    exact ⟨congrArg Signature.name eq, congrArg Signature.arity eq⟩

theorem Restored.knows (h : w.Restored w') : w'.Knows = w.Knows := by
  funext s
  rw [knows_eq, knows_eq, h.operators]

theorem SameRest.present (h : w.SameRest w') (present : w.Present) : w'.Present := by
  intro name
  rcases h.released name with same | none
  · rw [same]
    exact present name
  · rw [none]
    exact nofun

end Workspace

theorem Line.Unread.expected {failure : Failure} (h : Line.Unread failure) (licence : Licence) :
    failure.Expected licence := by
  cases h with
  | lex => exact .inr trivial
  | parse => exact .inr trivial
  | overflow => exact .inr (.inl rfl)

namespace Session

open Workspace
open ArrayCalc.Expr (Stated)

variable {settings : Settings} {w w' : Workspace} {s s' : Source}

/-- What is true of a workspace between two lines: no operator is missing that a stored body applies,
and no session variable is absent. -/
structure Settled (settings : Settings) (w : Workspace) : Prop extends Idle settings w where
  stated : ∀ arity name f, w.userOperator? arity name = some f → ∀ e ∈ f.body, Stated w.Knows e
  present : w.Present

theorem settled_new [Machine] (hs : settings.check = .ok settings) :
    Settled settings (ofSettings settings) where
  toIdle := idle_new hs
  stated arity _ _ h := by cases arity <;> exact nomatch h
  present name := by
    show (Bindings.insert (Bindings.insert _ _ _) _ _).get? name ≠ _
    rw [Bindings.get?_insert, Bindings.get?_insert]
    split
    · exact nofun
    split
    · exact nofun
    · exact nofun

/-! ## § One line -/

theorem Settled.installed (h : Settled settings w) {f : UserOperator} (scope : f.WellScoped)
    (worded : f.Worded w.vocabulary) (hf : w.Installed f w') (spares : w'.SparesOuter)
    (stated : ∀ e ∈ f.body, Stated (Reading.knownWithin w f) e) : Settled settings w' where
  toIdle := h.toIdle.installed scope worded hf spares
  present := hf.rest.present h.present
  stated arity name g hg e he := by
    rw [hf.operators] at hg
    split at hg
    next =>
      obtain rfl := Option.some.inj hg
      refine (stated e he).mono fun s known => hf.knows ?_
      rwa [Reading.knownWithin, Bool.or_eq_true, beq_iff_eq] at known
    next => exact (h.stated arity name g hg e he).mono fun s known => hf.knows (.inr known)

theorem Settled.restored (h : Settled settings w) (hr : w.Restored w') : Settled settings w' where
  toIdle := h.toIdle.restored hr
  present := hr.rest.present h.present
  stated arity name f hf := by
    rw [hr.knows]
    rw [hr.operators] at hf
    exact h.stated arity name f hf

theorem Settled.sameTables (h : Settled settings w) (hw : w.SameTables w')
    (depth : w'.stack.depth ≤ w'.settings.maxStack) (present : w'.Present) :
    Settled settings w' where
  toIdle := h.toIdle.sameTables hw depth
  present := present
  stated arity name f hf := by
    rw [hw.knows]
    rw [hw.userOperator?] at hf
    exact h.stated arity name f hf

theorem Settled.inFrame (h : Settled settings w) (hw : Evaluation.InFrame w w') :
    Settled settings w' :=
  h.sameTables hw.frame.toSameTables (h.toIdle.steady.of_sameFrame hw.frame).depth hw.present

theorem Settled.remember (h : Settled settings w) {vs : List Value} (present : .absent ∉ vs) :
    Settled settings (remember w vs) := by
  unfold Session.remember
  split
  next v last =>
    have there : v ≠ .absent := by
      rintro rfl
      exact present (List.mem_of_getLast? last)
    refine h.inFrame ⟨(SameFrame.refl w).setGlobal "_" v, fun name => ?_⟩
    show (w.globals.insert "_" v).get? name ≠ some .absent
    rw [Bindings.get?_insert]
    split
    · rintro ⟨⟩
      exact there rfl
    · exact h.present name
  next => exact h

/-- An evaluation that starts from a settled workspace finds what it needs. -/
theorem Settled.sound (h : Settled settings w) : Evaluation.Sound w where
  steady := h.toIdle.steady
  stated := h.stated
  named arity := by
    -- The name of a stored operator is an identifier, and no identifier is empty.
    rw [Option.eq_none_iff_forall_ne_some]
    intro f hf
    have identifier := (h.names arity "" (by rw [hf]; rfl)).1
    exact nomatch identifier

theorem known_remember (w : Workspace) (vs : List Value) : (remember w vs).Knows = w.Knows :=
  (remember_frame w vs).knows

section

variable [Machine]

/-- A line comes to a tree that folds with a product which is an operator's name: whatever alarm is
set there, the evaluation of the line ends with it. -/
def FoldsWith (operator : String) (s : Source) (w : Workspace) : Prop :=
  ∃ es s' w', Line.read s w = (.ok (.statements es), s', w') ∧ ∀ alarm, ∃ w'',
    (Evaluation.evaluateLineGuarded (Evaluation.guardFolds alarm operator) es).run w'
      = .error alarm w''

/-- What comes of a line that is answered at a settled workspace. -/
structure Advance (settings : Settings) (s : Source) (w : Workspace) (answer : Result Response)
    (s' : Source) (w' : Workspace) : Prop where
  settled : Settled settings w'
  ready : s'.Ready
  known : ∀ x, w.Knows x = true → w'.Knows x = true
  values : ∀ vs, answer = .ok (.values vs) → .absent ∉ vs
  failures : ∀ failure, answer = .error failure → failure.Expected Evaluation.anyMissing
  missing : ∀ operator, answer = .error (.error (.undefined (.noBinary operator))) →
    FoldsWith operator s w

/-- **One line** leaves a settled workspace settled, whether it succeeds or fails. -/
theorem respond_advance (h : Settled settings w) (ready : s.Ready) :
    Advance settings s w (respond s w).1 (respond s w).2.1 (respond s w).2.2 := by
  refine respond_cases (P := fun answer s' w' => Advance settings s w answer s' w') h.declared
    h.spares s ?_ ?_ ?_ ?_
  · intro failure s' w' hr
    obtain ⟨ready', -, unread⟩ := Line.read_grows ready hr
    have restored := Line.read_error h.declared h.spares hr
    refine ⟨h.restored restored, ready', fun x known => ?_, nofun, ?_, ?_⟩
    · rw [restored.knows]
      exact known
    · rintro _ ⟨⟩
      exact (unread failure rfl).expected _
    · rintro operator ⟨⟩
      exact nomatch unread _ rfl
  · intro f s' w' hr
    obtain ⟨ready', fresh, -⟩ := Line.read_grows ready hr
    rcases Line.read_ok h.declared h.spares hr with ⟨scope, worded, installed, spares⟩
    have settled := h.installed scope worded installed spares
      fun e he => (fresh _ rfl e he).stated
    exact ⟨settled, ready', fun x known => installed.knows (.inr known), nofun, nofun, nofun⟩
  · intro es s' hr
    obtain ⟨ready', fresh, -⟩ := Line.read_grows ready hr
    rcases Line.read_ok h.declared h.spares hr with _ | closed
    have stated : ∀ e ∈ es, Stated w.Knows e := fun e he => (fresh _ rfl e he).stated
    have placed : ∀ e ∈ es, w.Fits e := fun e he name slot hn =>
      absurd (Expr.nodes_subset_nodesOf he hn) (closed name slot)
    have yields := Evaluation.evaluateLine_yields h.sound h.present stated placed
    have frame := evaluateLine_frame h.toIdle closed
    cases hv : (Evaluation.evaluateLine es).run w with
    | ok vs w₁ =>
      unfold Outcome
      rw [hv]
      obtain ⟨inside, present⟩ := yields.of_ok hv
      refine ⟨(h.inFrame inside).remember present, ready', fun x known => ?_, ?_, nofun, nofun⟩
      · rw [known_remember, inside.frame.knows]
        exact known
      · rintro _ ⟨⟩
        exact present
    | error failure w₁ =>
      unfold Outcome
      rw [hv]
      have fails := yields.of_error hv
      have left := frame.of_error hv
      have depth := h.toIdle.steady.depth_of_leaves left
      refine ⟨h.sameTables left.tables depth fails.present, ready', fun x known => ?_, nofun, ?_, ?_⟩
      · rw [left.tables.knows]
        exact known
      · rintro _ ⟨⟩
        exact fails.expected
      · rintro operator ⟨⟩
        have stopped := Evaluation.evaluateLine_missing h.sound h.present stated placed hv
        exact ⟨es, s', w, hr, stopped⟩
  · intro line response s' hr _ other
    obtain ⟨ready', -, -⟩ := Line.read_grows ready hr
    refine ⟨h, ready', fun _ known => known, ?_, nofun, nofun⟩
    rintro vs ⟨⟩
    exact absurd rfl (other vs)

end

/-! ## § Many lines -/

/-- Where a session is between two lines: the sources that it is in the midst of, the innermost one
first, and the workspace. -/
structure Situation where
  sources : List Source
  workspace : Workspace

/-- What can happen next. -/
inductive Step : Situation → Situation → Prop
  /-- A text is run, a file is loaded, or the evaluation of a text begins. -/
  | opened (ss : List Source) (w : Workspace) (text : List Char) :
      Step ⟨ss, w⟩ ⟨Source.ofText text :: ss, w⟩
  /-- The next line is answered, whatever comes of it.  The lines of a file that is loaded have a
  machine of their own. -/
  | line (machine : Machine) (s : Source) (ss : List Source) (w : Workspace) :
      Step ⟨s :: ss, w⟩ ⟨(@respond machine s w).2.1 :: ss, (@respond machine s w).2.2⟩
  /-- A file has changed while its lines are run. -/
  | followed (s : Source) (ss : List Source) (w : Workspace) (text : List Char) :
      Step ⟨s :: ss, w⟩ ⟨s.goOn text :: ss, w⟩
  /-- A source is left, be it at its end or because of an error. -/
  | closed (s : Source) (ss : List Source) (w : Workspace) : Step ⟨s :: ss, w⟩ ⟨ss, w⟩

/-- The first situation leads to the second one. -/
abbrev Leads : Situation → Situation → Prop := Relation.ReflTransGen Step

/-- The situations that a new session can come to. -/
def Reached (settings : Settings) (p : Situation) : Prop :=
  ∃ machine : Machine, Leads ⟨[], @ofSettings machine settings⟩ p

/-- What follows a situation that is reached is reached as well. -/
theorem Reached.trans {settings : Settings} {p q : Situation} (h : Reached settings p)
    (leads : Leads p q) : Reached settings q := by
  obtain ⟨machine, before⟩ := h
  exact ⟨machine, before.trans leads⟩

/-- What is true of every situation that is reached. -/
structure InOrder (settings : Settings) (p : Situation) : Prop where
  settled : Settled settings p.workspace
  ready : ∀ s ∈ p.sources, s.Ready

variable {p q : Situation}

theorem Step.inOrder (step : Step p q) (h : InOrder settings p) : InOrder settings q := by
  cases step with
  | opened ss w text =>
    refine ⟨h.settled, List.forall_mem_cons.2 ⟨?_, h.ready⟩⟩
    exact Source.ready_of_peeked rfl
  | line machine s ss w =>
    obtain ⟨ready, others⟩ := List.forall_mem_cons.1 h.ready
    have advance := @respond_advance _ _ _ machine h.settled ready
    exact ⟨advance.settled, List.forall_mem_cons.2 ⟨advance.ready, others⟩⟩
  | followed s ss w text =>
    obtain ⟨-, others⟩ := List.forall_mem_cons.1 h.ready
    refine ⟨h.settled, List.forall_mem_cons.2 ⟨?_, others⟩⟩
    exact Source.ready_of_peeked rfl
  | closed s ss w => exact ⟨h.settled, (List.forall_mem_cons.1 h.ready).2⟩

theorem Leads.inOrder (h : Leads p q) (start : InOrder settings p) : InOrder settings q := by
  induction h with
  | refl => exact start
  | tail _ step ih => exact step.inOrder ih

theorem Reached.inOrder (hs : settings.check = .ok settings) (h : Reached settings p) :
    InOrder settings p := by
  obtain ⟨machine, leads⟩ := h
  exact Leads.inOrder leads ⟨@settled_new _ machine hs, nofun⟩

/-- No step makes an operator unknown. -/
theorem Step.knows (step : Step p q) (h : InOrder settings p) {x : Signature}
    (known : p.workspace.Knows x = true) : q.workspace.Knows x = true := by
  cases step with
  | opened | followed | closed => exact known
  | line machine s ss w =>
    obtain ⟨ready, -⟩ := List.forall_mem_cons.1 h.ready
    exact (@respond_advance _ _ _ machine h.settled ready).known x known

theorem Leads.knows (h : Leads p q) (start : InOrder settings p) {x : Signature}
    (known : p.workspace.Knows x = true) : q.workspace.Knows x = true := by
  induction h with
  | refl => exact known
  | tail first step ih => exact step.knows (Leads.inOrder first start) ih

/-! ## § Operators -/

/-- **What is applied stays known.**  The operators that a line of statements applies are known from
the moment it is read in every later situation, and so are those of a stored body.  A unary operator
is always found, and a binary one unless the line comes to a fold with the product of that name. -/
theorem applied_stay_known [Machine] (hs : settings.check = .ok settings) {ss : List Source}
    (h : Reached settings ⟨s :: ss, w⟩) :
    (∀ es s' w', Line.read s w = (.ok (.statements es), s', w') →
      ∀ q, Leads ⟨s :: ss, w⟩ q → Expr.Applies q.workspace.Knows (Expr.nodesOf es)) ∧
    (∀ arity name f, w.userOperator? arity name = some f →
      ∀ q, Leads ⟨s :: ss, w⟩ q → ∀ x ∈ f.applied, q.workspace.Knows x = true) ∧
    ∀ failure, (respond s w).1 = .error failure →
      (∀ operator, failure ≠ .error (.undefined (.noUnary operator))) ∧
      ∀ operator, failure = .error (.undefined (.noBinary operator)) → FoldsWith operator s w := by
  have order := h.inOrder hs
  have ready : s.Ready := order.ready s List.mem_cons_self
  refine ⟨fun es s' w' hr q hq => ?_, fun arity name f hf q hq x hx => ?_, fun failure hf => ?_⟩
  · have fresh := (Line.read_grows ready hr).2.1 _ rfl
    have now : Expr.Applies w.Knows (Expr.nodesOf es) :=
      .nodesOf fun e he => (fresh e he).stated.applies
    exact fun node hn x hx => Leads.knows hq order (now node hn x hx)
  · obtain ⟨node, hn, hx⟩ := List.mem_flatMap.1 hx
    have now : Expr.Applies w.Knows f.nodes :=
      .nodesOf fun e he => (order.settled.stated arity name f hf e he).applies
    exact Leads.knows hq order (now node hn x hx)
  · have advance := respond_advance order.settled ready
    constructor
    · rintro operator rfl
      exact (advance.failures _ hf).elim id id
    · rintro operator rfl
      exact advance.missing operator hf

/-- A text that looks like the fold of an operator `*.`, which there is not. -/
def productFold : Source := Source.ofText "*./ 1 2 3\n".toList

theorem reached_productFold : Reached {} ⟨[productFold], ofSettings {}⟩ :=
  ⟨_, .single (.opened [] (ofSettings {}) _)⟩

theorem applied_stay_known_productFold :
    (respond productFold (ofSettings {})).1 = .error (.error (.undefined (.noBinary "*."))) ∧
      FoldsWith "*." productFold (ofSettings {}) := by
  have missing : (respond productFold (ofSettings {})).1
      = .error (.error (.undefined (.noBinary "*."))) := by
    have failed : (match (respond productFold (ofSettings {})).1 with
        | .error failure => decide (failure = .error (.undefined (.noBinary "*.")))
        | .ok _ => false) = true := by
      decide +kernel
    split at failed
    next failure hf => rw [hf, of_decide_eq_true failed]
    next => exact nomatch failed
  exact ⟨missing, ((applied_stay_known rfl reached_productFold).2.2 _ missing).2 _ rfl⟩

/-! ## § Values -/

/-- One of two steps fails where both fail together. -/
theorem bind_error {α β : Type} {x : Result α} {f : α → Result β} {failure : Failure}
    (h : x >>= f = .error failure) : x = .error failure ∨ ∃ a, f a = .error failure := by
  cases x with
  | error =>
    obtain rfl := Except.error.inj h
    exact .inl rfl
  | ok a => exact .inr ⟨a, h⟩

theorem mapM_error {α β : Type} {f : α → Result β} {as : List α} {failure : Failure}
    (h : as.mapM f = .error failure) : ∃ a ∈ as, f a = .error failure := by
  induction as with
  | nil => exact nomatch h
  | cons a as ih =>
    rw [List.mapM_cons] at h
    rcases bind_error h with first | ⟨b, h⟩
    · exact ⟨a, List.mem_cons_self, first⟩
    · rcases bind_error h with others | ⟨bs, h⟩
      · obtain ⟨a', among, ha'⟩ := ih others
        exact ⟨a', List.mem_cons_of_mem a among, ha'⟩
      · exact nomatch h

/-- Why a value cannot be printed: a float is too large for an integer or is none, or half of a
character is left alone. -/
inductive Unprintable : Failure → Prop
  | overflow : Unprintable (.fault .overflow)
  | undefinedInteger : Unprintable (.fault .undefinedInteger)
  | surrogate : Unprintable (.fault .surrogate)

section Printing

variable {format : FloatFormat} {failure : Failure}

theorem unprintable_text {text : List CodePoint} (h : CodePoint.text text = .error failure) :
    Unprintable failure := by
  unfold CodePoint.text at h
  split at h
  · exact nomatch h
  · obtain rfl := Except.error.inj h
    exact .surrogate

variable (hf : FloatFormat.read settings.floatFormat = .ok format)

include hf

theorem unprintable_float {x : Float} (h : settings.floatText x = .error failure) :
    Unprintable failure := by
  rw [Settings.floatText, hf] at h
  dsimp only at h
  split at h
  · exact nomatch h
  · obtain rfl := Except.error.inj h
    exact .undefinedInteger
  · obtain rfl := Except.error.inj h
    exact .overflow

theorem unprintable_scalar {s : Scalar} (h : s.format settings = .error failure) :
    Unprintable failure := by
  cases s with
  | int | rational => exact nomatch h
  | char => exact unprintable_text h
  | float x => exact unprintable_float hf h
  | complex z =>
    rcases bind_error h with re | ⟨_, h⟩
    · exact unprintable_float hf re
    · rcases bind_error h with im | ⟨_, h⟩
      · exact unprintable_float hf im
      · exact nomatch h

theorem unprintable_value {v : Value} (h : v.format settings = .error failure) :
    Unprintable failure := by
  cases v with
  | scalar s => exact unprintable_scalar hf h
  | absent => exact nomatch h
  | vector items =>
    unfold Value.format at h
    dsimp only at h
    split at h
    · exact unprintable_text h
    · rcases bind_error h with texts | ⟨_, h⟩
      · obtain ⟨s, -, hs⟩ := mapM_error texts
        exact unprintable_scalar hf hs
      · exact nomatch h

/-- With a float format that can be read, nothing else keeps a row of values from being printed. -/
theorem formatAll_fails {vs : List Value} (h : Value.formatAll settings vs = .error failure) :
    Unprintable failure := by
  rcases bind_error h with texts | ⟨_, h⟩
  · obtain ⟨v, -, hv⟩ := mapM_error texts
    exact unprintable_value hf hv
  · exact nomatch h

end Printing

/-- **Nothing absent gets out**, and no evaluation ends with a fault but the two that floats can
cause: a number too large, and an undefined one where an integer is needed.  No session variable is
absent, every value of a line is there and is printed unless a float or half a character cannot be,
and so is what a call makes, at whatever moment and depth it is called and whatever it is called
with.  Whatever number an operator makes without wrapping it fits. -/
theorem absent_stays_inside [Machine] (hs : settings.check = .ok settings) {format : FloatFormat}
    (hf : FloatFormat.read settings.floatFormat = .ok format) (h : Reached settings p) :
    p.workspace.Present ∧
    (∀ s ∈ p.sources,
      (∀ vs, (respond s p.workspace).1 = .ok (.values vs) →
        .absent ∉ vs ∧
          ∀ failure, Value.formatAll settings vs = .error failure → Unprintable failure) ∧
      ∀ f, (respond s p.workspace).1 = .error (.fault f) → f = .overflow ∨ f = .undefinedInteger) ∧
    (∀ arity name f, p.workspace.userOperator? arity name = some f →
      ∀ now, Moment p.workspace now → now.Present → ∀ depth toll operands,
        Outcome (Evaluation.callWithin depth toll f operands) now
          (fun v now' => v ≠ .absent ∧ now'.Present)
          fun failure now' => now'.Present ∧
            ∀ f, failure = .fault f → f = .overflow ∨ f = .undefinedInteger) ∧
    Primitive.NumbersFit := by
  have order := h.inOrder hs
  have fault {f : Fault} (expected : (Failure.fault f).Expected Evaluation.anyMissing) :
      f = .overflow ∨ f = .undefinedInteger := expected.resolve_left id
  refine ⟨order.settled.present, fun s hm => ?_, fun arity name f stored now moment present => ?_,
    Primitive.numbersFit⟩
  · have advance := respond_advance order.settled (order.ready s hm)
    exact ⟨fun vs hv => ⟨advance.values vs hv, fun _ => formatAll_fails hf⟩,
      fun f hv => fault (advance.failures _ hv)⟩
  · intro depth toll operands
    have sound : Evaluation.Sound now :=
      order.settled.sound.of_operators (moment.steady order.settled.toIdle) moment.operators
    have stored : now.userOperator? arity name = some f :=
      (moment.operators arity name).trans stored
    have called := Evaluation.callWithin_yields sound present stored depth toll operands
    refine called.mono (fun _ _ k => ⟨k.value, k.present⟩) fun failure now' k => ⟨k.present, ?_⟩
    rintro f rfl
    exact fault k.expected

/-- An operator that has no value for some operands. -/
def sometimes : Source := Source.ofText "op f x = x > 2 : 1\nf 1\nf 3\n".toList

theorem reached_sometimes :
    Reached {} ⟨[(respond sometimes (ofSettings {})).2.1],
      (respond sometimes (ofSettings {})).2.2⟩ :=
  ⟨_, (Relation.ReflTransGen.single (.opened [] (ofSettings {}) _)).tail (.line _ sometimes [] _)⟩

theorem absent_stays_inside_sometimes :
    ∃ f, (respond sometimes (ofSettings {})).2.2.userOperator? .unary "f" = some f ∧
      ∀ depth toll operands,
        Outcome (Evaluation.callWithin depth toll f operands)
          (respond sometimes (ofSettings {})).2.2
          (fun v _ => v ≠ .absent) fun _ now' => now'.Present := by
  obtain ⟨format, hf⟩ : ∃ format, FloatFormat.read ({} : Settings).floatFormat = .ok format :=
    ⟨_, rfl⟩
  obtain ⟨present, -, calls, -⟩ := absent_stays_inside rfl hf reached_sometimes
  have order := reached_sometimes.inOrder rfl
  have stored : ((respond sometimes (ofSettings {})).2.2.userOperator? .unary "f").isSome := by
    decide +kernel
  obtain ⟨f, hf⟩ := Option.isSome_iff_exists.1 stored
  refine ⟨f, hf, fun depth toll operands => ?_⟩
  -- From here on the workspace need not be computed.
  have idle := order.settled.toIdle
  dsimp only at present calls idle
  generalize (respond sometimes (ofSettings {})).2.2 = w at *
  have moment : Moment w w := ⟨rfl, fun _ _ => rfl, idle.steady.depth⟩
  exact (calls .unary "f" f hf w moment present depth toll operands).mono (fun _ _ k => k.1)
    fun _ _ k => k.1

end Session

end ArrayCalc
