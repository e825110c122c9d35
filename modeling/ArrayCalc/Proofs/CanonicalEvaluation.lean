import ArrayCalc.Proofs.Calls
import ArrayCalc.Proofs.CanonicalResults
import ArrayCalc.Proofs.Trees

/-!
# Canonical evaluation

The watched evaluator is the evaluator with a watch that looks at every value there is after every
tree, and after every frame that is opened: the value of the tree, those of the session variables,
those in the slots of all active calls, and the literals of the stored bodies.  Where one of them is
not canonical, the watch stops the evaluation with a failure of its own.

From a tidy workspace the watch never has to.  A tidy workspace also binds only names that are
allowed, whatever that means: an evaluation binds what the trees assign and nothing else.
-/

namespace ArrayCalc

/-! ## § Tidy workspaces -/

/-- A tree whose literals are canonical and that assigns no session variable but those allowed. -/
structure Expr.Tidy (allowed : String → Prop) (e : Expr) : Prop where
  literals : ∀ node ∈ e.nodes, ∀ v ∈ node.literal?, v.Canonical
  assigned : ∀ node ∈ e.nodes, ∀ name ∈ node.assigned, allowed name

theorem Expr.Tidy.part {allowed : String → Prop} {e part : Expr} (h : e.Tidy allowed)
    (hp : part.nodes ⊆ e.nodes) : part.Tidy allowed :=
  ⟨fun node hn => h.literals node (hp hn), fun node hn => h.assigned node (hp hn)⟩

namespace Workspace

/-- A workspace all of whose values are canonical: those of the session variables, those in the slots
of active calls and those of the literals in stored bodies. -/
structure Canonical (w : Workspace) : Prop where
  globals : ∀ name, ∀ v ∈ w.global? name, v.Canonical
  slots : ∀ v ∈ w.stack.slots, v.Canonical
  literals : ∀ arity name, ∀ f ∈ w.userOperator? arity name,
    ∀ node ∈ f.nodes, ∀ v ∈ node.literal?, v.Canonical

instance (w : Workspace) : Decidable w.Canonical :=
  let stored (arity : Arity) : Prop := ∀ name ∈ (w.table arity).names,
    ∀ f ∈ w.userOperator? arity name, ∀ node ∈ f.nodes, ∀ v ∈ node.literal?, v.Canonical
  decidable_of_iff ((∀ name ∈ w.globals.names, ∀ v ∈ w.global? name, v.Canonical) ∧
      (∀ v ∈ w.stack.slots, v.Canonical) ∧
      stored .unary ∧ stored .binary) <| by
    constructor
    · -- What can be looked up is among the names.
      rintro ⟨globals, slots, unary, binary⟩
      refine ⟨fun name v hv => globals name (Bindings.mem_names_of_get? hv) v hv, slots, ?_⟩
      intro arity name f hf
      cases arity with
      | unary => exact unary name (Bindings.mem_names_of_get? hf) f hf
      | binary => exact binary name (Bindings.mem_names_of_get? hf) f hf
    · rintro ⟨globals, slots, literals⟩
      refine ⟨fun name _ => globals name, slots, ?_, ?_⟩
      · exact fun name _ => literals .unary name
      · exact fun name _ => literals .binary name

/-- A canonical workspace in which no session variable but those allowed has a value or is assigned
one by a stored body. -/
structure Tidy (allowed : String → Prop) (w : Workspace) : Prop where
  globals : ∀ name v, w.global? name = some v → allowed name ∧ v.Canonical
  slots : ∀ v ∈ w.stack.slots, v.Canonical
  bodies : ∀ arity name f, w.userOperator? arity name = some f → ∀ e ∈ f.body, e.Tidy allowed

namespace Tidy

variable {allowed : String → Prop} {w : Workspace} {name : String} {v : Value}

theorem canonical (h : w.Tidy allowed) : w.Canonical where
  globals name v hv := (h.globals name v hv).2
  slots := h.slots
  literals arity name f hf :=
    Expr.forall_mem_nodesOf fun e he => (h.bodies arity name f hf e he).literals

theorem setGlobal (h : w.Tidy allowed) (hn : allowed name) (hv : v.Canonical) :
    (w.setGlobal name v).Tidy allowed where
  globals other u hu := by
    have looked : (w.globals.insert name v).get? other = some u := hu
    rw [Bindings.get?_insert] at looked
    split at looked
    next same =>
      obtain rfl := Option.some.inj looked
      exact ⟨same ▸ hn, hv⟩
    next => exact h.globals other u looked
  slots := h.slots
  bodies arity name f hf := h.bodies arity name f (by cases arity <;> exact hf)

theorem setStack (h : w.Tidy allowed) {stack : CallStack}
    (hs : ∀ v ∈ stack.slots, v.Canonical) :
    { w with stack := stack }.Tidy allowed where
  globals := h.globals
  slots := hs
  bodies arity name f hf := h.bodies arity name f (by cases arity <;> exact hf)

theorem setDice (h : w.Tidy allowed) (dice : Dice) : { w with dice := dice }.Tidy allowed where
  globals := h.globals
  slots := h.slots
  bodies arity name f hf := h.bodies arity name f (by cases arity <;> exact hf)

theorem slot? (h : w.Tidy allowed) {slot : Nat} (hs : w.stack.slot? slot = some v) :
    v.Canonical := by
  unfold CallStack.slot? at hs
  split at hs
  · exact nomatch hs
  · exact h.slots v (List.mem_of_getElem? hs)

theorem setSlot? (h : w.Tidy allowed) {slot : Nat} (hv : v.Canonical) {stack : CallStack}
    (hs : w.stack.setSlot? slot v = some stack) : { w with stack := stack }.Tidy allowed := by
  refine h.setStack ?_
  unfold CallStack.setSlot? at hs
  split at hs
  · exact nomatch hs
  · obtain rfl := Option.some.inj hs
    intro u hu
    rcases List.mem_or_eq_of_mem_set hu with hu | rfl
    · exact h.slots u hu
    · exact hv

end Tidy

end Workspace

namespace Evaluation

open Workspace

variable {α β : Type} {allowed : String → Prop} {alarm : Failure}

/-! ## § The watched evaluator -/

/-- Stops with an alarm if some value is not canonical. -/
def watch (alarm : Failure) (v : Value) : Evaluation Unit := do
  let w ← get
  if w.Canonical ∧ v.Canonical then return () else throw alarm

/-- Calls an operator as `enter` does, with a look at the new frame. -/
def enterWatched (alarm : Failure) (eval : Evaluating) (f : UserOperator)
    (operands : List Value) : Evaluation Value := do
  pushFrame f operands
  watch alarm .absent
  try
    let v ← runBody eval f.body .absent
    leave
    return v
  catch failure =>
    leave
    throw failure

section

variable [Machine]

mutual

/-- Evaluates a tree as `evaluateWithin` does, with a look at all values after it. -/
def evaluateWatched (alarm : Failure) : (depth toll : Nat) → Evaluating
  | 0, _, _ => failCall .tooDeep
  | depth + 1, toll + 1, e => evaluateWatched alarm depth toll e
  | depth + 1, 0, e => do
    let v ← node (fun toll part => evaluateWatched alarm depth toll part)
      (fun toll f operands => callWatched alarm depth toll f operands) e
    watch alarm v
    return v

def callWatched (alarm : Failure) : (depth toll : Nat) → Calling
  | 0, _, _, _ => failCall .tooDeep
  | depth + 1, toll + 1, f, operands => callWatched alarm depth toll f operands
  | depth + 1, 0, f, operands =>
    if depth = 0 then tear f
    else enterWatched alarm (fun part => evaluateWatched alarm depth 0 part) f operands

end

/-- Evaluates the statements of a line as `evaluateLine` does, with a watch. -/
def evaluateLineWatched (alarm : Failure) : List Expr → Evaluation (List Value)
  | [] => return []
  | e :: rest => do
    let v ← evaluateWatched alarm Machine.calls 0 e
    let others ← evaluateLineWatched alarm rest
    return if e.isSilent || v == .absent then others else v :: others

end

/-! ## § Computations that keep a workspace tidy -/

/-- From every tidy moment on, two computations do the same, the workspace stays tidy, and what they
make has a property. -/
def Keeps (allowed : String → Prop) (x y : Evaluation α) (P : α → Prop) : Prop :=
  ∀ w : Workspace, w.Tidy allowed →
    x.run w = y.run w ∧ Outcome x w (fun a w' => w'.Tidy allowed ∧ P a) fun _ w' => w'.Tidy allowed

namespace Keeps

variable {P : α → Prop} {Q : β → Prop}

theorem pure {a : α} (h : P a) : Keeps allowed (Pure.pure a) (Pure.pure a) P :=
  fun _ hw => ⟨rfl, hw, h⟩

theorem throw (failure : Failure) :
    Keeps allowed (MonadExcept.throw failure : Evaluation α) (MonadExcept.throw failure) P :=
  fun _ hw => ⟨rfl, hw⟩

theorem fail (e : Error) :
    Keeps allowed (Evaluation.fail e : Evaluation α) (Evaluation.fail e) P := .throw _

theorem ofResult {x : Result α} (h : Makes x P) :
    Keeps allowed (Evaluation.ofResult x) (Evaluation.ofResult x) P := by
  cases x with
  | ok a => exact .pure (h a rfl)
  | error failure => exact .throw failure

theorem bind {x y : Evaluation α} {f g : α → Evaluation β} (hx : Keeps allowed x y P)
    (hf : ∀ a, P a → Keeps allowed (f a) (g a) Q) : Keeps allowed (x >>= f) (y >>= g) Q := by
  intro w hw
  obtain ⟨same, tidy⟩ := hx w hw
  constructor
  · rw [EStateM.run_bind, EStateM.run_bind, ← same]
    cases h : x.run w with
    | ok a w' =>
      obtain ⟨hw', ha⟩ := tidy.of_ok h
      exact (hf a ha w' hw').1
    | error => rfl
  · exact .bind tidy fun a w' k => (hf a k.2 w' k.1).2

theorem get {f g : Workspace → Evaluation β}
    (h : ∀ w, w.Tidy allowed → Keeps allowed (f w) (g w) Q) :
    Keeps allowed (MonadState.get >>= f) (MonadState.get >>= g) Q :=
  fun w hw => h w hw w hw

theorem set {w' : Workspace} (h : w'.Tidy allowed) :
    Keeps allowed (MonadStateOf.set w' : Evaluation PUnit) (MonadStateOf.set w') fun _ => True :=
  fun _ _ => ⟨rfl, h, trivial⟩

theorem mapM {f g : α → Evaluation β} {as : List α}
    (h : ∀ a ∈ as, Keeps allowed (f a) (g a) Q) :
    Keeps allowed (as.mapM f) (as.mapM g) fun bs => ∀ b ∈ bs, Q b := by
  induction as with
  | nil => exact .pure nofun
  | cons a as ih =>
    rw [List.mapM_cons, List.mapM_cons]
    refine .bind (h a List.mem_cons_self) fun b hb => ?_
    refine .bind (ih fun a' ha => h a' (List.mem_cons_of_mem a ha)) fun bs hbs => .pure ?_
    exact List.forall_mem_cons.2 ⟨hb, hbs⟩

theorem closing {x y : Evaluation α} {done undone : Workspace → Workspace}
    (h : Keeps allowed x y P) (hd : ∀ w : Workspace, w.Tidy allowed → (done w).Tidy allowed)
    (hu : ∀ w : Workspace, w.Tidy allowed → (undone w).Tidy allowed) :
    Keeps allowed (ArrayCalc.closing x done undone) (ArrayCalc.closing y done undone) P := by
  intro w hw
  obtain ⟨same, tidy⟩ := h w hw
  constructor
  · rw [run_closing, run_closing, same]
  · exact outcome_closing (tidy.mono (fun _ w' k => ⟨hd w' k.1, k.2⟩) fun _ w' k => hu w' k)

theorem mono {P' : α → Prop} {x y : Evaluation α} (h : Keeps allowed x y P')
    (hP : ∀ a, P' a → P a) : Keeps allowed x y P := by
  intro w hw
  obtain ⟨same, tidy⟩ := h w hw
  exact ⟨same, tidy.mono (fun a _ k => ⟨k.1, hP a k.2⟩) fun _ _ k => k⟩

/-- The watch has nothing to say about what is canonical. -/
theorem watching {x y : Evaluation α} (h : Keeps allowed x y P) {v : Value} (hv : v.Canonical) :
    Keeps allowed x (watch alarm v >>= fun _ => y) P := by
  intro w hw
  obtain ⟨same, tidy⟩ := h w hw
  have quiet : (watch alarm v).run w = .ok () w := by
    show EStateM.run (if w.Canonical ∧ v.Canonical then Pure.pure ()
      else MonadExcept.throw alarm) w = _
    rw [if_pos ⟨hw.canonical, hv⟩]
    rfl
  refine ⟨?_, tidy⟩
  rw [same, EStateM.run_bind, quiet]

theorem watched {x y : Evaluation Value} (h : Keeps allowed x y Value.Canonical) :
    Keeps allowed x (do let v ← y; watch alarm v; return v) Value.Canonical := by
  have same : Keeps allowed (x >>= Pure.pure) (do let v ← y; watch alarm v; return v)
      Value.Canonical := .bind h fun v hv => .watching (.pure hv) hv
  rwa [bind_pure] at same

end Keeps

/-! ## § Places -/

/-- A place that can be assigned. -/
def Place.Allowed (allowed : String → Prop) : Place → Prop
  | .ofSession name => allowed name
  | .ofFrame _ _ => True

/-- A lookup gives what it has found. -/
theorem defined_keeps (name : String) (v : Option Value) :
    Keeps allowed (defined name v) (defined name v) fun u => v = some u := by
  unfold defined
  split
  · exact .pure rfl
  · exact .pure rfl
  · exact .fail _

/-- A session variable that is there has a name that is allowed, so its elements can be assigned as
well: their assignment reads it first. -/
theorem read_keeps (place : Place) :
    Keeps allowed place.read place.read fun v => v.Canonical ∧ place.Allowed allowed := by
  cases place with
  | ofSession name =>
    refine .get fun w hw => (defined_keeps name _).mono fun v hg => ?_
    obtain ⟨hn, hv⟩ := hw.globals name v hg
    exact ⟨hv, hn⟩
  | ofFrame name slot =>
    have read : Keeps allowed (readSlot slot) (readSlot slot) Value.Canonical := by
      refine .get fun w hw => ?_
      split
      · exact .fail _
      · split
        next hs => exact .pure (hw.slot? hs)
        next => exact .throw _
    refine .bind read fun v hv => (defined_keeps name _).mono fun u hu => ?_
    obtain rfl := Option.some.inj hu
    exact ⟨hv, trivial⟩

theorem write_keeps (place : Place) (h : place.Allowed allowed) {v : Value} (hv : v.Canonical) :
    Keeps allowed (place.write v) (place.write v) fun _ => True := by
  cases place with
  | ofSession name => exact fun w hw => ⟨rfl, hw.setGlobal h hv, trivial⟩
  | ofFrame name slot =>
    refine .get fun w hw => ?_
    split
    · exact .fail _
    · split
      next hs => exact .set (hw.setSlot? hv hs)
      next => exact .throw _

/-! ## § Derived operators -/

/-- Two ways to apply binary operators that make canonical values of canonical ones. -/
def ApplyingKeeps (allowed : String → Prop) (apply apply' : Applying) : Prop :=
  ∀ l operator r, l.Canonical → r.Canonical →
    Keeps allowed (apply l operator r) (apply' l operator r) Value.Canonical

variable {apply apply' : Applying}

theorem fold_keeps (h : ApplyingKeeps allowed apply apply') (operator : String)
    {items : List Scalar} (hi : ∀ s ∈ items, s.Canonical) {last : Scalar} (hl : last.Canonical) :
    Keeps allowed (fold apply operator items last) (fold apply' operator items last)
      Value.Canonical := by
  unfold fold
  induction items with
  | nil => exact .pure hl
  | cons item items ih =>
    obtain ⟨first, others⟩ := List.forall_mem_cons.1 hi
    rw [List.foldrM_cons, List.foldrM_cons]
    exact .bind (ih others) fun total ht => h _ _ _ first ht

theorem foldItems_keeps (h : ApplyingKeeps allowed apply apply') (operator : String)
    {items : List Scalar} (hi : ∀ s ∈ items, s.Canonical) :
    Keeps allowed (foldItems apply operator items) (foldItems apply' operator items)
      Value.Canonical := by
  unfold foldItems
  split
  next last hl =>
    refine fold_keeps h operator (fun s hs => hi s (List.dropLast_subset _ hs)) ?_
    exact hi last (List.mem_of_getLast? hl)
  next => exact .fail _

theorem reduce_keeps [Machine] (h : ApplyingKeeps allowed apply apply') (operator : String)
    {v : Value} (hv : v.Canonical) :
    Keeps allowed (reduce apply operator v) (reduce apply' operator v) Value.Canonical := by
  refine .bind (.ofResult (Value.elements_canonical hv)) fun items hi => .get fun w _ => ?_
  dsimp only
  split
  · split
    next hp =>
      obtain ⟨primitive, -, hp⟩ := Option.bind_eq_some_iff.1 hp
      exact .pure (BinaryPrimitive.identity?_canonical hp)
    next => exact .fail _
  · exact .pure (hi _ (List.mem_singleton.2 rfl))
  · split
    next total ht =>
      refine .pure ?_
      split at ht
      · exact Bulk.reduce?_canonical ht
      · exact nomatch ht
    next => exact foldItems_keeps h operator hi

theorem scalarOr_keeps (e : ShapeError) {v : Value} (hv : v.Canonical) :
    Keeps allowed (scalarOr e v) (scalarOr e v) Scalar.Canonical := by
  unfold scalarOr
  split
  · exact .pure hv
  · exact .fail _

theorem scan_keeps [Machine] (h : ApplyingKeeps allowed apply apply') (operator : String)
    {v : Value} (hv : v.Canonical) :
    Keeps allowed (scan apply operator v) (scan apply' operator v) Value.Canonical := by
  unfold scan
  split
  · exact .pure hv
  · refine .bind (.ofResult (Value.elements_canonical hv)) fun items hi => .get fun w _ => ?_
    dsimp only
    split
    next totals ht =>
      refine .pure ?_
      split at ht
      · exact Bulk.scan?_canonical ht
      · exact nomatch ht
    next =>
      split
      · exact .pure (List.forall_mem_nil _)
      next first rest =>
        refine .bind (.mapM (Q := Scalar.Canonical) fun i _ => ?_) fun totals ht => .pure ?_
        · refine .bind (foldItems_keeps h operator fun s hs => ?_) fun v hv => scalarOr_keeps _ hv
          exact hi s (List.mem_of_mem_take hs)
        · exact List.forall_mem_cons.2 ⟨(List.forall_mem_cons.1 hi).1, ht⟩

/-- Two ways to combine values that make canonical values of canonical ones. -/
def CombiningKeeps (allowed : String → Prop) (combine combine' : Value → Value → Evaluation Value) :
    Prop :=
  ∀ a b, a.Canonical → b.Canonical → Keeps allowed (combine a b) (combine' a b) Value.Canonical

theorem outer_keeps {both both' each each' : Value → Value → Evaluation Value}
    (hb : CombiningKeeps allowed both both') (he : CombiningKeeps allowed each each')
    (word combiner : String) {l r : Value} (hl : l.Canonical) (hr : r.Canonical) :
    Keeps allowed (outer both each word combiner l r) (outer both' each' word combiner l r)
      Value.Canonical := by
  unfold outer
  split
  · exact .fail _
  · refine .bind (.mapM (Q := Scalar.Canonical) fun item hm => ?_) fun _ hs => .pure hs
    exact .bind (he _ _ (hl item hm) hr) fun v hv => scalarOr_keeps _ hv
  · refine .bind (.mapM (Q := Scalar.Canonical) fun item hm => ?_) fun _ hs => .pure hs
    exact .bind (he _ _ hl (hr item hm)) fun v hv => scalarOr_keeps _ hv
  · exact hb _ _ hl hr
  · exact .throw _

theorem pairUp_canonical {l r : Value} (hl : l.Canonical) (hr : r.Canonical) :
    Makes (pairUp l r) fun pair =>
      (∀ s ∈ pair.1, s.Canonical) ∧ ∀ s ∈ pair.2, s.Canonical := by
  refine .bind (Value.elements_canonical hl) fun lefts h₁ => ?_
  refine .bind (Value.elements_canonical hr) fun rights h₂ => ?_
  split
  · refine .ok ⟨fun s hs => ?_, h₂⟩
    obtain rfl := (List.mem_replicate.1 hs).2
    exact hl
  · refine .ok ⟨h₁, fun s hs => ?_⟩
    obtain rfl := (List.mem_replicate.1 hs).2
    exact hr
  · exact .ok ⟨h₁, h₂⟩

theorem inner_keeps [Machine] (h : ApplyingKeeps allowed apply apply')
    {combine combine' : Value → Value → Evaluation Value}
    (hc : CombiningKeeps allowed combine combine')
    (word reducer combiner : String) {l r : Value} (hl : l.Canonical) (hr : r.Canonical) :
    Keeps allowed (inner apply combine word reducer combiner l r)
      (inner apply' combine' word reducer combiner l r) Value.Canonical := by
  unfold inner
  refine .bind (.ofResult (pairUp_canonical hl hr)) fun (lefts, rights) ⟨h₁, h₂⟩ => ?_
  dsimp only
  split
  · exact .fail _
  · refine .get fun w _ => ?_
    split
    next total ht =>
      refine .pure ?_
      split at ht
      · exact Bulk.inner?_canonical ht
      · exact nomatch ht
    next =>
      refine .bind (.mapM (Q := Scalar.Canonical) fun (a, b) hm => ?_) fun combined hs =>
        reduce_keeps h reducer hs
      obtain ⟨ha, hb⟩ := List.of_mem_zip hm
      exact .bind (hc _ _ (h₁ a ha) (h₂ b hb)) fun v hv => scalarOr_keeps _ hv

theorem applyProduct_keeps [Machine] {single single' : Nat → Applying}
    (h : ∀ toll, ApplyingKeeps allowed (single toll) (single' toll)) (toll : Nat)
    (operators : List String) {l r : Value} (hl : l.Canonical) (hr : r.Canonical) :
    Keeps allowed (applyProduct single toll operators l r) (applyProduct single' toll operators l r)
      Value.Canonical := by
  induction operators generalizing toll l r with
  | nil => exact h toll _ _ _ hl hr
  | cons operator operators ih =>
    cases operators with
    | nil => exact h toll _ _ _ hl hr
    | cons combiner others =>
      unfold applyProduct
      dsimp only
      split
      · exact .fail _
      · split
        · exact outer_keeps (fun a b ha hb => ih _ ha hb) (fun a b ha hb => ih _ ha hb) _ _ hl hr
        · exact inner_keeps (h _) (fun a b ha hb => ih _ ha hb) _ _ _ hl hr

/-! ## § Operators -/

/-- Two ways to call operators with tidy bodies. -/
def CallingKeeps (allowed : String → Prop) (call call' : Calling) : Prop :=
  ∀ f operands, (∀ e ∈ f.body, e.Tidy allowed) → (∀ v ∈ operands, v.Canonical) →
    Keeps allowed (call f operands) (call' f operands) Value.Canonical

/-- Two ways to evaluate tidy trees. -/
def EvaluatingKeeps (allowed : String → Prop) (eval eval' : Evaluating) : Prop :=
  ∀ e, e.Tidy allowed → Keeps allowed (eval e) (eval' e) Value.Canonical

variable {call call' : Nat → Calling} {eval eval' : Evaluating}

theorem applySingle_keeps (hc : ∀ toll, CallingKeeps allowed (call toll) (call' toll))
    (toll : Nat) : ApplyingKeeps allowed (applySingle call toll) (applySingle call' toll) := by
  intro l operator r hl hr
  refine .get fun w hw => ?_
  split
  next hf => exact hc _ _ _ (hw.bodies _ _ _ hf) (by simpa using ⟨hl, hr⟩)
  next primitive _ _ => exact .ofResult (primitive.apply_canonical hl hr)
  next => exact .fail _

theorem applyBinary_keeps [Machine] (hc : ∀ toll, CallingKeeps allowed (call toll) (call' toll))
    (toll : Nat) : ApplyingKeeps allowed (applyBinary call toll) (applyBinary call' toll) :=
  fun _ _ _ hl hr => applyProduct_keeps (applySingle_keeps hc) _ _ hl hr

theorem applyPrimitive_keeps [Machine] (primitive : UnaryPrimitive) {v : Value} (hv : v.Canonical) :
    Keeps allowed (applyPrimitive primitive v) (applyPrimitive primitive v) Value.Canonical := by
  refine .get fun w hw => ?_
  exact .bind (.set (hw.setDice _)) fun _ _ => .ofResult (primitive.apply_canonical _ _ hv)

theorem applyUnary_keeps [Machine] (hc : ∀ toll, CallingKeeps allowed (call toll) (call' toll))
    (word : String) {v : Value}
    (hv : v.Canonical) :
    Keeps allowed (applyUnary call word v) (applyUnary call' word v) Value.Canonical := by
  unfold applyUnary
  split
  · exact reduce_keeps (applyBinary_keeps hc _) _ hv
  · exact scan_keeps (applyBinary_keeps hc _) _ hv
  · refine .get fun w hw => ?_
    split
    next hf => exact hc _ _ _ (hw.bodies _ _ _ hf) (by simpa using hv)
    next => exact applyPrimitive_keeps _ hv
    next => exact .fail _

/-! ## § Trees -/

variable {e : Expr} {es subscripts : List Expr}

theorem subscript_keeps (he : EvaluatingKeeps allowed eval eval')
    (ht : ∀ e ∈ subscripts, e.Tidy allowed) :
    Keeps allowed (subscript eval subscripts) (subscript eval' subscripts) fun _ => True := by
  unfold subscript
  split
  · exact .pure trivial
  next e hs =>
    have listed : e ∈ subscripts := (List.mem_filter.1 (hs ▸ List.mem_singleton_self e)).1
    exact .bind (he e (ht e listed)) fun _ _ => .pure trivial
  · exact .fail _

theorem elementsAt_subset (items : List Scalar) (places : List Nat) :
    elementsAt items places ⊆ items := by
  intro s hs
  obtain ⟨place, -, found⟩ := List.mem_filterMap.1 hs
  exact List.mem_of_getElem? found

theorem select_canonical (origin : Int) {v : Value} (hv : v.Canonical) (chosen : Option Value) :
    Makes (select origin v chosen) Value.Canonical := by
  unfold select
  split
  · exact .ok hv
  next items subscript =>
    refine .andThen fun places => ?_
    have selected : ∀ s ∈ elementsAt items places, s.Canonical :=
      fun s hs => hv s (elementsAt_subset items places hs)
    dsimp only
    split
    next one => exact .ok (selected _ (one ▸ List.mem_singleton.2 rfl))
    next => exact .ok selected
  · exact .error _

theorem replaceAt_canonical {items : List Scalar} (hi : ∀ s ∈ items, s.Canonical)
    {changes : List (Nat × Scalar)} (hc : ∀ change ∈ changes, change.2.Canonical) :
    ∀ s ∈ replaceAt items changes, s.Canonical := by
  unfold replaceAt
  induction changes generalizing items with
  | nil => exact hi
  | cons change changes ih =>
    obtain ⟨first, others⟩ := List.forall_mem_cons.1 hc
    refine ih (fun s hs => ?_) others
    rcases List.mem_or_eq_of_mem_set hs with hs | rfl
    · exact hi s hs
    · exact first

theorem replace_canonical (origin : Int) {items : List Scalar} (hi : ∀ s ∈ items, s.Canonical)
    (chosen : Option Value) {v : Value} (hv : v.Canonical) :
    Makes (replace origin items chosen v) fun news => ∀ s ∈ news, s.Canonical := by
  cases v with
  | vector news =>
    have paired (places : List Nat) : ∀ s ∈ replaceAt items (places.zip news), s.Canonical := by
      refine replaceAt_canonical hi ?_
      rintro ⟨place, s⟩ hm
      exact hv s (List.of_mem_zip hm).2
    cases chosen with
    | none => exact .ite (.error _) (.ok (paired _))
    | some subscript => exact .andThen fun places => .ite (.error _) (.ok (paired places))
  | scalar s =>
    have repeated (places : List Nat) : ∀ t ∈ replaceAt items (places.map (·, s)), t.Canonical := by
      refine replaceAt_canonical hi ?_
      rintro _ hm
      obtain ⟨place, -, rfl⟩ := List.mem_map.1 hm
      exact hv
    cases chosen with
    | none => exact .ok (repeated _)
    | some subscript => exact .andThen fun places => .ok (repeated places)
  | absent =>
    cases chosen with
    | none => exact .error _
    | some subscript => exact .andThen fun _ => .error _

theorem assign_keeps (he : EvaluatingKeeps allowed eval eval') {target : Expr}
    (session : ∀ name, target = .sessionVar name → allowed name)
    (ht : ∀ base subscripts, target = .index base subscripts → ∀ e ∈ subscripts, e.Tidy allowed)
    {v : Value} (hv : v.Canonical) :
    Keeps allowed (assign eval target v) (assign eval' target v) fun _ => True := by
  unfold assign
  split
  next name => exact write_keeps (.ofSession name) (session name rfl) hv
  next name slot => exact write_keeps (.ofFrame name slot) trivial hv
  next base subscripts =>
    unfold assignElements
    split
    · exact .fail _
    next place _ =>
      refine .bind (read_keeps place) fun current ⟨hc, hp⟩ => ?_
      split
      next items =>
        refine .bind (subscript_keeps he (ht base subscripts rfl)) fun chosen _ => .get fun w _ => ?_
        exact .bind (.ofResult (replace_canonical _ hc chosen hv)) fun news hn =>
          write_keeps place hp hn
      next => exact .fail _
  next => exact .fail _

theorem strandItems_keeps (he : EvaluatingKeeps allowed eval eval') (ht : e.Tidy allowed) :
    Keeps allowed (strandItems eval e) (strandItems eval' e) fun items =>
      ∀ s ∈ items, s.Canonical := by
  refine .bind (he e ht) fun v hv => ?_
  split
  · exact .pure (List.forall_mem_singleton.2 hv)
  · exact .pure hv
  · exact .throw _

theorem holds_keeps (he : EvaluatingKeeps allowed eval eval') (ht : e.Tidy allowed) :
    Keeps allowed (holds eval e) (holds eval' e) fun _ => True :=
  .bind (he e ht) fun _ _ => .ofResult fun _ _ => trivial

theorem node_keeps [Machine] {eval eval' : Nat → Evaluating}
    (he : ∀ toll, EvaluatingKeeps allowed (eval toll) (eval' toll))
    (hc : ∀ toll, CallingKeeps allowed (call toll) (call' toll)) (ht : e.Tidy allowed) :
    Keeps allowed (node eval call e) (node eval' call' e) Value.Canonical := by
  have literal (v : Value) (hv : v ∈ e.literal?) : v.Canonical :=
    ht.literals e (Expr.self_mem_nodes e) v hv
  cases e with
  | constant s => exact .pure (literal (.scalar s) rfl)
  | string text => exact .pure (literal (.ofText text) rfl)
  | sessionVar name => exact (read_keeps (.ofSession name)).mono fun _ k => k.1
  | slotVar name slot => exact (read_keeps (.ofFrame name slot)).mono fun _ k => k.1
  | unary operator right =>
    refine .bind (he 0 right (ht.part (by simp [Expr.nodes]))) fun v hv => ?_
    exact applyUnary_keeps hc _ hv
  | binary operator left right =>
    refine .bind (he 0 right (ht.part (by simp [Expr.nodes]))) fun r hr => ?_
    refine .bind (he 0 left (ht.part (by simp [Expr.nodes]))) fun l hl => ?_
    exact applyBinary_keeps hc _ _ _ _ hl hr
  | assign target value =>
    -- The target is no tree to evaluate, so that only its name and its subscripts count.
    refine .bind (he 0 value (ht.part (by simp [Expr.nodes]))) fun v hv => ?_
    refine .bind (assign_keeps (he 3) (fun name same => ?_) (fun base subscripts same e hm => ?_) hv)
      fun _ _ => .pure hv
    · subst same
      exact ht.assigned _ (Expr.self_mem_nodes _) name (List.mem_singleton.2 rfl)
    · refine ht.part fun node hn => ?_
      simp [same, Expr.nodes, Expr.nodes_subset_nodesOf hm hn]
  | conditional condition result =>
    refine .bind (holds_keeps (he 0) (ht.part (by simp [Expr.nodes]))) fun b _ => ?_
    split
    · exact he 0 result (ht.part (by simp [Expr.nodes]))
    · exact .pure trivial
  | index base subscripts =>
    refine .bind (he 0 base (ht.part (by simp [Expr.nodes]))) fun v hv => ?_
    refine .bind (subscript_keeps (he 1) fun e hm => ?_) fun chosen _ => .get fun w _ => ?_
    · refine ht.part fun node hn => ?_
      simp [Expr.nodes, Expr.nodes_subset_nodesOf hm hn]
    · exact .ofResult (select_canonical _ hv chosen)
  | strand items =>
    refine .bind (.mapM fun e hm => strandItems_keeps (he 2) (ht.part fun node hn => ?_))
      fun rows hr => .pure fun s hs => ?_
    · simp [Expr.nodes, Expr.nodes_subset_nodesOf hm hn]
    · obtain ⟨row, hm, hs⟩ := List.mem_flatten.1 hs
      exact hr row hm s hs
  | empty => exact .pure trivial

/-! ## § Calls -/

theorem runBody_keeps (he : EvaluatingKeeps allowed eval eval') (ht : ∀ e ∈ es, e.Tidy allowed)
    {v : Value} (hv : v.Canonical) :
    Keeps allowed (runBody eval es v) (runBody eval' es v) Value.Canonical := by
  induction es generalizing v with
  | nil =>
    cases v with
    | absent => exact .fail _
    | scalar => exact .pure hv
    | vector => exact .pure hv
  | cons e es ih =>
    obtain ⟨first, others⟩ := List.forall_mem_cons.1 ht
    -- An empty statement leaves the value as it is, and a conditional may end the body.
    have step : Keeps allowed (eval e >>= runBody eval es) (eval' e >>= runBody eval' es)
        Value.Canonical := .bind (he e first) fun v hv => ih others hv
    cases e with
    | empty => exact ih others hv
    | conditional condition result =>
      refine .bind (holds_keeps he (first.part (by simp [Expr.nodes]))) fun b _ => ?_
      split
      · exact he result (first.part (by simp [Expr.nodes]))
      · exact ih others hv
    | _ => exact step

theorem checkDepth_keeps (f : UserOperator) :
    Keeps allowed (checkDepth f) (checkDepth f) fun _ => True := by
  refine .get fun w hw => ?_
  split
  · exact .fail _
  · exact .pure trivial

theorem pushFrame_keeps (f : UserOperator) {operands : List Value}
    (ho : ∀ v ∈ operands, v.Canonical) :
    Keeps allowed (pushFrame f operands) (pushFrame f operands) fun _ => True := by
  refine .bind (checkDepth_keeps f) fun _ _ w hw => ⟨rfl, hw.setStack fun v hv => ?_, trivial⟩
  rcases List.mem_append.1 hv with below | fresh
  · exact hw.slots v below
  · rcases List.mem_append.1 (List.mem_of_mem_take fresh) with operand | empty
    · exact ho v operand
    · obtain rfl := (List.mem_replicate.1 empty).2
      exact trivial

/-- A call that is given up fills no slot. -/
theorem tear_keeps [Machine] (f : UserOperator) :
    Keeps allowed (tear f) (tear f) Value.Canonical := by
  refine .bind (checkDepth_keeps f) fun _ _ => ?_
  by_cases tears : Machine.tearsFrames = true
  · rw [if_pos tears]
    have reserved : Keeps allowed
        (modify fun w => { w with stack := w.stack.reserve f.locals.length } : Evaluation PUnit)
        (modify fun w => { w with stack := w.stack.reserve f.locals.length }) fun _ => True :=
      fun w hw => ⟨rfl, hw.setStack hw.slots, trivial⟩
    exact .bind reserved fun _ _ => .fail _
  · rw [if_neg tears]
    exact .fail _

theorem left_tidy {w : Workspace} (hw : w.Tidy allowed) : (left w).Tidy allowed := by
  refine hw.setStack fun v hv => ?_
  unfold CallStack.pop? at hv
  split at hv
  · exact hw.slots v hv
  · exact hw.slots v (List.mem_of_mem_take hv)

theorem enterWatched_eq (eval : Evaluating) (f : UserOperator) (operands : List Value) :
    enterWatched alarm eval f operands = (do
      pushFrame f operands
      watch alarm .absent
      closing (runBody eval f.body .absent) left left) := rfl

theorem enter_keeps (he : EvaluatingKeeps allowed eval eval') (f : UserOperator)
    (hf : ∀ e ∈ f.body, e.Tidy allowed) {operands : List Value}
    (ho : ∀ v ∈ operands, v.Canonical) :
    Keeps allowed (enter eval f operands) (enterWatched alarm eval' f operands)
      Value.Canonical := by
  rw [enter_eq, enterWatched_eq]
  refine .bind (pushFrame_keeps f ho) fun _ _ => .watching ?_ trivial
  exact .closing (runBody_keeps he hf trivial) (fun _ => left_tidy) fun _ => left_tidy

/-! ## § All trees -/

/-- **The watch never has anything to do**, at whatever depth. -/
theorem evaluateWithin_keeps [Machine] (allowed : String → Prop) (alarm : Failure)
    (depth toll : Nat) :
    EvaluatingKeeps allowed (evaluateWithin depth toll) (evaluateWatched alarm depth toll) ∧
      CallingKeeps allowed (callWithin depth toll) (callWatched alarm depth toll) := by
  induction depth generalizing toll with
  | zero =>
    constructor
    · intro e _
      rw [evaluateWithin, evaluateWatched]
      exact .fail _
    · intro f operands _ _
      rw [callWithin, callWatched]
      exact .fail _
  | succ depth ih =>
    cases toll with
    | succ toll =>
      constructor
      · intro e ht
        rw [evaluateWithin, evaluateWatched]
        exact (ih toll).1 e ht
      · intro f operands hf ho
        rw [callWithin, callWatched]
        exact (ih toll).2 f operands hf ho
    | zero =>
      constructor
      · intro e ht
        rw [evaluateWithin, evaluateWatched]
        exact (node_keeps (fun toll => (ih toll).1) (fun toll => (ih toll).2) ht).watched
      · intro f operands hf ho
        rw [callWithin, callWatched]
        split
        · exact tear_keeps f
        · exact enter_keeps (ih 0).1 f hf ho

/-! ## § Lines -/

theorem evaluateLine_keeps [Machine] (alarm : Failure) (ht : ∀ e ∈ es, e.Tidy allowed) :
    Keeps allowed (evaluateLine es) (evaluateLineWatched alarm es) fun vs =>
      ∀ v ∈ vs, v.Canonical := by
  induction es with
  | nil => exact .pure (List.forall_mem_nil _)
  | cons e es ih =>
    obtain ⟨first, rest⟩ := List.forall_mem_cons.1 ht
    refine .bind ((evaluateWithin_keeps allowed alarm Machine.calls 0).1 e first) fun v hv => ?_
    refine .bind (ih rest) fun others hs => .pure ?_
    split
    · exact hs
    · exact List.forall_mem_cons.2 ⟨hv, hs⟩

end Evaluation

end ArrayCalc
