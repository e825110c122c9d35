import ArrayCalc.Proofs.Frames

/-!
# Computations that agree in a frame

`Agree` relates two computations from one moment of a frame: the first one stays in the frame, and
the second one does the same, unless it stops on the way with a failure that a guard raises.  The
evaluator is put together from parts that respect this relation, so it is enough to know it of the
ways to evaluate parts of trees and to call operators.
-/

namespace ArrayCalc.Evaluation

open Workspace

variable [Machine] {α β : Type} {stop : Failure → Prop} {w₀ w : Workspace}

/-- Two computations do the same from `w` on, unless the second one stops, and the first one stays
in the frame of `w₀`. -/
def Agree (stop : Failure → Prop) (w₀ w : Workspace) (x y : Evaluation α) : Prop :=
  (x.run w = y.run w ∨ ∃ failure w', stop failure ∧ y.run w = .error failure w') ∧
    Outcome x w (fun _ w' => w₀.SameFrame w') fun failure w' => w₀.Leaves w' failure

/-- Two computations agree from every moment of the frame on. -/
def Agrees (stop : Failure → Prop) (w₀ : Workspace) (x y : Evaluation α) : Prop :=
  ∀ w, w₀.SameFrame w → Agree stop w₀ w x y

namespace Agree

theorem pure {a : α} (h : w₀.SameFrame w) : Agree stop w₀ w (Pure.pure a) (Pure.pure a) :=
  ⟨.inl rfl, h⟩

theorem throw {failure : Failure} (h : w₀.SameFrame w) :
    Agree stop w₀ w (throw failure : Evaluation α) (MonadExcept.throw failure) :=
  ⟨.inl rfl, .frame h⟩

theorem bind {x y : Evaluation α} {f g : α → Evaluation β} (hx : Agree stop w₀ w x y)
    (hf : ∀ a, Agrees stop w₀ (f a) (g a)) : Agree stop w₀ w (x >>= f) (y >>= g) := by
  obtain ⟨same | ⟨failure, w', stopped, hy⟩, stays⟩ := hx
  · constructor
    · rw [EStateM.run_bind, EStateM.run_bind, ← same]
      cases h : x.run w with
      | ok a w' => exact (hf a w' (stays.of_ok h)).1
      | error => exact .inl rfl
    · exact .bind stays fun a w' h => (hf a w' h).2
  · exact ⟨.inr ⟨failure, w', stopped, run_bind_error hy g⟩,
      .bind stays fun a w' h => (hf a w' h).2⟩

theorem get {f g : Workspace → Evaluation β} (h : Agree stop w₀ w (f w) (g w)) :
    Agree stop w₀ w (MonadState.get >>= f) (MonadState.get >>= g) := h

theorem set {w' : Workspace} {f g : PUnit → Evaluation β} (h : Agree stop w₀ w' (f ⟨⟩) (g ⟨⟩)) :
    Agree stop w₀ w (MonadStateOf.set w' >>= f) (MonadStateOf.set w' >>= g) := h

theorem ofResult (h : w₀.SameFrame w) (r : Result α) :
    Agree stop w₀ w (Evaluation.ofResult r) (Evaluation.ofResult r) := by
  cases r with
  | ok a => exact .pure h
  | error => exact .throw h

end Agree

namespace Agrees

theorem bind {x y : Evaluation α} {f g : α → Evaluation β} (hx : Agrees stop w₀ x y)
    (hf : ∀ a, Agrees stop w₀ (f a) (g a)) : Agrees stop w₀ (x >>= f) (y >>= g) :=
  fun w h => (hx w h).bind hf

theorem pure (a : α) : Agrees stop w₀ (Pure.pure a) (Pure.pure a) := fun _ h => .pure h

theorem throw (failure : Failure) :
    Agrees stop w₀ (MonadExcept.throw failure : Evaluation α) (MonadExcept.throw failure) :=
  fun _ h => .throw h

theorem fail (e : Error) : Agrees stop w₀ (Evaluation.fail e : Evaluation α) (Evaluation.fail e) :=
  .throw _

theorem ofResult (r : Result α) : Agrees stop w₀ (Evaluation.ofResult r) (Evaluation.ofResult r) :=
  fun _ h => .ofResult h r

theorem get {f g : Workspace → Evaluation β} (h : ∀ w, w₀.SameFrame w → Agree stop w₀ w (f w) (g w)) :
    Agrees stop w₀ (MonadState.get >>= f) (MonadState.get >>= g) := fun w hw => .get (h w hw)

theorem mapM {f g : α → Evaluation β} (xs : List α) (h : ∀ a ∈ xs, Agrees stop w₀ (f a) (g a)) :
    Agrees stop w₀ (xs.mapM f) (xs.mapM g) := by
  induction xs with
  | nil => exact .pure []
  | cons x xs ih =>
    rw [List.mapM_cons, List.mapM_cons]
    refine .bind (h x List.mem_cons_self) fun b => ?_
    refine .bind (ih fun a ha => h a (List.mem_cons_of_mem x ha)) fun bs => .pure _

end Agrees

/-! ## § Places -/

theorem defined_agrees (name : String) (v : Option Value) :
    Agrees stop w₀ (defined name v) (defined name v) := by
  unfold defined
  split
  · exact .pure _
  · exact .pure _
  · exact .fail _

theorem readSlot_agrees (slot : Nat) : Agrees stop w₀ (readSlot slot) (readSlot slot) := by
  refine .get fun w h => ?_
  split
  · exact .throw h
  · split
    · exact .pure h
    · exact .throw h

theorem read_agrees (place : Place) : Agrees stop w₀ place.read place.read := by
  cases place with
  | ofSession name => exact .get fun w h => defined_agrees name _ w h
  | ofFrame name slot => exact .bind (readSlot_agrees slot) fun v => defined_agrees name _

theorem write_agrees (v : Value) (place : Place) :
    Agrees stop w₀ (place.write v) (place.write v) := by
  cases place with
  | ofSession name => exact fun w h => ⟨.inl rfl, h.setGlobal name v⟩
  | ofFrame name slot =>
    refine .get fun w h => ?_
    split
    · exact .throw h
    · split
      next hs => exact ⟨.inl rfl, h.setSlot? hs⟩
      next => exact .throw h

/-! ## § Derived operators -/

variable {apply apply' : Applying}

/-- Two ways to apply binary operators that agree. -/
def ApplyingAgrees (stop : Failure → Prop) (w₀ : Workspace) (apply apply' : Applying) : Prop :=
  ∀ l operator r, Agrees stop w₀ (apply l operator r) (apply' l operator r)

theorem fold_agrees (h : ApplyingAgrees stop w₀ apply apply') (operator : String)
    (items : List Scalar) (last : Scalar) :
    Agrees stop w₀ (fold apply operator items last) (fold apply' operator items last) := by
  unfold fold
  induction items with
  | nil => exact .pure _
  | cons item items ih =>
    rw [List.foldrM_cons, List.foldrM_cons]
    exact .bind ih fun total => h _ _ _

theorem foldItems_agrees (h : ApplyingAgrees stop w₀ apply apply') (operator : String)
    (items : List Scalar) :
    Agrees stop w₀ (foldItems apply operator items) (foldItems apply' operator items) := by
  unfold foldItems
  split
  · exact fold_agrees h _ _ _
  · exact .fail _

theorem reduce_agrees (h : ApplyingAgrees stop w₀ apply apply') (operator : String) (v : Value) :
    Agrees stop w₀ (reduce apply operator v) (reduce apply' operator v) := by
  refine .bind (.ofResult _) fun items => .get fun w hw => ?_
  dsimp only
  split
  · split
    · exact .pure hw
    · exact .throw hw
  · exact .pure hw
  · split
    · exact .pure hw
    · exact foldItems_agrees h operator items w hw

theorem scalarOr_agrees (e : ShapeError) (v : Value) :
    Agrees stop w₀ (scalarOr e v) (scalarOr e v) := by
  unfold scalarOr
  split
  · exact .pure _
  · exact .fail _

theorem scan_agrees (h : ApplyingAgrees stop w₀ apply apply') (operator : String) (v : Value) :
    Agrees stop w₀ (scan apply operator v) (scan apply' operator v) := by
  unfold scan
  split
  · exact .pure _
  · refine .bind (.ofResult _) fun items => .get fun w hw => ?_
    dsimp only
    split
    · exact .pure hw
    · split
      · exact .pure hw
      next first rest _ =>
        refine .bind ?_ fun totals => .pure _
        refine Agrees.mapM _ (fun i _ => ?_) w hw
        exact .bind (foldItems_agrees h operator _) fun v => scalarOr_agrees _ v

theorem outer_agrees {both both' each each' : Value → Value → Evaluation Value}
    (hb : ∀ a b, Agrees stop w₀ (both a b) (both' a b))
    (he : ∀ a b, Agrees stop w₀ (each a b) (each' a b)) (word combiner : String) (l r : Value) :
    Agrees stop w₀ (outer both each word combiner l r) (outer both' each' word combiner l r) := by
  unfold outer
  split
  · exact .fail _
  · refine .bind (.mapM _ fun item _ => ?_) fun _ => .pure _
    exact .bind (he _ _) fun v => scalarOr_agrees _ v
  · refine .bind (.mapM _ fun item _ => ?_) fun _ => .pure _
    exact .bind (he _ _) fun v => scalarOr_agrees _ v
  · exact hb _ _
  · exact .throw _

theorem inner_agrees (h : ApplyingAgrees stop w₀ apply apply')
    {combine combine' : Value → Value → Evaluation Value}
    (hc : ∀ a b, Agrees stop w₀ (combine a b) (combine' a b)) (word reducer combiner : String)
    (l r : Value) :
    Agrees stop w₀ (inner apply combine word reducer combiner l r)
      (inner apply' combine' word reducer combiner l r) := by
  unfold inner
  refine .bind (.ofResult _) fun (lefts, rights) => ?_
  dsimp only
  split
  · exact .fail _
  · refine .get fun w hw => ?_
    split
    · exact .pure hw
    · refine .bind (Agrees.mapM _ (fun (a, b) _ => ?_) w hw) fun combined =>
        reduce_agrees h reducer _
      exact .bind (hc _ _) fun v => scalarOr_agrees _ v

theorem applyProduct_agrees {single single' : Nat → Applying}
    (h : ∀ toll, ApplyingAgrees stop w₀ (single toll) (single' toll)) (toll : Nat)
    (operators : List String) (l r : Value) :
    Agrees stop w₀ (applyProduct single toll operators l r)
      (applyProduct single' toll operators l r) := by
  induction operators generalizing toll l r with
  | nil => exact h toll _ _ _
  | cons operator operators ih =>
    cases operators with
    | nil => exact h toll _ _ _
    | cons combiner others =>
      unfold applyProduct
      dsimp only
      split
      · exact .fail _
      · split
        · exact outer_agrees (ih _) (ih _) _ _ _ _
        · exact inner_agrees (h _) (ih _) _ _ _ _ _

/-! ## § Operators -/

variable {call call' : Nat → Calling} {eval eval' : Evaluating}

/-- Two ways to call stored operators that agree. -/
def CallingAgrees (stop : Failure → Prop) (w₀ : Workspace) (call call' : Calling) : Prop :=
  ∀ arity name f, w₀.userOperator? arity name = some f →
    ∀ operands, Agrees stop w₀ (call f operands) (call' f operands)

/-- Two ways to evaluate trees that agree, as long as the trees fit into the frame. -/
def EvaluatingAgrees (stop : Failure → Prop) (w₀ : Workspace) (eval eval' : Evaluating) : Prop :=
  ∀ e, w₀.Fits e → Agrees stop w₀ (eval e) (eval' e)

theorem applySingle_agrees (hc : ∀ toll, CallingAgrees stop w₀ (call toll) (call' toll))
    (toll : Nat) : ApplyingAgrees stop w₀ (applySingle call toll) (applySingle call' toll) := by
  intro l operator r
  refine .get fun w h => ?_
  split
  next hf =>
    rw [h.userOperator?] at hf
    exact hc _ _ _ _ hf _ w h
  · exact .ofResult h _
  · exact .throw h

theorem applyBinary_agrees (hc : ∀ toll, CallingAgrees stop w₀ (call toll) (call' toll))
    (toll : Nat) : ApplyingAgrees stop w₀ (applyBinary call toll) (applyBinary call' toll) :=
  fun _ _ _ => applyProduct_agrees (applySingle_agrees hc) _ _ _ _

theorem applyPrimitive_agrees (primitive : UnaryPrimitive) (v : Value) :
    Agrees stop w₀ (applyPrimitive primitive v) (applyPrimitive primitive v) :=
  .get fun _ h => .set (.ofResult (h.setDice _) _)

theorem applyUnary_agrees (hc : ∀ toll, CallingAgrees stop w₀ (call toll) (call' toll))
    (word : String) (v : Value) :
    Agrees stop w₀ (applyUnary call word v) (applyUnary call' word v) := by
  unfold applyUnary
  split
  · exact reduce_agrees (applyBinary_agrees hc _) _ _
  · exact scan_agrees (applyBinary_agrees hc _) _ _
  · refine .get fun w h => ?_
    split
    next hf =>
      rw [h.userOperator?] at hf
      exact hc _ _ _ _ hf _ w h
    · exact applyPrimitive_agrees _ _ w h
    · exact .throw h

/-! ## § Trees -/

theorem subscript_agrees (he : EvaluatingAgrees stop w₀ eval eval') {subscripts : List Expr}
    (hf : ∀ e ∈ subscripts, w₀.Fits e) :
    Agrees stop w₀ (subscript eval subscripts) (subscript eval' subscripts) := by
  unfold subscript
  split
  · exact .pure _
  next e hs =>
    have : e ∈ subscripts := (List.mem_filter.1 (hs ▸ List.mem_singleton_self e)).1
    exact .bind (he e (hf e this)) fun v => .pure _
  · exact .fail _

theorem assignElements_agrees (he : EvaluatingAgrees stop w₀ eval eval') (base : Expr)
    {subscripts : List Expr} (hf : ∀ e ∈ subscripts, w₀.Fits e) (v : Value) :
    Agrees stop w₀ (assignElements eval base subscripts v)
      (assignElements eval' base subscripts v) := by
  unfold assignElements
  split
  · exact .fail _
  · refine .bind (read_agrees _) fun v => ?_
    split
    · refine .bind (subscript_agrees he hf) fun chosen => .get fun w h => ?_
      exact .bind (.ofResult h _) fun items => write_agrees _ _
    · exact .fail _

theorem assign_agrees (he : EvaluatingAgrees stop w₀ eval eval') {target : Expr}
    (hf : ∀ base subscripts, target = .index base subscripts → ∀ e ∈ subscripts, w₀.Fits e)
    (v : Value) : Agrees stop w₀ (assign eval target v) (assign eval' target v) := by
  unfold assign
  split
  · exact write_agrees _ _
  · exact write_agrees _ _
  next base subscripts => exact assignElements_agrees he base (hf base subscripts rfl) v
  · exact .fail _

theorem strandItems_agrees (he : EvaluatingAgrees stop w₀ eval eval') {e : Expr} (hf : w₀.Fits e) :
    Agrees stop w₀ (strandItems eval e) (strandItems eval' e) := by
  refine .bind (he e hf) fun v => ?_
  split
  · exact .pure _
  · exact .pure _
  · exact .throw _

theorem holds_agrees (he : EvaluatingAgrees stop w₀ eval eval') {condition : Expr}
    (hf : w₀.Fits condition) : Agrees stop w₀ (holds eval condition) (holds eval' condition) :=
  .bind (he condition hf) fun _ => .ofResult _

theorem node_agrees {eval eval' : Nat → Evaluating}
    (he : ∀ toll, EvaluatingAgrees stop w₀ (eval toll) (eval' toll))
    (hc : ∀ toll, CallingAgrees stop w₀ (call toll) (call' toll)) {e : Expr} (hf : w₀.Fits e) :
    Agrees stop w₀ (node eval call e) (node eval' call' e) := by
  cases e with
  | constant => exact .pure _
  | string => exact .pure _
  | sessionVar name => exact read_agrees (.ofSession name)
  | slotVar name slot => exact read_agrees (.ofFrame name slot)
  | unary operator right =>
    exact .bind (he 0 right (hf.part (by simp [Expr.nodes]))) fun _ => applyUnary_agrees hc _ _
  | binary operator left right =>
    refine .bind (he 0 right (hf.part (by simp [Expr.nodes]))) fun r => ?_
    exact .bind (he 0 left (hf.part (by simp [Expr.nodes]))) fun _ => applyBinary_agrees hc _ _ _ _
  | assign target value =>
    refine .bind (he 0 value (hf.part (by simp [Expr.nodes]))) fun v => ?_
    refine .bind (assign_agrees (he 3) (fun base subscripts ht e hm => ?_) v) fun _ => .pure _
    refine hf.part fun node hn => ?_
    simp [ht, Expr.nodes, Expr.nodes_subset_nodesOf hm hn]
  | conditional condition result =>
    refine .bind (holds_agrees (he 0) (hf.part (by simp [Expr.nodes]))) fun b => ?_
    split
    · exact he 0 result (hf.part (by simp [Expr.nodes]))
    · exact .pure _
  | index base subscripts =>
    refine .bind (he 0 base (hf.part (by simp [Expr.nodes]))) fun v => ?_
    refine .bind (subscript_agrees (he 1) fun e hm => ?_) fun chosen =>
      .get fun w h => .ofResult h _
    refine hf.part fun node hn => ?_
    simp [Expr.nodes, Expr.nodes_subset_nodesOf hm hn]
  | strand items =>
    refine .bind (.mapM _ fun e hm => strandItems_agrees (he 2) ?_) fun rows => .pure _
    refine hf.part fun node hn => ?_
    simp [Expr.nodes, Expr.nodes_subset_nodesOf hm hn]
  | empty => exact .pure _

/-! ## § Bodies -/

theorem runBody_agrees (he : EvaluatingAgrees stop w₀ eval eval') {es : List Expr}
    (hf : ∀ e ∈ es, w₀.Fits e) (v : Value) :
    Agrees stop w₀ (runBody eval es v) (runBody eval' es v) := by
  induction es generalizing v with
  | nil =>
    cases v with
    | absent => exact .fail _
    | scalar => exact .pure _
    | vector => exact .pure _
  | cons e es ih =>
    have ih := ih fun e hm => hf e (List.mem_cons_of_mem _ hm)
    have fits := hf e List.mem_cons_self
    have step : Agrees stop w₀ (eval e >>= runBody eval es) (eval' e >>= runBody eval' es) :=
      .bind (he e fits) ih
    cases e with
    | empty => exact ih v
    | conditional condition result =>
      refine .bind (holds_agrees he (fits.part (by simp [Expr.nodes]))) fun b => ?_
      split
      · exact he result (fits.part (by simp [Expr.nodes]))
      · exact ih v
    | _ => exact step

end ArrayCalc.Evaluation
