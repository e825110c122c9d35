import ArrayCalc.Evaluation
import ArrayCalc.Proofs.Outcome

/-!
# Trees without effects

A constant, a strand of constants and the application of a primitive have a value and leave the
workspace as it is.  A primitive does so only while the user has no operator of its name, and only if
it draws nothing.
-/

namespace ArrayCalc.Evaluation

variable [Machine] {w w' : Workspace} {v result : Value} {e : Expr} {depth toll : Nat}

/-- A toll is taken off the depth. -/
theorem evaluateWithin_add (depth toll : Nat) (e : Expr) :
    evaluateWithin (depth + toll) toll e = evaluateWithin depth 0 e := by
  induction toll with
  | zero => rfl
  | succ toll ih =>
    rw [← Nat.add_assoc, evaluateWithin]
    exact ih

/-- A tree with the same value everywhere. -/
def Constant (depth toll : Nat) (e : Expr) (v : Value) : Prop :=
  ∀ w, (evaluateWithin depth toll e).run w = .ok v w

theorem constant_scalar (h : toll < depth) (s : Scalar) :
    Constant depth toll (.constant s) (.scalar s) := by
  obtain ⟨rest, rfl⟩ := Nat.exists_eq_add_of_lt h
  intro w
  rw [Nat.add_assoc, Nat.add_comm, evaluateWithin_add]
  rfl

theorem constant_string (h : toll < depth) (text : List CodePoint) :
    Constant depth toll (.string text) (.ofText text) := by
  obtain ⟨rest, rfl⟩ := Nat.exists_eq_add_of_lt h
  intro w
  rw [Nat.add_assoc, Nat.add_comm, evaluateWithin_add]
  rfl

theorem constant_strand (h : toll + 3 < depth) (items : List Scalar) :
    Constant depth toll (.strand (items.map .constant)) (.vector items) := by
  obtain ⟨rest, rfl⟩ := Nat.exists_eq_add_of_lt h
  intro w
  have deep : toll + 3 + rest + 1 = rest + 3 + 1 + toll := by omega
  rw [deep, evaluateWithin_add]
  have parts : (items.map Expr.constant).mapM
      (strandItems fun part => evaluateWithin (rest + 3) 2 part)
      = (pure (items.map fun s => [s]) : Evaluation _) := by
    rw [List.mapM_map]
    exact List.mapM_pure
  have flat : (items.map fun s => [s]).flatten = items := by
    rw [← List.flatMap_def]
    exact List.flatMap_singleton' items
  show (do return Value.vector (← (items.map Expr.constant).mapM
    (strandItems fun part => evaluateWithin (rest + 3) 2 part)).flatten : Evaluation Value).run w = _
  rw [parts, pure_bind, flat]
  rfl

section Primitive

variable {primitive : UnaryPrimitive} {word : String}
  (plain : OperatorWord.splitMark? word = none) (free : w.userOperator? .unary word = none)
  (named : UnaryPrimitive.ofName? word = some primitive)
  (applied : primitive.apply w.settings.origin w.dice v = (.ok result, w.dice))

include plain free named applied

/-- A primitive that the user has not redefined is applied as it is. -/
theorem run_applyUnary (call : Nat → Calling) : (applyUnary call word v).run w = .ok result w := by
  unfold applyUnary
  rw [plain]
  dsimp only
  rw [EStateM.run_bind, EStateM.run_get]
  dsimp only
  rw [free, named]
  show EStateM.run (do
    set { w with dice := (primitive.apply w.settings.origin w.dice v).2 }
    ofResult (primitive.apply w.settings.origin w.dice v).1 : Evaluation Value) w = _
  rw [applied]
  rfl

theorem run_unary (hv : (evaluateWithin depth 0 e).run w' = .ok v w) :
    (evaluateWithin (depth + 1) 0 (.unary word e)).run w' = .ok result w := by
  rw [evaluateWithin]
  show ((evaluateWithin depth 0 e) >>= fun v =>
    applyUnary (fun toll f operands => callWithin depth toll f operands) word v :
      Evaluation Value).run w' = _
  rw [run_bind_ok hv]
  exact run_applyUnary plain free named applied _

end Primitive

/-- The line of one tree gives its value, unless there is none to print. -/
theorem evaluateLine_single (tree : (evaluate e).run w = .ok v w') (printed : e.isSilent = false)
    (there : v ≠ .absent) : (evaluateLine [e]).run w = .ok [v] w' := by
  have shown : (e.isSilent || v == .absent) = false := by
    rw [printed, Bool.false_or]
    exact beq_false_of_ne there
  rw [evaluateLine, run_bind_ok tree]
  show EStateM.Result.ok (if (e.isSilent || v == .absent) = true then [] else [v]) w' = _
  rw [shown]
  rfl

theorem evaluateLine_constant (room : 0 < Machine.calls) (s : Scalar) (w : Workspace) :
    (evaluateLine [.constant s]).run w = .ok [.scalar s] w :=
  evaluateLine_single (constant_scalar room s w) rfl nofun

theorem evaluateLine_string (room : 0 < Machine.calls) (text : List CodePoint) (w : Workspace) :
    (evaluateLine [.string text]).run w = .ok [.ofText text] w :=
  evaluateLine_single (constant_string room text w) rfl nofun

/-- Operands side by side are answered with the vector of them. -/
theorem evaluateLine_strand (room : 4 ≤ Machine.calls) (items : List Scalar) (w : Workspace) :
    (evaluateLine [.strand (items.map .constant)]).run w = .ok [.vector items] w :=
  evaluateLine_single (constant_strand room items w) rfl nofun

end ArrayCalc.Evaluation
