import ArrayCalc.Evaluation
import ArrayCalc.Proofs.Libraries
import ArrayCalc.Proofs.OperatorWords

/-!
# Bulk routes and folds

A reduction is a fold from the right by a binary operator, and a bulk route leaves a row to the array
library.  On integers the two agree, if the library is exact: the fold from the right is the total of
the row as well, since the primitives of these names do on two words what the operations do,
wrapping included.

The one total that is not such a fold is that of a row of floats.  There `max` and `min` are left to
the library, and a reduction takes them from `Bulk.floatTotal?`; a product comes there when its
second operator makes floats of integers.
-/

namespace ArrayCalc

namespace Bulk

variable {operator : String} {items : List Scalar} {operation : Operation}

/-! ## § Rows of one kind -/

theorem ints?_map_int (ns : List Int64) : ints? (ns.map .int) = some ns := by
  unfold ints?
  induction ns with
  | nil => rfl
  | cons n ns ih => simp [ih]

/-- A row of integers. -/
theorem map_int_of_ints? {ns : List Int64} (h : ints? items = some ns) : items = ns.map .int := by
  unfold ints? at h
  induction items generalizing ns with
  | nil => simp_all
  | cons item items ih =>
    simp only [List.mapM_cons, Option.bind_eq_bind, Option.bind_eq_some_iff] at h
    obtain ⟨n, hn, rest, hr, hns⟩ := h
    obtain rfl := Option.some.inj hns
    cases item with
    | int m =>
      obtain rfl := Option.some.inj hn
      rw [List.map_cons, ← ih hr]
    | _ => simp at hn

theorem floats?_map_int (n : Int64) (ns : List Int64) :
    floats? ((n :: ns).map .int) = none := by
  simp [floats?]

theorem isSome_floats?_iff (items : List Scalar) :
    (floats? items).isSome ↔ ∀ item ∈ items, ∃ x, item = .float x := by
  unfold floats?
  induction items with
  | nil => simp
  | cons item items ih =>
    rw [List.forall_mem_cons, ← ih, List.mapM_cons]
    cases item <;> simp [Option.isSome_bind]

/-- The operators that stand for an operation of the library. -/
inductive Operation.Named : String → Operation → Prop
  | sum : Named "+" .sum
  | product : Named "*" .product
  | largest : Named "max" (.extreme .largest)
  | smallest : Named "min" (.extreme .smallest)

theorem Operation.named_of_ofName? {operator : String} {operation : Operation}
    (h : ofName? operator = some operation) : Named operator operation := by
  unfold ofName? at h
  split at h
  · exact Option.some.inj h ▸ .sum
  · exact Option.some.inj h ▸ .product
  · exact Option.some.inj h ▸ .largest
  · exact Option.some.inj h ▸ .smallest
  · exact nomatch h

theorem isSome_extreme?_iff (operator : String) :
    ((Operation.ofName? operator).bind Operation.extreme?).isSome
      ↔ operator = "max" ∨ operator = "min" := by
  unfold Operation.ofName?
  split <;> simp_all [Operation.extreme?]

variable [Machine]

/-- The total of a row of floats that a reduction takes from the library. -/
def floatTotal? (operator : String) (items : List Scalar) : Option Float := do
  let e ← (Operation.ofName? operator).bind Operation.extreme?
  let xs ← floats? items
  if 2 ≤ items.length ∧ Machine.policy.covers items.length = true then
    return Machine.library.reduceFloats e xs
  else none

theorem isSome_floatTotal?_iff (operator : String) (items : List Scalar) :
    (floatTotal? operator items).isSome ↔ (operator = "max" ∨ operator = "min") ∧
      2 ≤ items.length ∧ Machine.policy.covers items.length = true ∧
        ∀ item ∈ items, ∃ x, item = .float x := by
  rw [← isSome_extreme?_iff, ← isSome_floats?_iff]
  unfold floatTotal?
  cases (Operation.ofName? operator).bind Operation.extreme? with
  | none => simp
  | some e =>
    cases floats? items with
    | none => simp
    | some xs =>
      by_cases asked : 2 ≤ items.length ∧ Machine.policy.covers items.length = true
      · simp [asked]
      · simp [asked]

theorem floatTotal?_singleton (operator : String) (item : Scalar) :
    floatTotal? operator [item] = none := by
  rw [← Option.not_isSome_iff_eq_none, isSome_floatTotal?_iff]
  rintro ⟨-, long, -⟩
  exact absurd long (by simp)

theorem floatTotal?_ints (operator : String) {ns : List Int64} (h : ns ≠ []) :
    floatTotal? operator (ns.map .int) = none := by
  obtain ⟨n, ns, rfl⟩ := List.exists_cons_of_ne_nil h
  unfold floatTotal?
  rw [floats?_map_int]
  cases (Operation.ofName? operator).bind Operation.extreme? <;> rfl

/-! ## § Routes -/

/-- What comes of it when the library is asked for the total of a row. -/
inductive Route (operator : String) (items : List Scalar) : Option Scalar → Prop
  | none (floats : floatTotal? operator items = none) : Route operator items none
  | ints {operation : Operation} {ns : List Int64}
      (named : Operation.ofName? operator = some operation) (row : items = ns.map .int) :
      Route operator items (some (.int (Machine.library.reduceInts operation ns)))
  | floats {total : Float} (floats : floatTotal? operator items = some total) :
      Route operator items (some (.float total))

theorem route (operator : String) (h : 2 ≤ items.length) :
    Route operator items (reduce? operator items) := by
  unfold reduce?
  cases named : Operation.ofName? operator with
  | none => exact .none (by rw [floatTotal?, named]; rfl)
  | some operation =>
    by_cases covered : Machine.policy.covers items.length = true
    · show Route operator items (if Machine.policy.covers items.length = true then _ else _)
      rw [if_pos covered]
      cases ints : ints? items with
      | some ns => exact .ints named (map_int_of_ints? ints)
      | none =>
        have asked : floatTotal? operator items = (do
            return Machine.library.reduceFloats (← operation.extreme?) (← floats? items)) := by
          unfold floatTotal?
          rw [named]
          show (operation.extreme?.bind fun e => (floats? items).bind fun xs => _) = _
          simp only [h, covered, and_self, if_true]
          rfl
        cases floats : floats? items with
        | none =>
          refine .none ?_
          rw [asked, floats]
          cases operation.extreme? <;> rfl
        | some xs =>
          cases extreme : operation.extreme? with
          | none => exact .none (by rw [asked, extreme]; rfl)
          | some e => exact .floats (by rw [asked, extreme, floats]; rfl)
    · show Route operator items (if Machine.policy.covers items.length = true then _ else _)
      rw [if_neg covered]
      refine .none ?_
      rw [← Option.not_isSome_iff_eq_none, isSome_floatTotal?_iff]
      exact fun asked => covered asked.2.2.1

theorem scan?_nil (operator : String) : scan? operator [] = none := by
  unfold scan?
  cases Operation.ofName? operator with
  | none => rfl
  | some operation =>
    refine if_neg ?_
    have := Machine.policy.leastLength_pos
    simp [Policy.covers]
    omega

/-- A scan of integers is left to the library, or not. -/
theorem scan?_ints {ns : List Int64} {totals : List Scalar}
    (h : scan? operator (ns.map .int) = some totals) :
    ∃ operation, Operation.ofName? operator = some operation ∧
      totals = (Machine.library.scanInts operation ns).map .int := by
  obtain ⟨operation, named, h⟩ := Option.bind_eq_some_iff.1 h
  split at h
  · rw [ints?_map_int] at h
    exact ⟨operation, named, (Option.some.inj h).symm⟩
  · exact nomatch h

end Bulk

namespace BinaryPrimitive

variable {op : BinaryPrimitive} {name : String}

theorem name_of_ofName? (h : ofName? name = some op) : op.name = name :=
  eq_of_beq (List.find?_some h :)

/-- No name of a primitive has a point in it. -/
theorem plain_name (op : BinaryPrimitive) :
    '.' ∉ op.name.toList ∧ op.name ≠ "" := by
  cases op <;> decide

end BinaryPrimitive

namespace Evaluation

/-- What a reduction takes from the library for a row of floats, if it goes there. -/
def floatRoute [Machine] (operator : String) (items : List Scalar) : Evaluation (Option Float) := do
  return if ((← get).primitive? operator).isSome then Bulk.floatTotal? operator items else none

/-! ## § Primitives on integers -/

theorem pick_ints (operator : String) {order : Primitive.Order} {a b : Int64} {holds : Bool}
    (h : Primitive.ordered? order (.ints a b) = some holds) :
    Primitive.pick operator order (.scalar (.int a)) (.scalar (.int b)) =
      .ok (.int (if holds = true then a else b)) := by
  have met : Operands.meet operator (.scalar (.int a)) (.scalar (.int b)) = .ok (.ints a b) := rfl
  unfold Primitive.pick
  rw [met]
  dsimp only [bind, Except.bind]
  rw [h]
  cases holds <;> rfl

theorem maximum_ints (a b : Int64) :
    Primitive.maximum (.scalar (.int a)) (.scalar (.int b)) =
      .ok (.int (if a ≥ b then a else b)) := by
  have ordered : Primitive.ordered? .greaterEqual (.ints a b)
      = some (decide (b.toInt ≤ a.toInt)) := rfl
  refine (pick_ints "max" ordered).trans ?_
  simp only [decide_eq_true_eq, ge_iff_le, Int64.le_iff_toInt_le]

theorem minimum_ints (a b : Int64) :
    Primitive.minimum (.scalar (.int a)) (.scalar (.int b)) =
      .ok (.int (if a ≤ b then a else b)) := by
  have ordered : Primitive.ordered? .lessEqual (.ints a b)
      = some (decide (a.toInt ≤ b.toInt)) := rfl
  refine (pick_ints "min" ordered).trans ?_
  simp only [decide_eq_true_eq, Int64.le_iff_toInt_le]

variable {w : Workspace} {operator : String} {operation : Bulk.Operation} {op : BinaryPrimitive}
  {call : Nat → Calling} {toll : Nat}

theorem userOperator?_eq_none (h : (w.primitive? operator).isSome) :
    w.userOperator? .binary operator = none := by
  unfold Workspace.primitive? at h
  split at h
  · simp at h
  next unbound =>
    simpa [Bindings.contains, Workspace.userOperator?, Workspace.table] using unbound

theorem applySingle_primitive (call : Nat → Calling) (toll : Nat) {primitive : BinaryPrimitive}
    (l r : Value) (hp : (w.primitive? operator).isSome)
    (hn : BinaryPrimitive.ofName? operator = some primitive) :
    (applySingle call toll l operator r).run w = (ofResult (primitive.apply l r)).run w := by
  unfold applySingle
  rw [EStateM.run_bind, EStateM.run_get]
  simp only [userOperator?_eq_none hp, hn]

/-- A primitive that has a bulk route does to two integers what the operation of the library does. -/
theorem applySingle_ints (call : Nat → Calling) (toll : Nat) (hp : (w.primitive? operator).isSome)
    (named : Bulk.Operation.ofName? operator = some operation) (a b : Int64) :
    (applySingle call toll (.scalar (.int a)) operator (.scalar (.int b))).run w
      = .ok (.scalar (.int (operation.onInts a b))) w := by
  cases Bulk.Operation.named_of_ofName? named with
  | sum => exact applySingle_primitive call toll _ _ hp rfl
  | product => exact applySingle_primitive call toll _ _ hp rfl
  | largest =>
    rw [applySingle_primitive call toll _ _ hp rfl]
    show (ofResult ((Primitive.maximum _ _).map Value.scalar)).run w = _
    rw [maximum_ints]
    rfl
  | smallest =>
    rw [applySingle_primitive call toll _ _ hp rfl]
    show (ofResult ((Primitive.minimum _ _).map Value.scalar)).run w = _
    rw [minimum_ints]
    rfl

/-! ## § Folds of integers -/

/-- The way to apply a binary operator that is an operation of the library, at a workspace. -/
def AppliesWord (apply : Applying) (operator : String) (operation : Bulk.Operation)
    (w : Workspace) : Prop :=
  ∀ a b, (apply (.scalar (.int a)) operator (.scalar (.int b))).run w
    = .ok (.scalar (.int (operation.onInts a b))) w

/-- A fold over numbers of one kind, on which the operator is a function. -/
theorem fold_map {α : Type} {mk : α → Scalar} {g : α → α → α} {apply : Applying}
    (h : ∀ a b, (apply (.scalar (mk a)) operator (.scalar (mk b))).run w
      = .ok (.scalar (mk (g a b))) w) (as : List α) (last : α) :
    (fold apply operator (as.map mk) (mk last)).run w = .ok (.scalar (mk (as.foldr g last))) w := by
  unfold fold
  induction as with
  | nil => rfl
  | cons a as ih =>
    rw [List.map_cons, List.foldrM_cons, List.foldr_cons, EStateM.run_bind, ih]
    exact h a _

theorem foldItems_concat (apply : Applying) (operator : String) (items : List Scalar)
    (last : Scalar) : foldItems apply operator (items ++ [last]) = fold apply operator items last := by
  unfold foldItems
  rw [List.getLast?_concat, List.dropLast_concat]

/-- The fold of a row of integers is its total, in whatever order that is found. -/
theorem foldItems_ints {apply : Applying} (h : AppliesWord apply operator operation w)
    {ns : List Int64} {total : Int64} (some_ns : ns ≠ []) (ht : operation.IsTotal ns total) :
    (foldItems apply operator (ns.map .int)).run w = .ok (.scalar (.int total)) w := by
  obtain ⟨init, last, rfl⟩ : ∃ init last, ns = init ++ [last] :=
    ⟨_, _, (List.dropLast_concat_getLast some_ns).symm⟩
  rw [ht.unique (operation.isTotal_foldr init last), List.map_append, List.map_singleton,
    foldItems_concat]
  exact fold_map h init last

/-! ## § Words without points -/

theorem applyBinary_eq_applySingle [Machine] (call : Nat → Calling) (toll : Nat) {word : String}
    (h : '.' ∉ word.toList) (l r : Value) :
    applyBinary call toll l word r = applySingle call toll l word r := by
  rw [applyBinary, OperatorWord.operators_eq_singleton h]
  rfl

theorem primitive?_eq_some (h : w.primitive? operator = some op) :
    (w.primitive? operator).isSome ∧ BinaryPrimitive.ofName? operator = some op := by
  refine ⟨by rw [h]; rfl, ?_⟩
  unfold Workspace.primitive? at h
  split at h
  · exact nomatch h
  · exact h

/-- A primitive leaves the workspace alone. -/
theorem run_primitive [Machine] (call : Nat → Calling) (toll : Nat)
    (h : w.primitive? operator = some op) (l r : Value) :
    (applyBinary call toll l operator r).run w = (ofResult (op.apply l r)).run w := by
  obtain ⟨primitive, named⟩ := primitive?_eq_some h
  have plain : '.' ∉ operator.toList := by
    rw [← BinaryPrimitive.name_of_ofName? named]
    exact op.plain_name.1
  rw [applyBinary_eq_applySingle call toll plain]
  exact applySingle_primitive call toll l r primitive named

theorem point_notMem_of_ofName? (named : Bulk.Operation.ofName? operator = some operation) :
    '.' ∉ operator.toList := by
  cases Bulk.Operation.named_of_ofName? named <;> decide

theorem appliesWord_applyBinary [Machine] (call : Nat → Calling) (toll : Nat)
    (hp : (w.primitive? operator).isSome)
    (named : Bulk.Operation.ofName? operator = some operation) :
    AppliesWord (applyBinary call toll) operator operation w := by
  intro a b
  rw [applyBinary_eq_applySingle call toll (point_notMem_of_ofName? named)]
  exact applySingle_ints call toll hp named a b

/-! ## § Rows of folds -/

theorem run_map_ok {α β : Type} {g : α → β} {x : Evaluation α} {a : α} {w w' : Workspace}
    (h : x.run w = .ok a w') : (g <$> x).run w = .ok (g a) w' := by
  rw [map_eq_pure_bind, EStateM.run_bind, h]
  rfl

theorem run_mapM_ok {α β : Type} {step : α → Evaluation β} {g : α → β} {w : Workspace}
    (xs : List α) (h : ∀ x ∈ xs, (step x).run w = .ok (g x) w) :
    (xs.mapM step).run w = .ok (xs.map g) w := by
  induction xs with
  | nil => rfl
  | cons x xs ih =>
    rw [List.mapM_cons, EStateM.run_bind, h x List.mem_cons_self]
    simp only
    rw [EStateM.run_bind, ih fun y hy => h y (List.mem_cons_of_mem x hy)]
    rfl

/-- The folds of all beginnings of a row, in order. -/
def foldBeginnings (apply : Applying) (operator : String) (items : List Scalar) :
    Evaluation (List Scalar) :=
  (List.range items.length).mapM fun i => do
    scalarOr (.scanResult operator) (← foldItems apply operator (items.take (i + 1)))

/-- The first beginning has nothing to fold. -/
theorem foldBeginnings_cons (apply : Applying) (operator : String) (first : Scalar)
    (rest : List Scalar) :
    foldBeginnings apply operator (first :: rest) = (do
      let totals ← (List.range rest.length).mapM fun i => do
        scalarOr (.scanResult operator) (← foldItems apply operator ((first :: rest).take (i + 2)))
      return first :: totals) := by
  rw [foldBeginnings, List.length_cons, List.range_succ_eq_map, List.mapM_cons, List.mapM_map]
  rfl

theorem foldBeginnings_ints {apply : Applying} (h : AppliesWord apply operator operation w)
    (ns : List Int64) :
    (foldBeginnings apply operator (ns.map .int)).run w
      = .ok ((Bulk.accumulate operation.onInts ns).map .int) w := by
  rw [Bulk.accumulate_eq_map, List.map_map, foldBeginnings, List.length_map]
  refine run_mapM_ok _ fun i inside => ?_
  have some_ns : ns.take (i + 1) ≠ [] := by
    rw [Ne, List.take_eq_nil_iff, ← List.length_eq_zero_iff]
    have := List.mem_range.1 inside
    omega
  rw [← List.map_take, EStateM.run_bind, foldItems_ints h some_ns
    (Bulk.Library.standard_exactInts.reduce operation _ some_ns)]
  rfl

/-- What the second operator of a product makes of paired integers. -/
def combinePairs (apply : Applying) (word combiner : String) (as bs : List Int64) :
    Evaluation (List Scalar) :=
  (as.zip bs).mapM fun (a, b) => do
    scalarOr (.productResult word) (← apply (.scalar (.int a)) combiner (.scalar (.int b)))

theorem combinePairs_ints {apply : Applying} (h : AppliesWord apply operator operation w)
    (word : String) (as bs : List Int64) :
    (combinePairs apply word operator as bs).run w
      = .ok (((as.zip bs).map fun (a, b) => operation.onInts a b).map .int) w := by
  rw [List.map_map]
  refine run_mapM_ok _ fun (a, b) _ => ?_
  rw [EStateM.run_bind, h]
  rfl

theorem combinePairs_cons (apply : Applying) (word combiner : String) (a b : Int64)
    (as bs : List Int64) :
    combinePairs apply word combiner (a :: as) (b :: bs) = (do
      let first ← scalarOr (.productResult word)
        (← apply (.scalar (.int a)) combiner (.scalar (.int b)))
      let others ← combinePairs apply word combiner as bs
      return first :: others) := by
  rw [combinePairs, List.zip_cons_cons, List.mapM_cons, bind_assoc]
  rfl

section BulkRoutes

/-! ## § Reductions -/

variable [Machine]

theorem reduce_singleton (apply : Applying) (operator : String) (item : Scalar) (w : Workspace) :
    (reduce apply operator (.vector [item])).run w = .ok (.scalar item) w := rfl

theorem run_floatRoute (operator : String) (items : List Scalar) (w : Workspace) :
    (floatRoute operator items).run w =
      .ok (if (w.primitive? operator).isSome then Bulk.floatTotal? operator items else none) w :=
  rfl

/-- A reduction of two or more elements asks for a bulk route first. -/
theorem run_reduce (apply : Applying) (operator : String) {items : List Scalar}
    (h : 2 ≤ items.length) (w : Workspace) :
    (reduce apply operator (.vector items)).run w =
      match if (w.primitive? operator).isSome then Bulk.reduce? operator items else none with
      | some total => .ok (.scalar total) w
      | none => (foldItems apply operator items).run w := by
  match items, h with
  | a :: b :: rest, _ =>
    show EStateM.run (match if (w.primitive? operator).isSome
      then Bulk.reduce? operator (a :: b :: rest) else none with
      | some total => return .scalar total
      | none => foldItems apply operator (a :: b :: rest)) w = _
    split <;> rfl

/-- On a row that is not empty a reduction is the fold, unless the library takes a row of floats. -/
theorem reduce_eq_foldItems (exact : Machine.library.ExactInts) (call : Nat → Calling) (toll : Nat)
    (operator : String) {items : List Scalar} (h : items ≠ []) :
    reduce (applyBinary call toll) operator (.vector items) = (do
      match ← floatRoute operator items with
      | some total => return .scalar (.float total)
      | none => foldItems (applyBinary call toll) operator items) := by
  refine funext fun w => ?_
  show (reduce (applyBinary call toll) operator (.vector items)).run w = EStateM.run _ w
  rw [EStateM.run_bind (x := floatRoute operator items), run_floatRoute]
  by_cases short : items.length < 2
  · have one : items.length = 1 := by
      have := List.length_pos_iff.2 h
      omega
    obtain ⟨item, rfl⟩ := List.length_eq_one_iff.1 one
    rw [Bulk.floatTotal?_singleton, ite_self, reduce_singleton]
    rfl
  have long : 2 ≤ items.length := by omega
  rw [run_reduce _ _ long]
  by_cases hp : (w.primitive? operator).isSome
  · rw [if_pos hp, if_pos hp]
    have route := Bulk.route operator long
    generalize Bulk.reduce? operator items = answer at route
    cases route with
    | none floats => rw [floats]
    | floats floats => rw [floats]; rfl
    | @ints operation ns named row =>
      -- The total of the library is the fold.
      subst row
      have some_ns : ns ≠ [] := fun nil => h (by rw [nil]; rfl)
      have folded := foldItems_ints (appliesWord_applyBinary call toll hp named) some_ns
        (exact.reduce operation ns some_ns)
      rw [Bulk.floatTotal?_ints operator some_ns]
      dsimp only
      exact folded.symm
  · rw [if_neg hp, if_neg hp]

theorem reduce_ints (exact : Machine.library.ExactInts) (call : Nat → Calling) (toll : Nat)
    (operator : String) {ns : List Int64} (h : ns ≠ []) :
    reduce (applyBinary call toll) operator (.vector (ns.map .int))
      = foldItems (applyBinary call toll) operator (ns.map .int) := by
  have hne : ns.map Scalar.int ≠ [] := fun e => h (List.map_eq_nil_iff.1 e)
  rw [reduce_eq_foldItems exact call toll operator hne]
  refine funext fun w => ?_
  show EStateM.run _ w = _
  rw [EStateM.run_bind (x := floatRoute operator (ns.map .int)), run_floatRoute,
    Bulk.floatTotal?_ints operator h, ite_self]
  rfl

/-! ## § Scans -/

/-- A scan asks for a bulk route first. -/
theorem run_scan (apply : Applying) (operator : String) (first : Scalar) (rest : List Scalar)
    (w : Workspace) :
    (scan apply operator (.vector (first :: rest))).run w =
      match if (w.primitive? operator).isSome then Bulk.scan? operator (first :: rest)
        else none with
      | some totals => .ok (.vector totals) w
      | none => (Value.vector <$> foldBeginnings apply operator (first :: rest)).run w := by
  rw [foldBeginnings_cons]
  show EStateM.run (match if (w.primitive? operator).isSome
    then Bulk.scan? operator (first :: rest) else none with
    | some totals => return Value.vector totals
    | none => do
      let totals ← (List.range rest.length).mapM fun i => do
        scalarOr (.scanResult operator) (← foldItems apply operator ((first :: rest).take (i + 2)))
      return Value.vector (first :: totals)) w = _
  split
  · rfl
  · simp only [map_bind, map_pure]

/-- On integers a scan is the row of the folds of all beginnings. -/
theorem scan_ints (exact : Machine.library.ExactInts) (call : Nat → Calling) (toll : Nat)
    (operator : String) (ns : List Int64) :
    scan (applyBinary call toll) operator (.vector (ns.map .int))
      = Value.vector <$> foldBeginnings (applyBinary call toll) operator (ns.map .int) := by
  refine funext fun w => ?_
  show (scan (applyBinary call toll) operator (.vector (ns.map .int))).run w = EStateM.run _ w
  cases ns with
  | nil =>
    show EStateM.run (match if (w.primitive? operator).isSome
      then Bulk.scan? operator [] else none with
      | some totals => return Value.vector totals
      | none => return Value.vector []) w = _
    rw [Bulk.scan?_nil, ite_self]
    rfl
  | cons n ns =>
    rw [List.map_cons, run_scan, ← List.map_cons]
    split
    next totals taken =>
      -- The totals of the library are the folds.
      obtain ⟨hp, taken⟩ := Option.ite_none_right_eq_some.1 taken
      obtain ⟨operation, named, rfl⟩ := Bulk.scan?_ints taken
      rw [exact.scanInts_eq]
      have folds := foldBeginnings_ints (appliesWord_applyBinary call toll hp named) (n :: ns)
      exact (run_map_ok folds).symm
    next => rfl

/-! ## § Inner products -/

/-- The product of an operator and a word. -/
theorem applyBinary_parts (call : Nat → Calling) (toll : Nat) {reducer combiner : String}
    (plain : '.' ∉ reducer.toList) (hr : reducer ≠ "") (hc : combiner ≠ "") (l r : Value) :
    applyBinary call toll l (reducer ++ "." ++ combiner) r =
      if reducer = "o" then
        outer (fun a b => applyBinary call (toll + 3) a combiner b)
          (fun a b => applyBinary call (toll + 4) a combiner b)
          (reducer ++ "." ++ combiner) combiner l r
      else
        inner (applySingle call (toll + 4)) (fun a b => applyBinary call (toll + 3) a combiner b)
          (reducer ++ "." ++ combiner) reducer combiner l r := by
  obtain ⟨first, others, ho'⟩ :
      ∃ first others, OperatorWord.operators combiner = first :: others := by
    refine List.exists_cons_of_ne_nil fun e => ?_
    exact OperatorWord.splitPoints_ne_nil combiner.toList (List.map_eq_nil_iff.1 e)
  have hword : OperatorWord.product (reducer :: first :: others) = reducer ++ "." ++ combiner := by
    rw [← ho', ← OperatorWord.operators_append plain, OperatorWord.product_operators]
  have hcomb : OperatorWord.product (first :: others) = combiner := by
    rw [← ho', OperatorWord.product_operators]
  have single (toll : Nat) : applyProduct (applySingle call) toll (first :: others)
      = fun a b => applyBinary call toll a combiner b := by
    funext a b
    rw [applyBinary, ho']
  rw [applyBinary, OperatorWord.operators_append plain, ho', applyProduct, hword, hcomb]
  dsimp only
  rw [single, single]
  simp [hr, hc]

/-- A product of two operators that is not an outer product. -/
theorem applyBinary_product (call : Nat → Calling) (toll : Nat) {reducer combiner : String}
    (plain : '.' ∉ reducer.toList) (hr : reducer ≠ "") (ho : reducer ≠ "o") (hc : combiner ≠ "")
    (l r : Value) :
    applyBinary call toll l (reducer ++ "." ++ combiner) r =
      inner (applySingle call (toll + 4)) (fun a b => applyBinary call (toll + 3) a combiner b)
        (reducer ++ "." ++ combiner) reducer combiner l r := by
  rw [applyBinary_parts call toll plain hr hc, if_neg ho]

/-- A reduction asks only how to apply its own operator. -/
theorem reduce_congr {apply apply' : Applying} {operator : String}
    (h : ∀ l r, apply l operator r = apply' l operator r) (v : Value) :
    reduce apply operator v = reduce apply' operator v := by
  have : foldItems apply operator = foldItems apply' operator := by
    funext items
    unfold foldItems fold
    simp only [h]
  unfold reduce
  rw [this]

/-- An inner product asks for a bulk route first. -/
theorem run_inner (apply applyPart : Applying) (word reducer combiner : String)
    {as bs : List Int64} (h : as.length = bs.length) (w : Workspace) :
    (inner apply (fun a b => applyPart a combiner b) word reducer combiner
      (.vector (as.map .int)) (.vector (bs.map .int))).run w =
      match if (w.primitive? reducer).isSome && (w.primitive? combiner).isSome
        then Bulk.inner? reducer combiner (as.map .int) (bs.map .int) else none with
      | some total => .ok (.scalar total) w
      | none => (do
        let combined ← combinePairs applyPart word combiner as bs
        reduce apply reducer (.vector combined)).run w := by
  have equal : ¬(as.map Scalar.int).length ≠ (bs.map Scalar.int).length := by simpa using h
  have paired : (as.map Scalar.int).zip (bs.map Scalar.int)
      = (as.zip bs).map (Prod.map Scalar.int Scalar.int) := List.zip_map ..
  show EStateM.run (if (as.map Scalar.int).length ≠ (bs.map Scalar.int).length then _ else _) w = _
  rw [if_neg equal]
  show EStateM.run (match if (w.primitive? reducer).isSome && (w.primitive? combiner).isSome
    then Bulk.inner? reducer combiner (as.map .int) (bs.map .int) else none with
    | some total => return Value.scalar total
    | none => do
      let combined ← ((as.map Scalar.int).zip (bs.map Scalar.int)).mapM _
      reduce apply reducer (.vector combined)) w = _
  rw [paired, List.mapM_map]
  split <;> rfl

/-- The bulk route of an inner product is the sum of products. -/
theorem sum_of_products {reducer combiner : String} {as bs : List Int64} {total : Scalar}
    (h : Bulk.inner? reducer combiner (as.map .int) (bs.map .int) = some total) :
    reducer = "+" ∧ combiner = "*" ∧ as.length = bs.length ∧
      total = .int (Machine.library.dot as bs) := by
  unfold Bulk.inner? at h
  split at h
  · exact nomatch h
  next named =>
    split at h
    · rw [Bulk.ints?_map_int, Bulk.ints?_map_int] at h
      obtain rfl := Option.some.inj h
      simp only [ne_eq, not_or, Classical.not_not, List.length_map] at named
      exact ⟨named.1, named.2.1, named.2.2, rfl⟩
    · exact nomatch h

/-- The general way to the sum of products. -/
theorem run_combine_sum (exact : Machine.library.ExactInts) (call : Nat → Calling)
    (toll toll' : Nat) (word : String) (hsum : (w.primitive? "+").isSome)
    (htimes : (w.primitive? "*").isSome) {as bs : List Int64} (lengths : as.length = bs.length)
    (some_as : as ≠ []) :
    EStateM.run (do
      let combined ← combinePairs (applyBinary call toll) word "*" as bs
      match ← floatRoute "+" combined with
      | some total => return .scalar (.float total)
      | none => foldItems (applyBinary call toll') "+" combined) w
    = .ok (.scalar (.int (Machine.library.dot as bs))) w := by
  have sums : AppliesWord (applyBinary call toll') "+" .sum w :=
    appliesWord_applyBinary call toll' hsum rfl
  have times : AppliesWord (applyBinary call toll) "*" .product w :=
    appliesWord_applyBinary call toll htimes rfl
  have products : (as.zip bs).map (fun (a, b) => Bulk.Operation.product.onInts a b) ≠ [] := by
    rw [Ne, List.map_eq_nil_iff, ← List.length_eq_zero_iff, List.length_zip, ← lengths,
      Nat.min_self, List.length_eq_zero_iff]
    exact some_as
  rw [EStateM.run_bind, combinePairs_ints times]
  simp only
  rw [EStateM.run_bind (x := floatRoute _ _), run_floatRoute, Bulk.floatTotal?_ints _ products,
    ite_self]
  exact foldItems_ints sums products (exact.isTotal_dot lengths)

/-- On integers an inner product folds what its second operator makes of the pairs, unless the
library takes a row of floats. -/
theorem product_ints (exact : Machine.library.ExactInts) (call : Nat → Calling) (toll : Nat)
    {reducer combiner : String} (plain : '.' ∉ reducer.toList) (hr : reducer ≠ "")
    (ho : reducer ≠ "o") (hc : combiner ≠ "") {as bs : List Int64} (h : as.length = bs.length)
    (hne : as ≠ []) :
    applyBinary call toll (.vector (as.map .int)) (reducer ++ "." ++ combiner)
        (.vector (bs.map .int)) = (do
      let combined ← combinePairs (applyBinary call (toll + 3)) (reducer ++ "." ++ combiner)
        combiner as bs
      match ← floatRoute reducer combined with
      | some total => return .scalar (.float total)
      | none => foldItems (applyBinary call (toll + 4)) reducer combined) := by
  refine funext fun w => ?_
  rw [applyBinary_product call toll plain hr ho hc]
  refine (run_inner _ (applyBinary call (toll + 3)) _ reducer combiner h w).trans ?_
  split
  next total bulk =>
    -- Both operators are primitives here, so the general way sums the same products.
    obtain ⟨prims, bulk⟩ := Option.ite_none_right_eq_some.1 bulk
    obtain ⟨hsum, htimes⟩ := Bool.and_eq_true_iff.1 prims
    obtain ⟨rfl, rfl, lengths, rfl⟩ := sum_of_products bulk
    exact (run_combine_sum exact call _ _ _ hsum htimes lengths hne).symm
  next =>
    obtain ⟨a, as, rfl⟩ := List.exists_cons_of_ne_nil hne
    obtain ⟨b, bs, rfl⟩ : ∃ b bs', bs = b :: bs' :=
      List.exists_cons_of_ne_nil (List.length_pos_iff.1 (by simp [← h]))
    rw [combinePairs_cons]
    simp only [bind_assoc, pure_bind]
    simp only [reduce_congr fun l r => (applyBinary_eq_applySingle call _ plain l r).symm]
    simp only [reduce_eq_foldItems exact call _ reducer (List.cons_ne_nil _ _)]
    rfl

/-! ## § The routes together -/

/-- The rows that go by the library's route of floats. -/
def TakesFloatRoute (w : Workspace) (operator : String) (items : List Scalar) : Prop :=
  (w.primitive? operator).isSome ∧ (operator = "max" ∨ operator = "min") ∧
    Machine.policy.covers items.length = true ∧ ∀ item ∈ items, ∃ x, item = .float x

/-- The rows of which a reduction is taken by the route of floats; a single element is none. -/
def ReducesByFloats (w : Workspace) (operator : String) (items : List Scalar) : Prop :=
  2 ≤ items.length ∧ TakesFloatRoute w operator items

theorem run_floatRoute_eq_none_iff (operator : String) (items : List Scalar) (w : Workspace) :
    (floatRoute operator items).run w = .ok none w ↔ ¬ReducesByFloats w operator items := by
  rw [run_floatRoute, ReducesByFloats, TakesFloatRoute]
  have total := Bulk.isSome_floatTotal?_iff operator items
  by_cases hp : (w.primitive? operator).isSome
  · rw [if_pos hp]
    cases route : Bulk.floatTotal? operator items with
    | none =>
      rw [route] at total
      refine iff_of_true rfl fun taken => ?_
      exact nomatch total.2 ⟨taken.2.2.1, taken.1, taken.2.2.2⟩
    | some x =>
      rw [route] at total
      obtain ⟨extreme, long, covered, floats⟩ := total.1 rfl
      exact iff_of_false nofun fun other => other ⟨long, hp, extreme, covered, floats⟩
  · rw [if_neg hp]
    exact iff_of_true rfl fun taken => hp taken.2.1

/-- **Bulk routes on integers are folds**, if the library is exact.  A reduction and a scan of
integers are the folds from the right by the operator as it is defined at the time, whether or not
the library is asked.  So is an inner product, except that `max` and `min` of a long row of floats are
left to the library. -/
theorem bulk_routes_fold (exact : Machine.library.ExactInts) (call : Nat → Calling) (toll : Nat)
    (f : String) :
    (∀ ns : List Int64, ns ≠ [] →
      reduce (applyBinary call toll) f (.vector (ns.map .int))
        = foldItems (applyBinary call toll) f (ns.map .int)) ∧
    (∀ ns : List Int64,
      scan (applyBinary call toll) f (.vector (ns.map .int))
        = Value.vector <$> foldBeginnings (applyBinary call toll) f (ns.map .int)) ∧
    (∀ (g : String) (as bs : List Int64),
      '.' ∉ f.toList → f ≠ "" → f ≠ "o" → g ≠ "" → as.length = bs.length → as ≠ [] →
      applyBinary call toll (.vector (as.map .int)) (f ++ "." ++ g) (.vector (bs.map .int)) = (do
        let combined ← combinePairs (applyBinary call (toll + 3)) (f ++ "." ++ g) g as bs
        match ← floatRoute f combined with
        | some total => return .scalar (.float total)
        | none => foldItems (applyBinary call (toll + 4)) f combined)) ∧
    (∀ (items : List Scalar) (w : Workspace),
      (floatRoute f items).run w = .ok none w ↔ ¬ReducesByFloats w f items) :=
  ⟨fun _ h => reduce_ints exact call toll f h, scan_ints exact call toll f,
    fun _ _ _ plain hf ho hg h hne => product_ints exact call toll plain hf ho hg h hne,
    run_floatRoute_eq_none_iff f⟩

end BulkRoutes

/-- Rows long enough for the library: the largest of 64 integers, the sums of their beginnings and the
largest of the sums of two such rows, on the standard machine. -/
theorem bulk_routes_fold_max_of_sums :
    ((Bulk.reduce? "max" (((List.range 64).map .ofNat).map .int)).isSome ∧
      reduce (applyBinary callOperator 0) "max" (.vector (((List.range 64).map .ofNat).map .int))
        = foldItems (applyBinary callOperator 0) "max" (((List.range 64).map .ofNat).map .int)) ∧
    ((Bulk.scan? "+" (((List.range 64).map .ofNat).map .int)).isSome ∧
      scan (applyBinary callOperator 0) "+" (.vector (((List.range 64).map .ofNat).map .int))
        = Value.vector <$> foldBeginnings (applyBinary callOperator 0) "+"
          (((List.range 64).map .ofNat).map .int)) ∧
    applyBinary callOperator 0 (.vector (((List.range 64).map .ofNat).map .int))
        ("max" ++ "." ++ "+")
        (.vector (((List.range 64).map .ofNat).map .int)) = (do
      let combined ← combinePairs (applyBinary callOperator 3) ("max" ++ "." ++ "+") "+"
        ((List.range 64).map .ofNat) ((List.range 64).map .ofNat)
      match ← floatRoute "max" combined with
      | some total => return .scalar (.float total)
      | none => foldItems (applyBinary callOperator 4) "max" combined) ∧
    (floatRoute "max" (.replicate 64 (.float 1))).run (.ofSettings {})
      ≠ .ok none (.ofSettings {}) := by
  have some_ns : (List.range 64).map Int64.ofNat ≠ [] := by decide
  have exact := Bulk.Library.standard_exactInts
  refine ⟨⟨rfl, (bulk_routes_fold exact callOperator 0 "max").1 _ some_ns⟩,
    ⟨rfl, (bulk_routes_fold exact callOperator 0 "+").2.1 _⟩,
    (bulk_routes_fold exact callOperator 0 "max").2.2.1 "+" _ _ (by decide) (by decide)
      (by decide) (by decide) rfl some_ns, fun none => ?_⟩
  refine ((bulk_routes_fold exact callOperator 0 "max").2.2.2 _ _).1 none ?_
  exact ⟨by decide, rfl, .inl rfl, rfl, fun item found => ⟨1, List.eq_of_mem_replicate found⟩⟩

end Evaluation

end ArrayCalc
