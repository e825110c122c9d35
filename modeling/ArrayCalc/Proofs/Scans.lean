import ArrayCalc.Proofs.Outcome
import ArrayCalc.Proofs.BulkRoutes
import ArrayCalc.Proofs.DoubleOrder
import Mathlib.Data.List.Forall2

/-!
# Scans and the reductions of beginnings

Each element of a scan is the reduction of a beginning of its row, whatever route the two take, as
long as both or neither of them go by the bulk route of floats.  A beginning may be too short for
that route, and a beginning of floats may be followed by something else.  There the largest or the
smallest double is chosen twice: by the bulk route, which an undefined double spoils and which takes
what is tiny for a zero, and by the primitive, which passes over what is undefined unless it stands
at the end.  The two choices are the same in all other cases.
-/

namespace ArrayCalc

namespace Bulk

open Double

/-! ## § Extreme doubles -/

variable {σ : Int} {e : Extreme} {taken : Float → Float} {x y last bulk : Float} {xs : List Float}
  {items : List Scalar}

/-- What a primitive makes of two doubles that looks for what is extreme in a direction. -/
def prefer (σ : Int) (a b : Float) : Float :=
  if a.isNaN = false ∧ b.isNaN = false ∧ σ * standing b ≤ σ * standing a then a else b

theorem foldr_prefer_undefined (h : last.isNaN = true) : xs.foldr (prefer σ) last = last := by
  induction xs with
  | nil => rfl
  | cons x xs ih =>
    rw [List.foldr_cons, ih]
    unfold prefer
    rw [h]
    exact if_neg fun defined => nomatch defined.2.1

/-- With a defined double at the end, a primitive finds a defined one that no other is beyond. -/
theorem foldr_prefer_defined (σ : Int) (xs : List Float) (h : last.isNaN = false) :
    (xs.foldr (prefer σ) last).isNaN = false ∧ xs.foldr (prefer σ) last ∈ xs ++ [last] ∧
      ∀ x ∈ xs ++ [last], x.isNaN = false →
        σ * standing x ≤ σ * standing (xs.foldr (prefer σ) last) := by
  induction xs with
  | nil => simpa using h
  | cons x xs ih =>
    obtain ⟨defined, member, extreme⟩ := ih
    rw [List.foldr_cons, List.cons_append]
    generalize xs.foldr (prefer σ) last = total at *
    unfold prefer
    split
    next chosen =>
      refine ⟨chosen.1, List.mem_cons_self, ?_⟩
      rintro z (_ | ⟨_, among⟩) ok
      · exact Int.le_refl _
      · exact Int.le_trans (extreme z among ok) chosen.2.2
    next other =>
      refine ⟨defined, List.mem_cons_of_mem _ member, ?_⟩
      rintro z (_ | ⟨_, among⟩) ok
      · exact Int.le_of_lt (Int.not_le.1 fun beyond => other ⟨ok, defined, beyond⟩)
      · exact extreme z among ok

/-- Where a bulk route and a primitive choose otherwise in a row of doubles: there is an undefined
one, but not at the end, or there is nothing but what a bulk route takes for zeros. -/
inductive Strays (xs : List Float) (bulk single : Float) : Prop
  | undefined (among : ∃ x ∈ xs, x.isNaN = true) (ends : ∀ x ∈ xs.getLast?, x.isNaN = false)
      (spoilt : bulk.isNaN = true) (defined : single.isNaN = false)
  | tiny (zero : sizeBits bulk = 0) (tiny : IsTiny single)

/-- What is extreme in both orders is the same double, or next to nothing. -/
theorem eq_or_tiny (hσ : σ = 1 ∨ σ = -1) (counted : taken = id ∨ taken = flushed)
    (hx : σ * standing x ≤ σ * standing y) (hy : σ * place (taken y) ≤ σ * place (taken x)) :
    taken x = y ∨ sizeBits (taken x) = 0 ∧ IsTiny y := by
  rcases counted with rfl | rfl
  · -- The places tell doubles of one standing apart only if these are zeros.
    simp only [id_eq, place_eq] at hy ⊢
    unfold standing at hx hy
    by_cases zero : sizeBits x = 0
    · by_cases tiny : IsTiny y
      · exact .inr ⟨zero, tiny⟩
      · refine .inl (eq_of_place ?_)
        rw [place_eq, place_eq, standing, standing]
        unfold IsTiny leadingBit at tiny
        obtain rfl | rfl := hσ <;> grind
    · refine .inl (eq_of_place ?_)
      rw [place_eq, place_eq, standing, standing]
      obtain rfl | rfl := hσ <;> grind
  · rw [place_flushed, place_flushed] at hy
    unfold standing at hx
    by_cases tiny : IsTiny y
    · refine .inr ⟨?_, tiny⟩
      rw [sizeBits_flushed]
      unfold IsTiny leadingBit at *
      obtain rfl | rfl := hσ <;> grind
    · refine .inl (eq_of_place ?_)
      rw [place_flushed, place_eq, standing]
      unfold IsTiny leadingBit at *
      obtain rfl | rfl := hσ <;> grind

theorem isNaN_taken (counted : taken = id ∨ taken = flushed) (x : Float) :
    (taken x).isNaN = x.isNaN := by
  rcases counted with rfl | rfl
  · rfl
  · exact isNaN_flushed x

/-- **The two ways to choose** from a row of doubles come to the same, or stray. -/
theorem choices_agree (counted : taken = id ∨ taken = flushed)
    (h : IsExtreme e ((xs ++ [last]).map taken) bulk) :
    bulk = xs.foldr (prefer e.sign) last ∨
      Strays (xs ++ [last]) bulk (xs.foldr (prefer e.sign) last) := by
  cases h with
  | undefined among spoilt =>
    -- An undefined double spoils the row wherever it stands, a fold only at the end.
    obtain ⟨_, inside, undefined⟩ := among
    obtain ⟨x, member, rfl⟩ := List.mem_map.1 inside
    rw [isNaN_taken counted] at undefined
    cases ends : last.isNaN with
    | true =>
      left
      rw [foldr_prefer_undefined ends]
      exact eq_of_isNaN spoilt ends
    | false =>
      refine .inr (.undefined ⟨x, member, undefined⟩ ?_ spoilt (foldr_prefer_defined _ xs ends).1)
      rw [List.getLast?_concat]
      rintro x ⟨⟩
      exact ends
  | defined all member beyond =>
    have defined : ∀ x ∈ xs ++ [last], x.isNaN = false := by
      intro x among
      rw [← isNaN_taken counted]
      exact all _ (List.mem_map_of_mem among)
    obtain ⟨-, chosen, extreme⟩ := foldr_prefer_defined e.sign xs (defined last (by simp))
    obtain ⟨x, among, rfl⟩ := List.mem_map.1 member
    have either := eq_or_tiny e.sign_eq counted (extreme x among (defined x among))
      (beyond _ (List.mem_map_of_mem chosen))
    exact either.imp_right fun ⟨zero, tiny⟩ => .tiny zero tiny

/-! ## § Rows on a bulk route -/

theorem ints?_map_float {xs : List Float} (h : xs ≠ []) : ints? (xs.map .float) = none := by
  obtain ⟨x, xs, rfl⟩ := List.exists_cons_of_ne_nil h
  simp [ints?]

theorem floats?_map_float (xs : List Float) : floats? (xs.map .float) = some xs := by
  unfold floats?
  induction xs with
  | nil => rfl
  | cons x xs ih => simp [ih]

/-- A row of floats. -/
theorem map_float_of_forall (h : ∀ item ∈ items, ∃ x, item = Scalar.float x) :
    ∃ xs : List Float, items = xs.map .float := by
  induction items with
  | nil => exact ⟨[], rfl⟩
  | cons item items ih =>
    obtain ⟨x, rfl⟩ := h item List.mem_cons_self
    obtain ⟨xs, rfl⟩ := ih fun item member => h item (List.mem_cons_of_mem _ member)
    exact ⟨x :: xs, rfl⟩

variable [Machine]

/-- A scan has no other bulk routes than that of integers and that of floats. -/
theorem floats_of_scan? {operator : String} {totals : List Scalar} (other : ints? items = none)
    (h : scan? operator items = some totals) :
    (operator = "max" ∨ operator = "min") ∧ Machine.policy.covers items.length = true ∧
      ∀ item ∈ items, ∃ x, item = .float x := by
  obtain ⟨operation, named, h⟩ := Option.bind_eq_some_iff.1 h
  split at h
  next covered =>
    rw [other] at h
    cases floats : floats? items with
    | none =>
      rw [floats] at h
      exact nomatch h
    | some xs =>
      cases direction : operation.extreme? with
      | none =>
        rw [floats, direction] at h
        exact nomatch h
      | some e =>
        exact ⟨(isSome_extreme?_iff operator).1 (by rw [named, Option.bind_some, direction]; rfl),
          covered, (isSome_floats?_iff items).1 (by rw [floats]; rfl)⟩
  · exact nomatch h

end Bulk

namespace Evaluation

open Double

variable {w w' : Workspace} {f : String} {op : BinaryPrimitive} {e : Bulk.Extreme}
  {taken : Float → Float} {items : List Scalar} {v : Value} {α β : Type}

/-! ## § Steps that leave the workspace alone -/

/-- A scalar from a step that leaves the workspace alone. -/
theorem run_scalarOr {x : Evaluation Value} {e : ShapeError} {total : Scalar}
    (quiet : ∃ result : Result Value, x.run w = (ofResult result).run w)
    (h : EStateM.run (do scalarOr e (← x)) w = .ok total w') :
    w' = w ∧ x.run w = .ok (.scalar total) w := by
  obtain ⟨result, run⟩ := quiet
  rw [EStateM.run_bind, run] at h
  rw [run]
  cases result with
  | error failure => exact nomatch h
  | ok v =>
    cases v with
    | scalar s =>
      obtain ⟨rfl, rfl⟩ := EStateM.Result.ok.inj h
      exact ⟨rfl, rfl⟩
    | absent => exact nomatch h
    | vector => exact nomatch h

/-- A row of steps that leave the workspace alone. -/
theorem forall₂_of_run_mapM {step : α → Evaluation β} {xs : List α} {ys : List β}
    (quiet : ∀ x y w', (step x).run w = .ok y w' → w' = w)
    (h : (xs.mapM step).run w = .ok ys w') :
    w' = w ∧ List.Forall₂ (fun x y => (step x).run w = .ok y w) xs ys := by
  induction xs generalizing ys with
  | nil =>
    obtain ⟨rfl, rfl⟩ := EStateM.Result.ok.inj h
    exact ⟨rfl, .nil⟩
  | cons x xs ih =>
    rw [List.mapM_cons] at h
    obtain ⟨y, w₁, hx, ran⟩ := bind_ok h
    obtain rfl := quiet x y w₁ hx
    obtain ⟨others, w₂, hxs, made⟩ := bind_ok ran
    obtain ⟨rfl, rfl⟩ := EStateM.Result.ok.inj made
    obtain ⟨same, rest⟩ := ih hxs
    exact ⟨same, .cons hx rest⟩

/-! ## § Primitives on doubles -/

theorem pick_floats (operator : String) (order : Primitive.Order) (a b : Float) :
    Primitive.pick operator order (.scalar (.float a)) (.scalar (.float b)) =
      .ok (.float (if order.onFloats a b = true then a else b)) := by
  have met : Operands.meet operator (.scalar (.float a)) (.scalar (.float b))
      = .ok (.floats a b) := rfl
  have ordered : Primitive.ordered? order (.floats a b) = some (order.onFloats a b) := rfl
  unfold Primitive.pick
  rw [met]
  dsimp only [bind, Except.bind]
  rw [ordered]
  cases order.onFloats a b <;> rfl

theorem maximum_floats (a b : Float) :
    Primitive.maximum (.scalar (.float a)) (.scalar (.float b)) =
      .ok (.float (Bulk.prefer 1 a b)) := by
  refine (pick_floats "max" _ a b).trans ?_
  show Except.ok (Scalar.float (if decide (b ≤ a) = true then a else b)) = _
  simp only [decide_eq_true_eq, le_iff, Bulk.prefer, Int.one_mul, and_left_comm]

theorem minimum_floats (a b : Float) :
    Primitive.minimum (.scalar (.float a)) (.scalar (.float b)) =
      .ok (.float (Bulk.prefer (-1) a b)) := by
  refine (pick_floats "min" _ a b).trans ?_
  show Except.ok (Scalar.float (if decide (a ≤ b) = true then a else b)) = _
  simp only [decide_eq_true_eq, le_iff, Bulk.prefer, Int.neg_mul, Int.one_mul, Int.neg_le_neg_iff]

section Scans

variable [Machine]

/-- Where there is a bulk route of floats, the primitive looks in the same direction. -/
theorem looks_for_extremes (call : Nat → Calling) (toll : Nat) (hp : (w.primitive? f).isSome)
    (extreme : (Bulk.Operation.ofName? f).bind Bulk.Operation.extreme? = some e) (a b : Float) :
    (applyBinary call toll (.scalar (.float a)) f (.scalar (.float b))).run w
      = .ok (.scalar (.float (Bulk.prefer e.sign a b))) w := by
  obtain ⟨operation, named, extreme⟩ := Option.bind_eq_some_iff.1 extreme
  cases Bulk.Operation.named_of_ofName? named with
  | sum | product => exact nomatch extreme
  | largest =>
    obtain rfl := Option.some.inj extreme
    rw [applyBinary_eq_applySingle call toll (by decide), applySingle_primitive call _ _ _ hp rfl]
    show (ofResult ((Primitive.maximum _ _).map Value.scalar)).run w = _
    rw [maximum_floats]
    rfl
  | smallest =>
    obtain rfl := Option.some.inj extreme
    rw [applyBinary_eq_applySingle call toll (by decide), applySingle_primitive call _ _ _ hp rfl]
    show (ofResult ((Primitive.minimum _ _).map Value.scalar)).run w = _
    rw [minimum_floats]
    rfl

/-! ## § Folds by primitives -/

/-- A fold by a primitive leaves the workspace alone. -/
theorem run_foldItems_primitive (call : Nat → Calling) (toll : Nat)
    (h : w.primitive? f = some op) (items : List Scalar) :
    ∃ result : Result Value,
      (foldItems (applyBinary call toll) f items).run w = (ofResult result).run w := by
  rcases items.eq_nil_or_concat with rfl | ⟨init, last, rfl⟩
  · exact ⟨.error _, rfl⟩
  rw [List.concat_eq_append, foldItems_concat, fold]
  induction init with
  | nil => exact ⟨.ok (.scalar last), rfl⟩
  | cons item init ih =>
    obtain ⟨result, total⟩ := ih
    rw [List.foldrM_cons, EStateM.run_bind, total]
    cases result with
    | error failure => exact ⟨.error failure, rfl⟩
    | ok v => exact ⟨op.apply (.scalar item) v, run_primitive call toll h _ _⟩

/-! ## § Two totals of a row of doubles -/

/-- The extreme that a library finds in a row of doubles, and the total without it. -/
theorem two_totals (call : Nat → Calling) (toll : Nat) (hp : (w.primitive? f).isSome)
    (extreme : (Bulk.Operation.ofName? f).bind Bulk.Operation.extreme? = some e)
    (counted : taken = id ∨ taken = flushed) {xs : List Float} {bulk : Float}
    (h : Bulk.IsExtreme e (xs.map taken) bulk) :
    ∃ single,
      (foldItems (applyBinary call toll) f (xs.map .float)).run w
        = .ok (.scalar (.float single)) w ∧
      (bulk = single ∨ Bulk.Strays xs bulk single) := by
  rcases xs.eq_nil_or_concat with rfl | ⟨init, last, rfl⟩
  · exact nomatch h.ne_nil rfl
  rw [List.concat_eq_append] at h ⊢
  refine ⟨init.foldr (Bulk.prefer e.sign) last, ?_, Bulk.choices_agree counted h⟩
  rw [List.map_append, List.map_singleton, foldItems_concat]
  exact fold_map (looks_for_extremes call toll hp extreme) init last

/-! ## § Routes -/

theorem reduce_of_other_route (exact : Machine.library.ExactInts) (call : Nat → Calling)
    (toll : Nat) (h : ¬ReducesByFloats w f items) (ne : items ≠ []) :
    (reduce (applyBinary call toll) f (.vector items)).run w
      = (foldItems (applyBinary call toll) f items).run w := by
  rw [reduce_eq_foldItems exact call toll f ne, EStateM.run_bind,
    (run_floatRoute_eq_none_iff f items w).2 h]

theorem reduce_of_float_route (exact : Machine.library.ExactInts) (call : Nat → Calling)
    (toll : Nat) {xs : List Float} (h : ReducesByFloats w f (xs.map .float))
    (extreme : (Bulk.Operation.ofName? f).bind Bulk.Operation.extreme? = some e) :
    (reduce (applyBinary call toll) f (.vector (xs.map .float))).run w
      = .ok (.scalar (.float (Machine.library.reduceFloats e xs))) w := by
  obtain ⟨long, primitive, -, covered, -⟩ := h
  have ne : xs.map Scalar.float ≠ [] := by
    intro nil
    rw [nil] at long
    exact absurd long (by decide)
  have route : Bulk.floatTotal? f (xs.map .float) = some (Machine.library.reduceFloats e xs) := by
    unfold Bulk.floatTotal?
    rw [extreme, Bulk.floats?_map_float]
    exact if_pos ⟨long, covered⟩
  rw [reduce_eq_foldItems exact call toll f ne, EStateM.run_bind, run_floatRoute,
    if_pos primitive, route]
  rfl

theorem scan_of_other_route (exact : Machine.library.ExactInts) (call : Nat → Calling)
    (toll : Nat) (h : ¬TakesFloatRoute w f items) :
    (scan (applyBinary call toll) f (.vector items)).run w
      = (Value.vector <$> foldBeginnings (applyBinary call toll) f items).run w := by
  cases hn : Bulk.ints? items with
  | some ns =>
    rw [Bulk.map_int_of_ints? hn, scan_ints exact]
  | none =>
    cases items with
    | nil => exact nomatch hn
    | cons first rest =>
      have none : (if (w.primitive? f).isSome then Bulk.scan? f (first :: rest) else none)
          = none := by
        by_contra taken
        obtain ⟨totals, taken⟩ := Option.ne_none_iff_exists'.1 taken
        obtain ⟨primitive, taken⟩ := Option.ite_none_right_eq_some.1 taken
        exact h ⟨primitive, Bulk.floats_of_scan? hn taken⟩
      rw [run_scan, none]

theorem scan_of_float_route (call : Nat → Calling) (toll : Nat) {xs : List Float}
    (h : TakesFloatRoute w f (xs.map .float))
    (extreme : (Bulk.Operation.ofName? f).bind Bulk.Operation.extreme? = some e) :
    (scan (applyBinary call toll) f (.vector (xs.map .float))).run w
      = .ok (.vector ((Machine.library.scanFloats e xs).map .float)) w := by
  obtain ⟨primitive, -, covered, -⟩ := h
  obtain ⟨operation, named, direction⟩ := Option.bind_eq_some_iff.1 extreme
  cases xs with
  | nil =>
    have := Machine.policy.leastLength_pos
    simp [Bulk.Policy.covers] at covered
    omega
  | cons first rest =>
    have taken : Bulk.scan? f ((first :: rest).map .float)
        = some ((Machine.library.scanFloats e (first :: rest)).map .float) := by
      unfold Bulk.scan?
      rw [named]
      refine (if_pos covered).trans ?_
      rw [Bulk.ints?_map_float (List.cons_ne_nil first rest), Bulk.floats?_map_float, direction]
      rfl
    rw [List.map_cons, run_scan, ← List.map_cons, if_pos primitive, taken]

/-- Without the bulk route of floats the elements of a scan are folds. -/
theorem folds_of_scan (exact : Machine.library.ExactInts) (call : Nat → Calling) (toll : Nat)
    (hp : (w.primitive? f).isSome) (h : ¬TakesFloatRoute w f items)
    (ran : (scan (applyBinary call toll) f (.vector items)).run w = .ok v w') :
    w' = w ∧ ∃ totals, v = .vector totals ∧ totals.length = items.length ∧
      ∀ i total, totals[i]? = some total →
        (foldItems (applyBinary call toll) f (items.take (i + 1))).run w
          = .ok (.scalar total) w := by
  obtain ⟨op, primitive⟩ := Option.isSome_iff_exists.1 hp
  have quiet (i : Nat) := run_foldItems_primitive call toll primitive (items.take (i + 1))
  rw [scan_of_other_route exact call toll h, map_eq_pure_bind] at ran
  obtain ⟨totals, w₁, row, made⟩ := bind_ok ran
  obtain ⟨rfl, rfl⟩ := EStateM.Result.ok.inj made
  obtain ⟨same, each⟩ := forall₂_of_run_mapM (fun i _ _ h => (run_scalarOr (quiet i) h).1) row
  refine ⟨same, totals, rfl, by rw [← each.length_eq, List.length_range], ?_⟩
  intro i total at_i
  obtain ⟨within, rfl⟩ := List.getElem?_eq_some_iff.1 at_i
  have step := (List.forall₂_iff_get.1 each).2 i (by rwa [each.length_eq]) within
  rw [List.get_eq_getElem, List.getElem_range] at step
  exact (run_scalarOr (quiet i) step).2

/-- Two totals of a row that the bulk route of floats may make to differ. -/
def StrayTotals (beginning : List Scalar) (bulk single : Scalar) : Prop :=
  ∃ xs b y, beginning = xs.map .float ∧ bulk = .float b ∧ single = .float y ∧ Bulk.Strays xs b y

/-- A beginning of which the library has found the extreme, and which is reduced by itself. -/
theorem reduce_found (exact : Machine.library.ExactInts)
    (extremes : Machine.library.ExtremeFloats taken) (call : Nat → Calling) (toll : Nat)
    (hp : (w.primitive? f).isSome)
    (extreme : (Bulk.Operation.ofName? f).bind Bulk.Operation.extreme? = some e) {xs : List Float}
    {found : Float} (h : Bulk.IsExtreme e (xs.map taken) found) :
    ∃ r, (reduce (applyBinary call toll) f (.vector (xs.map .float))).run w
        = .ok (.scalar r) w ∧
      (r = .float found ∨ ¬ReducesByFloats w f (xs.map .float) ∧
        StrayTotals (xs.map .float) (.float found) r) := by
  have some_xs : xs ≠ [] := fun nil => h.ne_nil (by rw [nil]; rfl)
  by_cases long : ReducesByFloats w f (xs.map .float)
  · -- Both are what the library finds in the same row.
    refine ⟨_, reduce_of_float_route exact call toll long extreme, .inl ?_⟩
    exact congrArg Scalar.float ((extremes.reduce e xs some_xs).unique h)
  · obtain ⟨single, folded, either⟩ := two_totals call toll hp extreme extremes.counted h
    refine ⟨.float single, ?_, ?_⟩
    · rwa [reduce_of_other_route exact call toll long fun nil => some_xs (List.map_eq_nil_iff.1 nil)]
    · rcases either with equal | strays
      · exact .inl (congrArg Scalar.float equal.symm)
      · exact .inr ⟨long, xs, found, single, rfl, rfl, rfl, strays⟩

/-- A beginning that takes the bulk route of floats, where the total is that of the fold. -/
theorem reduce_long (exact : Machine.library.ExactInts)
    (extremes : Machine.library.ExtremeFloats taken) (call : Nat → Calling) (toll : Nat)
    (long : ReducesByFloats w f items) {total : Scalar}
    (folded : (foldItems (applyBinary call toll) f items).run w = .ok (.scalar total) w) :
    ∃ r, (reduce (applyBinary call toll) f (.vector items)).run w = .ok (.scalar r) w ∧
      (r = total ∨ StrayTotals items r total) := by
  obtain ⟨xs, rfl⟩ := Bulk.map_float_of_forall long.2.2.2.2
  obtain ⟨e, extreme⟩ :=
    Option.isSome_iff_exists.1 ((Bulk.isSome_extreme?_iff f).2 long.2.2.1)
  have some_xs : xs ≠ [] := by
    rintro rfl
    exact absurd long.1 (by decide)
  obtain ⟨single, at_single, either⟩ :=
    two_totals call toll long.2.1 extreme extremes.counted (extremes.reduce e xs some_xs)
  obtain ⟨equal, -⟩ := EStateM.Result.ok.inj (folded.symm.trans at_single)
  obtain rfl := Value.scalar.inj equal
  refine ⟨_, reduce_of_float_route exact call toll long extreme, ?_⟩
  rcases either with equal | strays
  · exact .inl (congrArg Scalar.float equal)
  · exact .inr ⟨xs, _, single, rfl, rfl, rfl, strays⟩

/-- **The elements of a scan are reductions of beginnings**, if the library is exact and finds the
extremes of floats.  A scan by a primitive that succeeds leaves the workspace alone, and so do the
reductions of all beginnings.  An element and its reduction are the same, unless one of them goes by
the bulk route of floats and the other does not. -/
theorem scan_entries (exact : Machine.library.ExactInts)
    (extremes : Machine.library.ExtremeFloats taken) (call : Nat → Calling) (toll : Nat)
    (hp : (w.primitive? f).isSome)
    (ran : (scan (applyBinary call toll) f (.vector items)).run w = .ok v w') :
    w' = w ∧ ∃ totals, v = .vector totals ∧ totals.length = items.length ∧
      ∀ i total, totals[i]? = some total →
        ∃ r, (reduce (applyBinary call toll) f (.vector (items.take (i + 1)))).run w
            = .ok (.scalar r) w ∧
          (r = total ∨
            TakesFloatRoute w f items ∧ ¬ReducesByFloats w f (items.take (i + 1)) ∧
              StrayTotals (items.take (i + 1)) total r ∨
            ¬TakesFloatRoute w f items ∧ ReducesByFloats w f (items.take (i + 1)) ∧
              StrayTotals (items.take (i + 1)) r total) := by
  by_cases route : TakesFloatRoute w f items
  · obtain ⟨xs, rfl⟩ := Bulk.map_float_of_forall route.2.2.2
    obtain ⟨e, extreme⟩ :=
      Option.isSome_iff_exists.1 ((Bulk.isSome_extreme?_iff f).2 route.2.1)
    rw [scan_of_float_route call toll route extreme] at ran
    obtain ⟨rfl, rfl⟩ := EStateM.Result.ok.inj ran
    refine ⟨rfl, _, rfl, by simp only [List.length_map, extremes.scan_length], ?_⟩
    intro i total at_i
    rw [List.getElem?_map, Option.map_eq_some_iff] at at_i
    obtain ⟨found, at_i, rfl⟩ := at_i
    rw [← List.map_take]
    obtain ⟨r, reduced, either⟩ :=
      reduce_found exact extremes call toll hp extreme (extremes.scan e xs i found at_i)
    exact ⟨r, reduced, either.imp_right fun other => .inl ⟨route, other⟩⟩
  · obtain ⟨same, totals, rfl, lengths, folds⟩ := folds_of_scan exact call toll hp route ran
    refine ⟨same, totals, rfl, lengths, fun i total at_i => ?_⟩
    by_cases long : ReducesByFloats w f (items.take (i + 1))
    · obtain ⟨r, reduced, either⟩ := reduce_long exact extremes call toll long (folds i total at_i)
      exact ⟨r, reduced, either.imp_right fun strays => .inr ⟨route, long, strays⟩⟩
    · obtain ⟨within, -⟩ := List.getElem?_eq_some_iff.1 at_i
      have some_items : items.take (i + 1) ≠ [] := by
        rw [Ne, List.take_eq_nil_iff, ← List.length_eq_zero_iff]
        omega
      refine ⟨total, ?_, .inl rfl⟩
      rw [reduce_of_other_route exact call toll long some_items]
      exact folds i total at_i

end Scans

/-- An undefined double at the start of a long row spoils all that follows, but a short beginning
has the largest of the others for its reduction. -/
theorem scan_entries_undefined_first :
    (scan (applyBinary callOperator 0) "max"
        (.vector (.float nan :: List.replicate 63 (.float 1)))).run (.ofSettings {})
      = .ok (.vector (List.replicate 64 (.float nan))) (.ofSettings {}) ∧
    (reduce (applyBinary callOperator 0) "max" (.vector [.float nan, .float 1])).run (.ofSettings {})
      = .ok (.scalar (.float 1)) (.ofSettings {}) ∧
    StrayTotals [.float nan, .float 1] (.float nan) (.float 1) := by
  have ran : (scan (applyBinary callOperator 0) "max"
        (.vector (.float nan :: List.replicate 63 (.float 1)))).run (.ofSettings {})
      = .ok (.vector (List.replicate 64 (.float nan))) (.ofSettings {}) := rfl
  have reduced : (reduce (applyBinary callOperator 0) "max"
        (.vector [.float nan, .float 1])).run (.ofSettings {})
      = .ok (.scalar (.float 1)) (.ofSettings {}) := rfl
  have differ : Scalar.float 1 ≠ .float nan := by
    intro same
    have words : (1 : Float).toBits = nan.toBits := by rw [Scalar.float.inj same]
    exact absurd words (by decide +kernel)
  obtain ⟨-, totals, vector, -, entries⟩ := scan_entries Bulk.Library.standard_exactInts
    Bulk.Library.standard_extremeFloats callOperator 0 (by decide) ran
  obtain rfl := Value.vector.inj vector
  obtain ⟨r, result, relation⟩ := entries 1 (.float nan) rfl
  obtain ⟨value, -⟩ := EStateM.Result.ok.inj (result.symm.trans reduced)
  obtain rfl := Value.scalar.inj value
  refine ⟨ran, reduced, ?_⟩
  rcases relation with same | ⟨-, -, stray⟩ | ⟨-, short, -⟩
  · exact absurd same differ
  · exact stray
  · exact absurd short.2.2.2.1 (by decide)

end Evaluation

end ArrayCalc
