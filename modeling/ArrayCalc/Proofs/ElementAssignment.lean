import ArrayCalc.Machine.Standard
import ArrayCalc.Proofs.Elements
import ArrayCalc.Proofs.PureTrees

/-!
# Assignments to elements

An assignment by subscripts writes exactly the selected places of a variable, be it one of the session
or a slot of the innermost frame, and changes nothing else in the workspace.  It is refused as a whole
if an index lies outside of the vector or if there is not an item for each of them.  What has been
written is read again by the same subscripts.

The subscript can have effects of its own.  The vector is looked up before the subscript is evaluated
and written after it, so that whatever the subscript itself assigns to the variable is overwritten: a
position that is not selected holds what it held before.
-/

namespace ArrayCalc.Evaluation

open Workspace

variable {w w' : Workspace} {place : Place} {u v : Value}

/-! ## § Places -/

namespace Place

/-- What a place holds. -/
def value? (w : Workspace) : Place → Option Value
  | ofSession name => w.global? name
  | ofFrame _ slot => w.stack.slot? slot

theorem run_readSlot (w : Workspace) (slot : Nat) :
    (readSlot slot).run w = if w.stack.depth = 0 then .error (.error (.call .noFrame)) w
      else match w.stack.slot? slot with
        | some v => .ok v w
        | none => .error (.fault .noSlot) w := by
  show EStateM.run (if w.stack.depth = 0 then failCall .noFrame
    else match w.stack.slot? slot with
      | some v => return v
      | none => throw (.fault .noSlot) : Evaluation Value) w = _
  split
  · rfl
  · split <;> rfl

/-- What is there can be read, and reading changes nothing. -/
theorem run_read (held : place.value? w = some v) (there : v ≠ .absent) :
    place.read.run w = .ok v w := by
  have found (name : String) : (defined name (some v)).run w = .ok v w := by
    cases v with
    | scalar | vector => rfl
    | absent => exact absurd rfl there
  cases place with
  | ofSession name =>
    show (defined name (w.global? name)).run w = _
    rw [show w.global? name = some v from held]
    exact found name
  | ofFrame name slot =>
    have read : (readSlot slot).run w = .ok v w := by
      rw [run_readSlot, if_neg (CallStack.depth_ne_zero_of_slot? held),
        show w.stack.slot? slot = some v from held]
    show (readSlot slot >>= fun v => defined name (some v) : Evaluation Value).run w = _
    rw [EStateM.run_bind, read]
    exact found name

/-- What has been read is what the place holds. -/
theorem value?_of_read (h : place.read.run w = .ok v w') : w' = w ∧ place.value? w = some v := by
  have found {name : String} {u : Option Value} (h : (defined name u).run w = .ok v w') :
      w' = w ∧ u = some v := by
    unfold defined at h
    split at h
    · obtain ⟨rfl, rfl⟩ := EStateM.Result.ok.inj h
      exact ⟨rfl, rfl⟩
    · obtain ⟨rfl, rfl⟩ := EStateM.Result.ok.inj h
      exact ⟨rfl, rfl⟩
    · exact nomatch h
  cases place with
  | ofSession name => exact found h
  | ofFrame name slot =>
    have read : (readSlot slot >>= fun v => defined name (some v) : Evaluation Value).run w
        = .ok v w' := h
    rw [EStateM.run_bind, run_readSlot] at read
    split at read
    next u w₁ slot =>
      split at slot
      · exact nomatch slot
      · split at slot
        next u' there =>
          obtain ⟨rfl, rfl⟩ := EStateM.Result.ok.inj slot
          obtain ⟨rfl, same⟩ := found read
          exact ⟨rfl, there.trans same⟩
        next => exact nomatch slot
    next => exact nomatch read

/-- Nothing but what a place holds is changed. -/
structure OnlyAt (place : Place) (w w' : Workspace) : Prop where
  settings : w'.settings = w.settings
  unary : w'.unary = w.unary
  binary : w'.binary = w.binary
  definitions : w'.definitions = w.definitions
  declared : w'.declared = w.declared
  dice : w'.dice = w.dice
  globals : ∀ name, (ofSession name) ≠ place → w'.global? name = w.global? name
  /-- A variable that is there already keeps its place among the others. -/
  names : (place.value? w).isSome → w'.globals.names = w.globals.names
  slots : ∀ slot, (∀ name, (ofFrame name slot) ≠ place) →
    w'.stack.slot? slot = w.stack.slot? slot
  stack : w.stack.SameShape w'.stack

theorem onlyAt_setGlobal (w : Workspace) (name : String) (v : Value) :
    OnlyAt (.ofSession name) w (w.setGlobal name v) where
  settings := rfl
  unary := rfl
  binary := rfl
  definitions := rfl
  declared := rfl
  dice := rfl
  globals other ne := by
    show (w.globals.insert name v).get? other = w.globals.get? other
    rw [Bindings.get?_insert, if_neg fun same => ne (congrArg ofSession same)]
  names bound := by
    obtain ⟨u, held⟩ := Option.isSome_iff_exists.1 bound
    show (w.globals.insert name v).names = w.globals.names
    rw [Bindings.names_insert, if_pos (Bindings.mem_names_of_get? held)]
  slots slot _ := rfl
  stack := .refl _

theorem onlyAt_setSlot? {slot : Nat} {stack : CallStack} (h : w.stack.setSlot? slot v = some stack)
    (name : String) : OnlyAt (.ofFrame name slot) w { w with stack := stack } where
  settings := rfl
  unary := rfl
  binary := rfl
  definitions := rfl
  declared := rfl
  dice := rfl
  globals _ _ := rfl
  names _ := rfl
  slots other ne := by
    show stack.slot? other = w.stack.slot? other
    rw [CallStack.slot?_setSlot? h, if_neg fun same => ne name (by rw [same])]
  stack := (CallStack.SameShape.refl _).setSlot? h

theorem run_writeSlot (w : Workspace) (slot : Nat) (v : Value) :
    (writeSlot slot v).run w = if w.stack.depth = 0 then .error (.error (.call .noFrame)) w
      else match w.stack.setSlot? slot v with
        | some stack => .ok () { w with stack := stack }
        | none => .error (.fault .noSlot) w := by
  show EStateM.run (if w.stack.depth = 0 then failCall .noFrame
    else match w.stack.setSlot? slot v with
      | some stack => set { w with stack := stack }
      | none => throw (.fault .noSlot) : Evaluation Unit) w = _
  split
  · rfl
  · split <;> rfl

/-- What holds something can be written to. -/
theorem run_write (held : place.value? w = some u) (v : Value) :
    ∃ w', (place.write v).run w = .ok () w' := by
  cases place with
  | ofSession name => exact ⟨_, rfl⟩
  | ofFrame name slot =>
    obtain ⟨stack, hs⟩ := CallStack.exists_setSlot? held v
    refine ⟨{ w with stack := stack }, (run_writeSlot w slot v).trans ?_⟩
    rw [if_neg (CallStack.depth_ne_zero_of_slot? held), hs]

/-- **Writing changes what the place holds and nothing else.** -/
theorem onlyAt_write (h : (place.write v).run w = .ok () w') :
    place.OnlyAt w w' ∧ place.value? w' = some v := by
  cases place with
  | ofSession name =>
    obtain ⟨-, rfl⟩ := EStateM.Result.ok.inj h
    refine ⟨onlyAt_setGlobal w name v, ?_⟩
    show (w.globals.insert name v).get? name = some v
    rw [Bindings.get?_insert, if_pos rfl]
  | ofFrame name slot =>
    have ran := (run_writeSlot w slot v).symm.trans h
    split at ran
    · exact nomatch ran
    · split at ran
      next stack hs =>
        obtain ⟨-, rfl⟩ := EStateM.Result.ok.inj ran
        refine ⟨onlyAt_setSlot? hs name, ?_⟩
        show stack.slot? slot = some v
        rw [CallStack.slot?_setSlot? hs, if_pos rfl]
      next => exact nomatch ran

end Place

/-! ## § Runs -/

variable {eval : Evaluating} {base : Expr} {subscripts : List Expr} {items news : List Scalar}
  {chosen : Option Value} {w₁ w₂ : Workspace} {origin : Int}

theorem run_ofResult {α : Type} (x : Result α) (w : Workspace) :
    (ofResult x).run w = match x with
      | .ok a => .ok a w
      | .error failure => .error failure w := by
  cases x <;> rfl

theorem ok_of_ofResult {α : Type} {x : Result α} {a : α} (h : (ofResult x).run w = .ok a w') :
    x = .ok a ∧ w' = w := by
  cases x with
  | ok b =>
    obtain ⟨rfl, rfl⟩ := EStateM.Result.ok.inj h
    exact ⟨rfl, rfl⟩
  | error => exact nomatch h

/-- The elements are those of the vector from before the subscript, put into what the place holds
after it. -/
theorem run_assignElements (hp : Place.ofExpr? base = some place)
    (held : place.value? w = some (.vector items))
    (hs : (subscript eval subscripts).run w = .ok chosen w₁) (v : Value) :
    (assignElements eval base subscripts v).run w
      = match replace w₁.settings.origin items chosen v with
        | .ok news => (place.write (.vector news)).run w₁
        | .error failure => .error failure w₁ := by
  unfold assignElements
  rw [hp]
  dsimp only
  rw [EStateM.run_bind, Place.run_read held nofun]
  dsimp only
  rw [EStateM.run_bind, hs]
  dsimp only
  show (ofResult (replace w₁.settings.origin items chosen v) >>= fun items =>
    place.write (.vector items) : Evaluation Unit).run w₁ = _
  rw [EStateM.run_bind, run_ofResult]
  cases replace w₁.settings.origin items chosen v <;> rfl

/-! ## § Constant subscripts -/

variable {ks : List Int64} {s : Value} {depth : Nat} {value : Expr}

/-- The items of a vector after an assignment by subscripts. -/
structure Written (origin : Int) (items : List Scalar) (ks : List Int64) (v : Value)
    (news : List Scalar) : Prop where
  length : news.length = items.length
  /-- A position has the item for the last subscript that selects it. -/
  last : ∀ (j p : Nat) (k : Int64), ks[j]? = some k → k.toInt = p + origin →
    (∀ (i : Nat) (k' : Int64), j < i → ks[i]? = some k' → k'.toInt ≠ p + origin) →
    news[p]? = v.item? j
  others : ∀ p : Nat, (∀ k ∈ ks, k.toInt ≠ p + origin) → news[p]? = items[p]?

theorem offset_iff {k : Int64} {length p : Nat}
    (inside : 0 ≤ k.toInt - origin ∧ k.toInt - origin < length) :
    (k.toInt - origin).toNat = p ↔ k.toInt = p + origin := by omega

theorem Replaced.written (h : Replaced items (offsets origin ks) v news)
    (within : Within origin items.length ks) : Written origin items ks v news where
  length := h.length
  last j p k hj same only := by
    have place : (offsets origin ks)[j]? = some p := by
      have inside := within k (List.mem_of_getElem? hj)
      rw [offsets, List.getElem?_map, hj, Option.map_some, (offset_iff inside).2 same]
    refine h.last j p place fun i later hi => ?_
    obtain ⟨k', hk, hp⟩ := Option.map_eq_some_iff.1 (List.getElem?_map.symm.trans hi)
    exact only i k' later hk ((offset_iff (within k' (List.mem_of_getElem? hk))).1 hp)
  others p none := by
    refine h.others p fun member => ?_
    obtain ⟨k, hk, hp⟩ := List.mem_map.1 member
    exact none k hk ((offset_iff (within k hk)).1 hp)

section

variable [Machine]

/-- Subscripts of which all but one are left out, and that one is made of integers.  It takes a toll
of three levels to get to the subscripts of an assignment, and of one to those that are read. -/
structure Subscripted (depth : Nat) (subscripts : List Expr) (s : Value) (ks : List Int64) :
    Prop where
  only : ∃ e, subscripts.filter (· != .empty) = [e] ∧ ∀ toll ≤ 3, Constant depth toll e s
  indices : Indices s ks

namespace Subscripted

variable (h : Subscripted depth subscripts s ks)

include h

theorem run {toll : Nat} (le : toll ≤ 3) (w : Workspace) :
    (subscript (fun part => evaluateWithin depth toll part) subscripts).run w
      = .ok (some s) w := by
  obtain ⟨e, only, constant⟩ := h.only
  unfold subscript
  rw [only]
  dsimp only
  rw [EStateM.run_bind, constant toll le]
  rfl

/-- A tree has no value without some depth. -/
theorem depth_pos : ∃ inner, depth = inner + 1 := by
  obtain ⟨e, -, constant⟩ := h.only
  cases depth with
  | zero => exact nomatch constant 0 (Nat.zero_le 3) (.ofSettings {})
  | succ inner => exact ⟨inner, rfl⟩

end Subscripted

/-! ## § Trees -/

/-- An assignment evaluates its value before anything else. -/
theorem run_assign (hv : (evaluateWithin depth 0 value).run w = .ok v w₁) :
    (evaluateWithin (depth + 1) 0 (.assign (.index base subscripts) value)).run w
      = match (assignElements (fun part => evaluateWithin depth 3 part) base subscripts v).run w₁ with
        | .ok _ w' => .ok v w'
        | .error failure w' => .error failure w' := by
  rw [evaluateWithin]
  show ((evaluateWithin depth 0 value) >>= fun v => do
    assignElements (fun part => evaluateWithin depth 3 part) base subscripts v
    return v : Evaluation Value).run w = _
  rw [EStateM.run_bind, hv]
  dsimp only
  rw [EStateM.run_bind]
  cases (assignElements (fun part => evaluateWithin depth 3 part) base subscripts v).run w₁ <;> rfl

theorem run_variable (hp : Place.ofExpr? base = some place) (held : place.value? w = some v)
    (there : v ≠ .absent) (depth : Nat) : (evaluateWithin (depth + 1) 0 base).run w = .ok v w := by
  have read := Place.run_read held there
  unfold Place.ofExpr? at hp
  split at hp
  · obtain rfl := Option.some.inj hp
    exact read
  · obtain rfl := Option.some.inj hp
    exact read
  · exact nomatch hp

/-- A subscripted vector is what the subscript selects of it. -/
theorem run_index (hp : Place.ofExpr? base = some place)
    (held : place.value? w = some (.vector items))
    (hs : (subscript (fun part => evaluateWithin (depth + 1) 1 part) subscripts).run w
      = .ok chosen w)
    (selects : select w.settings.origin (.vector items) chosen = .ok v) :
    (evaluateWithin (depth + 2) 0 (.index base subscripts)).run w = .ok v w := by
  rw [evaluateWithin]
  show ((evaluateWithin (depth + 1) 0 base) >>= fun v => do
    let chosen ← subscript (fun part => evaluateWithin (depth + 1) 1 part) subscripts
    ofResult (select (← get).settings.origin v chosen) : Evaluation Value).run w = _
  rw [run_bind_ok (run_variable hp held (by simp) depth), run_bind_ok hs]
  show (ofResult (select w.settings.origin (.vector items) chosen)).run w = _
  rw [selects]
  rfl

/-! ## § Assignments with constant subscripts -/

/-- An assignment that a vector takes: every index lies in it, and there is an item for each. -/
def Takes (w : Workspace) (items : List Scalar) (ks : List Int64) (v : Value) : Prop :=
  Within w.settings.origin items.length ks ∧ v.Supplies ks.length

section Constant

variable (hp : Place.ofExpr? base = some place) (held : place.value? w = some (.vector items))
  (hs : Subscripted depth subscripts s ks) (hv : (evaluateWithin depth 0 value).run w = .ok v w)

include hp held hs hv

theorem assign_taken (taken : Takes w items ks v) :
    ∃ w' news, (evaluateWithin (depth + 1) 0 (.assign (.index base subscripts) value)).run w
        = .ok v w' ∧ place.OnlyAt w w' ∧ place.value? w' = some (.vector news) ∧
      Replaced items (offsets w.settings.origin ks) v news := by
  obtain ⟨within, supplies⟩ := taken
  obtain ⟨news, replaced, result⟩ :=
    replace_supplied (selected_within hs.indices within) (by rwa [length_offsets])
  obtain ⟨w', written⟩ := Place.run_write held (.vector news)
  obtain ⟨only, holds⟩ := Place.onlyAt_write written
  refine ⟨w', news, ?_, only, holds, result⟩
  rw [run_assign hv, run_assignElements hp held (hs.run le_rfl w), replaced]
  dsimp only
  rw [written]

theorem assign_refused (refused : ¬Takes w items ks v) :
    ∃ failure, (evaluateWithin (depth + 1) 0 (.assign (.index base subscripts) value)).run w
      = .error failure w := by
  have failed : ∃ failure, replace w.settings.origin items (some s) v = .error failure := by
    by_cases within : Within w.settings.origin items.length ks
    · refine replace_unsupplied (selected_within hs.indices within) fun supplies => ?_
      rw [length_offsets] at supplies
      exact refused ⟨within, supplies⟩
    · obtain ⟨k, -, outside⟩ := positions_outside hs.indices within
      exact ⟨_, replace_unselected outside⟩
  obtain ⟨failure, failed⟩ := failed
  refine ⟨failure, ?_⟩
  rw [run_assign hv, run_assignElements hp held (hs.run le_rfl w), failed]

/-- Different subscripts read what has been assigned to them. -/
theorem index_after_assign {xs : List Scalar} (indices : s = .vector (ks.map .int))
    (distinct : ks.Nodup) (vector : v = .vector xs)
    (ran : (evaluateWithin (depth + 1) 0 (.assign (.index base subscripts) value)).run w = .ok v w') :
    (evaluateWithin (depth + 1) 0 (.index base subscripts)).run w' = .ok v w' := by
  by_cases taken : Takes w items ks v
  · obtain ⟨w'', news, run, only, holds, replaced⟩ := assign_taken hp held hs hv taken
    obtain ⟨-, rfl⟩ := EStateM.Result.ok.inj (run.symm.trans ran)
    obtain ⟨inner, rfl⟩ := hs.depth_pos
    obtain ⟨within, supplies⟩ := taken
    refine run_index hp holds (hs.run (by decide) w'') ?_
    subst indices vector
    have lies : Within w''.settings.origin news.length ks := by
      rwa [only.settings, replaced.length]
    rw [select_within lies, only.settings,
      replaced.elementsAt (nodup_offsets within distinct) (by rwa [length_offsets])]
  · obtain ⟨failure, run⟩ := assign_refused hp held hs hv taken
    exact nomatch run.symm.trans ran

end Constant

/-- **All indices of a vector read it as it is.** -/
theorem index_all (hp : Place.ofExpr? base = some place)
    (held : place.value? w = some (.vector items)) (free : w.userOperator? .unary "iota" = none)
    (free' : w.userOperator? .unary "rho" = none) (short : Fits64 items.length)
    (fits : ∀ i < items.length, Fits64 (w.settings.origin + i)) (depth : Nat) :
    (evaluateWithin (depth + 5) 0 (.index base [.unary "iota" (.unary "rho" base)])).run w
      = .ok (.vector items) w := by
  obtain ⟨ks, hk⟩ : ∃ ks, allIndices w.settings.origin items.length = ks := ⟨_, rfl⟩
  have length : (evaluateWithin (depth + 2) 0 (.unary "rho" base)).run w
      = .ok (.scalar (.ofInt items.length)) w :=
    run_unary (by decide) free' (by decide : _ = some UnaryPrimitive.length) rfl
      (run_variable hp held nofun depth)
  have indices : (evaluateWithin (depth + 3) 0 (.unary "iota" (.unary "rho" base))).run w
      = .ok (.vector (ks.map .int)) w := by
    refine run_unary (by decide) free (by decide : _ = some UnaryPrimitive.iota) ?_ length
    show (Primitive.iota w.settings.origin (.scalar (.ofInt items.length)), w.dice) = _
    rw [iota_length w.settings.origin short, hk]
  have chosen : (subscript (fun part => evaluateWithin (depth + 4) 1 part)
      [.unary "iota" (.unary "rho" base)]).run w = .ok (some (.vector (ks.map .int))) w := by
    show ((evaluateWithin (depth + 3) 0 (.unary "iota" (.unary "rho" base))) >>= fun v =>
      return some v : Evaluation (Option Value)).run w = _
    rw [EStateM.run_bind, indices]
    rfl
  refine run_index hp held chosen ?_
  subst hk
  rw [select_within (within_allIndices fits), offsets_allIndices fits, elementsAt_range]

/-! ## § All of it -/

/-- What becomes of assignments to elements of a variable that holds a vector. -/
structure ElementAssignments (w : Workspace) (base : Expr) (place : Place) (items : List Scalar) :
    Prop where
  /-- One that the vector takes changes the selected items and nothing else. -/
  taken : ∀ depth subscripts s ks value v, Subscripted depth subscripts s ks →
    (evaluateWithin depth 0 value).run w = .ok v w → Takes w items ks v →
    ∃ w' news, (evaluateWithin (depth + 1) 0 (.assign (.index base subscripts) value)).run w
        = .ok v w' ∧ place.OnlyAt w w' ∧ place.value? w' = some (.vector news) ∧
      Written w.settings.origin items ks v news
  /-- All others change nothing at all. -/
  refused : ∀ depth subscripts s ks value v, Subscripted depth subscripts s ks →
    (evaluateWithin depth 0 value).run w = .ok v w → ¬Takes w items ks v →
    ∃ failure, (evaluateWithin (depth + 1) 0 (.assign (.index base subscripts) value)).run w
      = .error failure w
  /-- Different subscripts read what has been assigned to them. -/
  again : ∀ depth subscripts ks value xs w', ks.Nodup →
    Subscripted depth subscripts (.vector (ks.map .int)) ks →
    (evaluateWithin depth 0 value).run w = .ok (.vector xs) w →
    (evaluateWithin (depth + 1) 0 (.assign (.index base subscripts) value)).run w
      = .ok (.vector xs) w' →
    (evaluateWithin (depth + 1) 0 (.index base subscripts)).run w' = .ok (.vector xs) w'
  /-- All indices read all items, as long as they are words.  The length has to be one for `rho` to
  count the items; that of a list in memory is. -/
  all : w.userOperator? .unary "iota" = none → w.userOperator? .unary "rho" = none →
    Fits64 items.length → (∀ i < items.length, Fits64 (w.settings.origin + i)) →
    ∀ depth, (evaluateWithin (depth + 5) 0 (.index base [.unary "iota" (.unary "rho" base)])).run w
      = .ok (.vector items) w

/-- **An assignment by subscripts writes exactly the selected places.** -/
theorem element_assignments (hp : Place.ofExpr? base = some place)
    (held : place.value? w = some (.vector items)) : ElementAssignments w base place items where
  taken depth subscripts s ks value v hs hv taken := by
    obtain ⟨w', news, ran, only, holds, replaced⟩ := assign_taken hp held hs hv taken
    exact ⟨w', news, ran, only, holds, replaced.written taken.1⟩
  refused depth subscripts s ks value v hs hv refused := assign_refused hp held hs hv refused
  again depth subscripts ks value xs w' distinct hs hv ran :=
    index_after_assign hp held hs hv rfl distinct rfl ran
  all free free' short fits depth := index_all hp held free free' short fits depth

end

/-- A workspace with a vector of integers. -/
def holding (ks : List Int64) : Workspace :=
  (Workspace.ofSettings {}).setGlobal "v" (.vector (ks.map .int))

/-- Of three elements the third, the first and again the third are assigned, and all of them are read;
two items for the second are refused. -/
theorem element_assignments_three :
    Place.ofExpr? (.sessionVar "v") = some (.ofSession "v") ∧
      (Place.ofSession "v").value? (holding [1, 2, 3]) = some (.vector [.int 1, .int 2, .int 3]) ∧
      (∃ w' news, (evaluateWithin 8 0 (.assign (.index (.sessionVar "v")
          [.strand [.constant (.int 3), .constant (.int 1), .constant (.int 3)]])
          (.strand [.constant (.int 7), .constant (.int 8), .constant (.int 9)]))).run
            (holding [1, 2, 3]) = .ok (.vector [.int 7, .int 8, .int 9]) w' ∧
        (Place.ofSession "v").OnlyAt (holding [1, 2, 3]) w' ∧
        (Place.ofSession "v").value? w' = some (.vector news) ∧
        Written 1 [.int 1, .int 2, .int 3] [3, 1, 3] (.vector [.int 7, .int 8, .int 9]) news) ∧
      (evaluateWithin 5 0 (.index (.sessionVar "v")
          [.unary "iota" (.unary "rho" (.sessionVar "v"))])).run (holding [1, 2, 3])
        = .ok (.vector [.int 1, .int 2, .int 3]) (holding [1, 2, 3]) ∧
      ∃ failure, (evaluateWithin 8 0 (.assign (.index (.sessionVar "v") [.constant (.int 2)])
          (.strand [.constant (.int 7), .constant (.int 8)]))).run (holding [1, 2, 3])
        = .error failure (holding [1, 2, 3]) := by
  have laws : ElementAssignments (holding [1, 2, 3]) (.sessionVar "v") (.ofSession "v")
      [.int 1, .int 2, .int 3] := element_assignments rfl rfl
  have subscripted : Subscripted 7
      [.strand [.constant (.int 3), .constant (.int 1), .constant (.int 3)]]
      (.vector [.int 3, .int 1, .int 3]) [3, 1, 3] :=
    ⟨⟨_, rfl, fun toll _ => constant_strand (by omega) [.int 3, .int 1, .int 3]⟩, .many [3, 1, 3]⟩
  have second : Subscripted 7 [.constant (.int 2)] (.scalar (.int 2)) [2] :=
    ⟨⟨_, rfl, fun toll _ => constant_scalar (by omega) (.int 2)⟩, .one 2⟩
  refine ⟨rfl, rfl, ?_, laws.all rfl rfl (by decide) (by decide) 0, ?_⟩
  · exact laws.taken 7 _ _ _ _ _ subscripted
      (constant_strand (by decide) [.int 7, .int 8, .int 9] _) ⟨by decide, rfl⟩
  · exact laws.refused 7 _ _ _ _ _ second (constant_strand (by decide) [.int 7, .int 8] _)
      fun taken => absurd taken.2 (by decide : ¬2 = 1)

/-! ## § Subscripts that assign themselves -/

section

variable [Machine]

/-- The course of an assignment to elements.  The value is evaluated, then the vector is looked up,
then the subscript is evaluated, and then the vector is written with the selected items replaced. -/
structure Course (depth : Nat) (base : Expr) (subscripts : List Expr) (value : Expr) (v : Value)
    (w w₁ w₂ w' : Workspace) (place : Place) (items news : List Scalar) (places : List Nat) :
    Prop where
  target : Place.ofExpr? base = some place
  value : (evaluateWithin depth 0 value).run w = .ok v w₁
  looked : place.value? w₁ = some (.vector items)
  selects : ∃ chosen,
    (subscript (fun part => evaluateWithin depth 3 part) subscripts).run w₁ = .ok chosen w₂ ∧
      selected w₂.settings.origin items.length chosen = .ok places
  only : place.OnlyAt w₂ w'
  holds : place.value? w' = some (.vector news)
  replaced : Replaced items places v news

/-- **Every assignment to elements that succeeds takes this course.** -/
theorem course (ran : (evaluateWithin (depth + 1) 0 (.assign (.index base subscripts) value)).run w
    = .ok v w') :
    ∃ w₁ w₂ place items news places,
      Course depth base subscripts value v w w₁ w₂ w' place items news places := by
  obtain ⟨v', w₁, hv, ran⟩ := bind_ok (f := fun v => do
    assign (fun part => evaluateWithin depth 3 part) (.index base subscripts) v
    return v) ran
  obtain ⟨⟨⟩, w₃, assigned, same⟩ := bind_ok ran
  obtain ⟨rfl, rfl⟩ := EStateM.Result.ok.inj same
  change (assignElements (fun part => evaluateWithin depth 3 part) base subscripts v').run w₁
    = .ok () w₃ at assigned
  unfold assignElements at assigned
  split at assigned
  · exact nomatch assigned
  next place hp =>
    obtain ⟨current, w₂, read, rest⟩ := bind_ok assigned
    obtain ⟨rfl, held⟩ := Place.value?_of_read read
    cases current with
    | vector items =>
      obtain ⟨chosen, w₄, chose, rest⟩ := bind_ok rest
      obtain ⟨news, w₅, replaced, written⟩ := bind_ok (f := fun items =>
        place.write (.vector items)) rest
      obtain ⟨replaced, rfl⟩ := ok_of_ofResult replaced
      obtain ⟨places, selects, replaced⟩ := replaced_of_replace replaced
      obtain ⟨only, holds⟩ := Place.onlyAt_write written
      exact ⟨w₂, w₅, place, items, news, places, hp, hv, held, ⟨chosen, chose, selects⟩, only,
        holds, replaced⟩
    | scalar | absent => exact nomatch rest

/-- **A position that is not selected holds what it held before the subscript was evaluated.**  What
the subscript itself has assigned to it is lost. -/
theorem others_from_before_subscript
    (ran : (evaluateWithin (depth + 1) 0 (.assign (.index base subscripts) value)).run w = .ok v w') :
    ∃ w₁ w₂ place items news places,
      Course depth base subscripts value v w w₁ w₂ w' place items news places ∧
      ∀ p ∉ places, news[p]? = items[p]? ∧
        ∀ before, place.value? w₂ = some (.vector before) →
          (news[p]? = before[p]? ↔ items[p]? = before[p]?) := by
  obtain ⟨w₁, w₂, place, items, news, places, course⟩ := course ran
  refine ⟨w₁, w₂, place, items, news, places, course, fun p other => ?_⟩
  have kept := course.replaced.others p other
  exact ⟨kept, fun before _ => by rw [kept]⟩

end

/-- An operator that assigns to an element of `v` and gives back its operand. -/
def touch : UserOperator where
  name := "touch"
  left := none
  right := "x"
  body := [.assign (.index (.sessionVar "v") [.constant (.int 1)]) (.constant (.int 9)),
    .slotVar "x" 1]
  locals := ["x"]
  globals := ["v"]

/-- A workspace with that operator and a vector. -/
def touchable (ks : List Int64) : Workspace :=
  { holding ks with unary := Bindings.empty.insert "touch" touch }

/-- The first element is nine before the vector is written, and one again after it. -/
theorem others_from_before_subscript_touch :
    (subscript (evaluateWithin 12 3) [.unary "touch" (.constant (.int 2))]).run
        (touchable [1, 2, 3])
      = .ok (some (.scalar (.int 2))) (touchable [9, 2, 3]) ∧
    (evaluateWithin 13 0 (.assign (.index (.sessionVar "v") [.unary "touch" (.constant (.int 2))])
        (.constant (.int 5)))).run (touchable [1, 2, 3])
      = .ok (.scalar (.int 5)) (touchable [1, 5, 3]) ∧
    ∃ w₁ w₂ place items news places,
      Course 12 (.sessionVar "v") [.unary "touch" (.constant (.int 2))] (.constant (.int 5))
        (.scalar (.int 5)) (touchable [1, 2, 3]) w₁ w₂
        (touchable [1, 5, 3]) place items news places ∧
      ∀ p ∉ places, news[p]? = items[p]? ∧
        ∀ before, place.value? w₂ = some (.vector before) →
          (news[p]? = before[p]? ↔ items[p]? = before[p]?) :=
  ⟨rfl, rfl, others_from_before_subscript rfl⟩

end ArrayCalc.Evaluation
