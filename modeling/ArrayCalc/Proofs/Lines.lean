import ArrayCalc.Proofs.Definitions
import ArrayCalc.Proofs.ReadingParts

/-!
# What a line leaves behind

Only a definition changes the workspace while a line is read, and it is either installed or leaves
the operators as they were.  Outside of definitions no tree names a slot.
-/

namespace ArrayCalc.Line

variable {w : Workspace} {r : Reader}

/-- What reading a line has done to a workspace. -/
inductive Effect (w : Workspace) : Line → Workspace → Prop where
  | definition {f : UserOperator} {w' : Workspace} (scope : f.WellScoped)
      (worded : f.Worded w.vocabulary) (installed : w.Installed f w') (spares : w'.SparesOuter) :
      Effect w (.definition f) w'
  | statements {es : List Expr}
      (closed : ∀ name slot, .slotVar name slot ∉ Expr.nodesOf es) : Effect w (.statements es) w
  | endOfInput : Effect w .endOfInput w
  | blank : Effect w .blank w
  | command (words : List String) : Effect w (.command words) w

/-- A reader outside of definitions. -/
theorem scoped_outside (hd : r.workspace.declared = []) (hf : r.free = none) :
    Scoped r.workspace [] r where
  same_base := .refl _
  closed _ := ⟨hf, hd⟩
  nodup := by rw [hd]; exact .nil
  parameters_first := List.nil_prefix
  identifiers := nofun
  fresh := by rw [hd]; exact nofun
  sound hs := by rw [hf] at hs; simp at hs

/-- Outside of definitions trees are read without a change to the workspace. -/
theorem unchanged_of_reads {r' : Reader} {es : List Expr} (hd : r.workspace.declared = [])
    (h : Reads r.workspace [] r r' es) :
    r'.workspace = r.workspace ∧ ∀ name slot, .slotVar name slot ∉ Expr.nodesOf es := by
  have closed := (h.scope.closed rfl).2
  constructor
  · rw [h.scope.same_base, closed, ← hd]
  · intro name slot hm
    have := (h.slots name slot hm).2
    rw [closed] at this
    simp at this

theorem restored_of_stopped {r' : Reader} (hd : r.workspace.declared = [])
    (h : Stopped r.workspace [] r') : r.workspace.Restored r'.workspace := by
  have : r'.workspace = r.workspace := by rw [h.same_base, h.closed rfl, ← hd]
  rw [this]
  exact .refl hd

variable [Machine]

theorem reading_outcome (hd : r.workspace.declared = []) (hf : r.free = none)
    (ho : r.workspace.SparesOuter) :
    Outcome reading r (fun line r' => Effect r.workspace line r'.workspace)
      fun _ r' => r.workspace.Restored r'.workspace := by
  have scope := scoped_outside hd hf
  have stopped (o : Obstacle) (r' : Reader) (h : Stopped r.workspace [] r') :=
    restored_of_stopped hd h
  refine .bind ((Reading.peekKind_scopes r scope).mono (fun _ _ k => k) stopped) fun kind r₁ k => ?_
  have hw₁ := (unchanged_of_reads hd k).1
  have discarded := (Reading.discard_scopes k.scope).mono
    (fun _ r₂ l => And.intro (l.2.2.trans hw₁) l.2.1) stopped
  split
  · refine .bind discarded fun _ r₂ ⟨hw₂, _⟩ => .pure ?_
    rw [hw₂]
    exact .endOfInput
  · refine .bind discarded fun _ r₂ ⟨hw₂, _⟩ => .pure ?_
    rw [hw₂]
    exact .blank
  · refine .bind discarded fun _ r₂ ⟨hw₂, _⟩ => .get (.set (.pure ?_))
    show Effect _ _ r₂.workspace
    rw [hw₂]
    exact .command _
  · refine .bind discarded fun _ r₂ ⟨hw₂, hp₂⟩ => ?_
    have := Reading.definition_outcome (r := r₂) (hw₂ ▸ hd) (hw₂ ▸ ho) hp₂
    rw [hw₂] at this
    refine .bind this fun f r₃ ⟨scope, worded, installed, spares⟩ => .pure ?_
    exact .definition scope worded installed spares
  · refine .bind ((Reading.statements_scopes r₁ k.scope).mono (fun _ _ l => k.trans l) stopped)
      fun es r₂ l => ?_
    refine .bind ((Reading.endOfLine_scopes r₂ l.scope).mono (fun _ _ m => m) stopped)
      fun t r₃ m => .pure ?_
    have read : Reads r.workspace [] r r₃ es := by simpa using l.trans m
    obtain ⟨hw₃, closed⟩ := unchanged_of_reads hd read
    rw [hw₃]
    exact .statements closed

/-- **A line that has been read** defines an operator whose scope is right, or changes nothing. -/
theorem read_ok {s s' : Source} {w' : Workspace} {line : Line} (hd : w.declared = [])
    (ho : w.SparesOuter) (h : read s w = (.ok line, s', w')) : Effect w line w' := by
  have outcome := reading_outcome (r := ⟨{ s with atLineEnd := false }, w, none⟩) hd rfl ho
  cases attempt h with
  | whole hr => exact outcome.of_ok hr

/-- A line that cannot be read changes no operator. -/
theorem read_error {s s' : Source} {w' : Workspace} {failure : Failure} (hd : w.declared = [])
    (ho : w.SparesOuter) (h : read s w = (.error failure, s', w')) : w.Restored w' := by
  have outcome := reading_outcome (r := ⟨{ s with atLineEnd := false }, w, none⟩) hd rfl ho
  cases attempt h with
  | halted hr => exact outcome.of_error hr

end ArrayCalc.Line
