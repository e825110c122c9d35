import ArrayCalc.Proofs.ReadingParts
import ArrayCalc.Proofs.Situations

/-!
# Definitions that fail

A definition goes through three hands: its name is claimed, a placeholder is put in its place, and
its body is read.  Whatever stops it after that, the placeholder is taken away again and so are the
declarations, at every token and down to the last entry of the tables.  The name is not given back:
a variable that has made room for an operator is gone, even if there is no operator in the end.
-/

namespace ArrayCalc

namespace Bindings

variable {α : Type} {b : Bindings α} {name other : String} {a : α}

theorem nodup_insert (h : b.names.Nodup) : (b.insert name a).names.Nodup := by
  rw [names_insert]
  split
  · exact h
  next new =>
    refine List.nodup_append.2 ⟨h, by simp, fun x hx y hy => ?_⟩
    obtain rfl := List.mem_singleton.1 hy
    rintro rfl
    exact new hx

/-- An entry of a map in which no name is bound twice is what a look-up finds. -/
theorem get?_of_mem (h : b.names.Nodup) (hm : (name, a) ∈ b.entries) : b.get? name = some a := by
  obtain ⟨entries⟩ := b
  induction entries with
  | nil => exact nomatch hm
  | cons entry rest ih =>
    obtain ⟨first, others⟩ := List.nodup_cons.1 h
    rcases List.mem_cons.1 hm with rfl | hm
    · simp [get?]
    · have different : entry.1 ≠ name := by
        rintro rfl
        exact first (List.mem_map.2 ⟨_, hm, rfl⟩)
      simpa [get?, different] using ih others hm

/-- What has been bound for a while leaves nothing behind. -/
theorem restore_insert (h : b.names.Nodup) (name : String) (a : α) :
    (b.insert name a).restore name (b.get? name) = b := by
  obtain ⟨entries⟩ := b
  cases before : get? ⟨entries⟩ name with
  | none =>
    have unbound : contains ⟨entries⟩ name = false := by rw [contains, before]; rfl
    have others := contains_eq_false_iff.1 unbound
    unfold restore erase insert
    rw [if_neg (by rw [unbound]; decide)]
    have kept : entries.filter (fun entry => entry.1 != name) = entries :=
      List.filter_eq_self.2 fun entry he => bne_iff_ne.2 (others entry he)
    simp [kept]
  | some previous =>
    have bound : contains ⟨entries⟩ name = true := by rw [contains, before]; rfl
    have still : ((⟨entries⟩ : Bindings α).insert name a).contains name = true := by
      rw [contains, get?_insert, if_pos rfl]
      rfl
    show insert _ name previous = _
    unfold insert at still ⊢
    rw [if_pos bound] at still ⊢
    rw [if_pos still, List.map_map]
    refine congrArg Bindings.mk ((List.map_congr_left fun entry he => ?_).trans (List.map_id _))
    by_cases same : entry.1 = name
    · have found : get? ⟨entries⟩ entry.1 = some entry.2 := get?_of_mem h he
      rw [same, before] at found
      obtain rfl := Option.some.inj found
      simp [← same]
    · simp [same]

end Bindings

namespace Workspace

/-- A workspace whose tables have one entry for a name. -/
def Keyed (w : Workspace) : Prop := ∀ arity, (w.table arity).names.Nodup

variable {w w' base : Workspace} {f : UserOperator} {name right : String} {left : Option String}

theorem Keyed.of_tables (h : w.Keyed) (ht : ∀ arity, w'.table arity = w.table arity) :
    w'.Keyed := fun arity => by
  rw [ht]
  exact h arity

theorem table_of_globals (w : Workspace) (globals : Bindings Value) (arity : Arity) :
    ({ w with globals := globals } : Workspace).table arity = w.table arity := by
  cases arity <;> rfl

theorem Keyed.install (h : w.Keyed) (f : UserOperator) : (w.install f).Keyed := by
  intro arity
  unfold Workspace.install
  rw [table_withTable]
  split
  · exact Bindings.nodup_insert (h _)
  · exact h arity

theorem Keyed.claimName {arity : Arity} (h : w.Keyed) (hc : w.claimName name arity = .ok w') :
    w'.Keyed := by
  rw [(claimName_ok hc).1]
  exact h.of_tables (table_of_globals w _)

theorem Keyed.beginDefinition (h : w.Keyed) (hb : w.beginDefinition name left right = .ok base) :
    base.Keyed := by
  obtain ⟨w₁, hc, rfl⟩ := beginDefinition_iff.1 hb
  exact (h.claimName hc).install _

theorem Keyed.define (h : w.Keyed) (hd : w.define f = .ok w') : w'.Keyed := by
  obtain ⟨w₁, hc, rfl⟩ := define_iff.1 hd
  refine Keyed.of_tables ((h.claimName hc).install f) fun arity => ?_
  cases arity <;> rfl

theorem Keyed.sameBase (h : base.Keyed) (hw : base.SameBase w) : w.Keyed := by
  refine h.of_tables fun arity => ?_
  rw [hw]
  cases arity <;> rfl

theorem Keyed.sameTables (h : w.Keyed) (hw : w.SameTables w') : w'.Keyed := by
  refine h.of_tables fun arity => ?_
  cases arity
  · exact hw.unary
  · exact hw.binary

@[simp]
theorem withTable_table (w : Workspace) (arity : Arity) : w.withTable arity (w.table arity) = w := by
  cases arity <;> rfl

@[simp]
theorem withTable_withTable (w : Workspace) (arity : Arity) (b c : Bindings UserOperator) :
    (w.withTable arity b).withTable arity c = w.withTable arity c := by
  cases arity <;> rfl

/-- To abandon a definition takes its placeholder away, and what stood there is back. -/
theorem abandonDefinition_install (h : w.Keyed) (f : UserOperator) :
    (w.install f).abandonDefinition f.name f.arity (w.userOperator? f.arity f.name) = w := by
  unfold abandonDefinition install userOperator?
  rw [table_withTable, if_pos rfl, Bindings.restore_insert (h f.arity), withTable_withTable,
    withTable_table]

/-- **Only the claim of the name outlives a definition that is abandoned.** -/
theorem abandonDefinition_begin (h : w.Keyed) (hd : w.declared = [])
    (hb : w.beginDefinition name left right = .ok base) (hw : base.SameBase w') :
    w.claimName name (placeholder name left right).arity
      = .ok (w'.forgetDeclarations.abandonDefinition name (placeholder name left right).arity
        (w.userOperator? (placeholder name left right).arity name)) := by
  obtain ⟨w₁, hc, rfl⟩ := beginDefinition_iff.1 hb
  have closed : w₁.declared = [] := by
    rw [(claimName_ok hc).1]
    exact hd
  have forgotten : w'.forgetDeclarations = w₁.install (placeholder name left right) := by
    rw [hw]
    unfold install
    obtain ⟨⟩ := w₁
    cases closed
    cases (placeholder name left right).arity <;> rfl
  rw [forgotten, ← claimName_userOperator? hc, hc]
  exact congrArg Except.ok (abandonDefinition_install (h.claimName hc) _).symm

theorem claimName_of_refused {cause : ParseError.Cause}
    (refused : w.beginDefinition name left right = .error cause) :
    ∃ cause, w.claimName name (placeholder name left right).arity = .error cause := by
  cases hc : w.claimName name (placeholder name left right).arity with
  | error cause => exact ⟨cause, rfl⟩
  | ok w₁ => exact nomatch refused.symm.trans (beginDefinition_iff.2 ⟨w₁, hc, rfl⟩)

/-- What the claim of a name takes is a zero. -/
theorem claimName_taken {arity : Arity} (hc : w.claimName name arity = .ok w') (taken : w' ≠ w) :
    w.global? name = some (.scalar (.int 0)) ∧
      w' = { w with globals := w.globals.erase name } := by
  unfold claimName at hc
  split at hc
  · exact nomatch hc
  split at hc
  · exact nomatch hc
  unfold releaseName at hc
  split at hc
  · exact absurd (Except.ok.inj hc).symm taken
  next n hn =>
    split at hc
    next zero => exact ⟨zero ▸ hn, (Except.ok.inj hc).symm⟩
    · exact nomatch hc
  · exact nomatch hc

end Workspace

/-! ## § Reading -/

theorem outcome_self {ε σ α : Type} (x : EStateM ε σ α) (s : σ) :
    Outcome x s (fun a s' => x.run s = .ok a s') fun e s' => x.run s = .error e s' := by
  unfold Outcome
  cases x.run s <;> rfl

namespace Reading

variable {r : Reader}

/-- The workspace once the name of a definition has been claimed, if it can be. -/
def claimed (w : Workspace) (h : Header) : Workspace :=
  (w.claimName h.name h.arity).toOption.getD w

theorem definition_undone [Machine] (keyed : r.workspace.Keyed) (hd : r.workspace.declared = [])
    (ho : r.workspace.SparesOuter) (hp : r.source.peeked = none) :
    Outcome definition r (fun _ r' => r'.workspace.Keyed) fun _ r' =>
      match header.run r with
      | .ok h _ => r'.workspace = claimed r.workspace h
      | .error _ _ => r'.workspace = r.workspace := by
  have head := (outcome_self header r).and
    (header_quiet r rfl fun t ht => nomatch hp.symm.trans ht)
    (P := fun h r₁ => header.run r = .ok h r₁ ∧ r₁.workspace = r.workspace ∧
      h.Sound r.workspace.vocabulary)
    (E := fun o r₁ => header.run r = .error o r₁ ∧ r₁.workspace = r.workspace)
    (fun _ _ hr k => ⟨hr, k.1.1, k.2⟩) fun _ _ hr k => ⟨hr, k.1⟩
  refine .bind (head.mono (fun _ _ k => k) fun o r₁ ⟨hr, hw⟩ => ?_)
    fun h r₁ ⟨hr, hw₁, hs⟩ => .get ?_
  · rw [hr]
    exact hw
  rw [hr, hw₁]
  refine .bind (P := fun _ r₂ => r.workspace.beginDefinition h.name h.left h.right
    = .ok r₂.workspace) ?_ fun _ r₂ hb => .modify ?_
  · refine .get ?_
    rw [hw₁]
    split
    next w hw => exact hw
    next cause refused =>
      obtain ⟨cause, hc⟩ := Workspace.claimName_of_refused refused
      refine .throw (hw₁.trans ?_)
      show r.workspace = (r.workspace.claimName h.name h.arity).toOption.getD r.workspace
      rw [show r.workspace.claimName h.name h.arity = .error cause from hc]
      rfl
  obtain ⟨-, hdecl, -, hno, operators⟩ := Workspace.beginDefinition_ok hb
  have spares : r₂.workspace.SparesOuter := by
    show r₂.workspace.userOperator? .binary "o" = none
    rw [operators, if_neg, ho]
    rintro ⟨hn, ha⟩
    exact hno ⟨hn.symm, ha.symm⟩
  have body := definitionBody_outcome hs spares.knows (.refl _) (r := { r₂ with free := some [] })
    (hdecl.trans hd) rfl
  refine outcome_closing (body.mono ?_ ?_)
  · rintro f r₃ ⟨-, -, -, -, w, hw, hdefine⟩
    exact (((keyed.beginDefinition hb).sameBase hw).define hdefine).of_tables fun arity => by
      cases arity <;> rfl
  · intro _ r₃ hw
    have undone := Workspace.abandonDefinition_begin keyed hd hb hw
    show _ = (r.workspace.claimName h.name h.arity).toOption.getD r.workspace
    exact (congrArg (fun claim => claim.toOption.getD r.workspace) undone).symm

end Reading

namespace Line

variable {r : Reader} {w w' : Workspace} {s s' : Source}

/-- The head of the definition that a line begins with, if there is one that can be read. -/
def head : Reading (Option Reading.Header) := do
  if (← Reading.peekKind) = .opKeyword then
    Reading.discard
    return some (← Reading.header)
  else return none

def head? (s : Source) (w : Workspace) : Option Reading.Header :=
  match head.run ⟨{ s with atLineEnd := false }, w, none⟩ with
  | .ok h _ => h
  | .error _ _ => none

/-- The workspace once a line has claimed the name it defines. -/
def claimed (s : Source) (w : Workspace) : Workspace :=
  ((head? s w).map (Reading.claimed w)).getD w

/-- Only a definition can leave anything at all. -/
theorem readingOf_quiet [Machine] {kind : TokenKind} (other : kind ≠ .opKeyword)
    (hd : r.workspace.declared = []) (scope : Scoped r.workspace [] r) :
    Outcome (readingOf kind) r (fun _ r' => r'.workspace = r.workspace)
      fun _ r' => r'.workspace = r.workspace := by
  have same {r' : Reader} (h : Stopped r.workspace [] r') : r'.workspace = r.workspace := by
    rw [h.same_base, h.closed rfl, ← hd]
  have discarded := (Reading.discard_scopes scope).mono
    (fun _ r₁ k => k.2.2) fun _ _ => same
  unfold readingOf readingWords readingStatements
  split
  · exact .bind discarded fun _ r₁ hw => .pure hw
  · exact .bind discarded fun _ r₁ hw => .pure hw
  · exact .bind discarded fun _ r₁ hw => .get (.set (.pure hw))
  · exact absurd rfl other
  · refine .bind ((Reading.statements_scopes r scope).mono (fun _ _ k => k)
      fun _ _ => same) fun es r₁ k => ?_
    refine .bind ((Reading.endOfLine_scopes r₁ k.scope).mono (fun _ _ l => l) fun _ _ => same)
      fun t r₂ l => .pure ?_
    exact (unchanged_of_reads hd (k.trans l)).1

/-- A line that cannot be read leaves the claim of the name that it was to define. -/
theorem reading_undone [Machine] (keyed : r.workspace.Keyed) (hd : r.workspace.declared = [])
    (hf : r.free = none) (ho : r.workspace.SparesOuter) :
    Outcome reading r (fun _ r' => r'.workspace.Keyed) fun _ r' =>
      match head.run r with
      | .ok h _ => r'.workspace = (h.map (Reading.claimed r.workspace)).getD r.workspace
      | .error _ _ => r'.workspace = r.workspace := by
  rw [reading_eq]
  have scope := scoped_outside hd hf
  have same {r' : Reader} (h : Stopped r.workspace [] r') : r'.workspace = r.workspace := by
    rw [h.same_base, h.closed rfl, ← hd]
  have looked := (outcome_self Reading.peekKind r).and (Reading.peekKind_scopes r scope)
    (P := fun kind r₁ => Reading.peekKind.run r = .ok kind r₁ ∧ Reads r.workspace [] r r₁ [])
    (E := fun o r₁ => Reading.peekKind.run r = .error o r₁ ∧ r₁.workspace = r.workspace)
    (fun _ _ hr k => ⟨hr, k⟩) fun _ _ hr k => ⟨hr, same k⟩
  refine .bind (looked.mono (fun _ _ k => k) fun o r₁ ⟨hr, hw⟩ => ?_) fun kind r₁ ⟨hr, k⟩ => ?_
  · rw [head, run_bind_error hr]
    exact hw
  have hw₁ := (unchanged_of_reads hd k).1
  rw [head, run_bind_ok hr]
  by_cases op : kind = .opKeyword
  · subst op
    have discarded := (outcome_self Reading.discard r₁).and (Reading.discard_scopes k.scope)
      (P := fun _ r₂ => Reading.discard.run r₁ = .ok ⟨⟩ r₂ ∧ r₂.workspace = r.workspace ∧
        r₂.source.peeked = none)
      (E := fun o r₂ => Reading.discard.run r₁ = .error o r₂ ∧ r₂.workspace = r.workspace)
      (fun _ _ hr l => ⟨hr, l.2.2.trans hw₁, l.2.1⟩) fun _ _ hr l => ⟨hr, same l⟩
    rw [if_pos rfl]
    refine .bind (discarded.mono (fun _ _ k => k) fun o r₂ ⟨hr, hw⟩ => ?_)
      fun _ r₂ ⟨hr, hw₂, hp₂⟩ => ?_
    · rw [run_bind_error hr]
      exact hw
    rw [run_bind_ok hr]
    have undone := Reading.definition_undone (r := r₂) (hw₂ ▸ keyed) (hw₂ ▸ hd) (hw₂ ▸ ho) hp₂
    refine .bind (undone.mono (fun _ _ k => k) fun o r₃ hw => ?_) fun f r₃ keyed => .pure keyed
    rw [hw₂] at hw
    cases hh : Reading.header.run r₂ with
    | ok h r₄ =>
      rw [hh] at hw
      rw [run_bind_ok hh]
      exact hw
    | error o r₄ =>
      rw [hh] at hw
      rw [run_bind_error hh]
      exact hw
  · rw [if_neg op]
    have quiet := readingOf_quiet op (hw₁ ▸ hd) (hw₁.symm ▸ k.scope)
    rw [hw₁] at quiet
    refine quiet.mono (fun _ r' hw => ?_) fun _ _ hw => hw
    rw [hw]
    exact keyed

theorem read_keyed [Machine] {line : Result Line} (keyed : w.Keyed) (hd : w.declared = [])
    (ho : w.SparesOuter) (h : read s w = (line, s', w')) : w'.Keyed := by
  have outcome := reading_undone (r := ⟨{ s with atLineEnd := false }, w, none⟩) keyed hd rfl ho
  have claim (x : Reading.Header) : (Reading.claimed w x).Keyed := by
    unfold Reading.claimed
    cases hc : w.claimName x.name x.arity with
    | error => exact keyed
    | ok w₁ => exact keyed.claimName hc
  cases attempt h with
  | whole hr => exact outcome.of_ok hr
  | halted hr =>
    have left := outcome.of_error hr
    split at left
    next found _ _ =>
      rw [left]
      cases found with
      | none => exact keyed
      | some x => exact claim x
    next => exact left ▸ keyed

/-- **A line that cannot be read** leaves the claim of the name it was to define, and else nothing. -/
theorem read_undone [Machine] {failure : Failure} (keyed : w.Keyed) (hd : w.declared = [])
    (ho : w.SparesOuter) (h : read s w = (.error failure, s', w')) : w' = claimed s w := by
  have outcome := reading_undone (r := ⟨{ s with atLineEnd := false }, w, none⟩) keyed hd rfl ho
  unfold claimed head?
  cases attempt h with
  | halted hr =>
    have left := outcome.of_error hr
    cases hh : head.run ⟨{ s with atLineEnd := false }, w, none⟩ with
    | ok found r₁ =>
      rw [hh] at left
      exact left
    | error o₁ r₁ =>
      rw [hh] at left
      exact left

/-- What a claim takes away is a variable that holds zero. -/
theorem claimed_cases (s : Source) (w : Workspace) :
    claimed s w = w ∨ ∃ h, head? s w = some h ∧ w.global? h.name = some (.scalar (.int 0)) ∧
      claimed s w = { w with globals := w.globals.erase h.name } := by
  unfold claimed
  cases head? s w with
  | none => exact .inl rfl
  | some h =>
    by_cases taken : Reading.claimed w h = w
    · exact .inl taken
    · refine .inr ⟨h, rfl, ?_⟩
      show _ ∧ Reading.claimed w h = _
      unfold Reading.claimed at taken ⊢
      cases hc : w.claimName h.name h.arity with
      | error => exact absurd (by rw [hc]; rfl) taken
      | ok w₁ =>
        rw [hc] at taken
        exact Workspace.claimName_taken hc taken

end Line

/-! ## § Sessions -/

namespace Session

open Workspace

variable {settings : Settings} {w w' : Workspace} {s s' : Source}

theorem keyed_new [Machine] (settings : Settings) : (ofSettings settings).Keyed := by
  intro arity
  cases arity <;> exact .nil

theorem respond_keyed [Machine] (h : Idle settings w) (keyed : w.Keyed) (s : Source) :
    (respond s w).2.2.Keyed := by
  refine respond_cases (P := fun _ _ w' => w'.Keyed) h.declared h.spares s ?_ ?_ ?_ ?_
  · intro failure s' w' hr
    exact Line.read_keyed keyed h.declared h.spares hr
  · intro f s' w' hr
    exact Line.read_keyed keyed h.declared h.spares hr
  · intro es s' hr
    rcases Line.read_ok h.declared h.spares hr with _ | closed
    refine (evaluateLine_frame h closed).mono (fun vs w' hw => ?_) fun _ w' hw => ?_
    · exact (keyed.sameTables hw.toSameTables).sameTables (remember_frame w' vs).toSameTables
    · exact keyed.sameTables hw.tables
  · intro _ _ _ _ _ _
    exact keyed

/-- No table binds a name twice. -/
theorem Reached.keyed {p : Situation} (hs : settings.check = .ok settings)
    (h : Reached settings p) : p.workspace.Keyed := by
  obtain ⟨machine, leads⟩ := h
  induction leads with
  | refl => exact @keyed_new machine settings
  | tail first step ih =>
    cases step with
    | opened | followed | closed => exact ih
    | line machine s ss w =>
      have order := Reached.inOrder hs ⟨_, first⟩
      exact @respond_keyed _ _ machine order.settled.toIdle ih s

/-- **A definition that fails** leaves the workspace as it was, tables and declarations included, but
for the claim of its name: if that was the name of a variable that held zero, the variable is gone.
This is so wherever and however the definition fails. -/
theorem failed_definition_undone [Machine] (hs : settings.check = .ok settings) {ss : List Source}
    (h : Reached settings ⟨s :: ss, w⟩) {failure : Failure}
    (hr : Line.read s w = (.error failure, s', w')) :
    w' = Line.claimed s w ∧
      (w' = w ∨ ∃ head, Line.head? s w = some head ∧
        w.global? head.name = some (.scalar (.int 0)) ∧
        w' = { w with globals := w.globals.erase head.name }) := by
  have idle := (h.inOrder hs).settled.toIdle
  obtain rfl := Line.read_undone (h.keyed hs) idle.declared idle.spares hr
  exact ⟨rfl, Line.claimed_cases s w⟩

/-- A definition that fails, of a name that a variable has. -/
def zeroTaken : Source := Source.ofText "x = 0\nop x a = a +\n".toList

theorem reached_zeroTaken :
    Reached {} ⟨[(respond zeroTaken (ofSettings {})).2.1],
      (respond zeroTaken (ofSettings {})).2.2⟩ :=
  ⟨_, (Relation.ReflTransGen.single (.opened [] (ofSettings {}) _)).tail (.line _ zeroTaken [] _)⟩

theorem failed_definition_undone_zeroTaken :
    ∃ failure s' w', Line.read (respond zeroTaken (ofSettings {})).2.1
        (respond zeroTaken (ofSettings {})).2.2 = (.error failure, s', w') ∧
      (respond zeroTaken (ofSettings {})).2.2.global? "x" = some (.scalar (.int 0)) ∧
      w'.global? "x" = none ∧ w'.unary = (respond zeroTaken (ofSettings {})).2.2.unary := by
  have failed : (match Line.read (respond zeroTaken (ofSettings {})).2.1
      (respond zeroTaken (ofSettings {})).2.2 with
      | (.error _, _, _) => true
      | _ => false) = true := by decide +kernel
  have taken : (Line.claimed (respond zeroTaken (ofSettings {})).2.1
      (respond zeroTaken (ofSettings {})).2.2).global? "x" = none := by decide +kernel
  have zero : (respond zeroTaken (ofSettings {})).2.2.global? "x"
      = some (.scalar (.int 0)) := by decide +kernel
  split at failed
  next failure s' w' hr =>
    obtain ⟨claimed, same⟩ := failed_definition_undone rfl reached_zeroTaken hr
    refine ⟨failure, s', w', hr, zero, claimed ▸ taken, ?_⟩
    rcases same with same | ⟨head, -, -, same⟩
    · rw [same]
    · rw [same]
  next => exact nomatch failed

end Session

end ArrayCalc
