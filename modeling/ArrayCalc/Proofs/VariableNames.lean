import ArrayCalc.Proofs.CanonicalEvaluation
import ArrayCalc.Proofs.Histories

/-!
# Names of variables

Two rules keep variables and operators apart.  The definition of an operator claims its name, so no
variable has it then; and from then on the scanner takes the name for an operator, so nothing that
is read can assign it.

Two things get past them.  The scanner takes `o` for a name wherever no point follows.  And a body
that was read while a name was free keeps its assignment, which binds the name again when the body
runs later.  That is all, whatever the order in which operators are defined, called and replaced.
-/

namespace ArrayCalc

/-- The session variables that the body assigns. -/
def UserOperator.assigned (f : UserOperator) : List String := f.nodes.flatMap Expr.assigned

namespace Session

open Workspace Evaluation

variable {settings : Settings} {w w' : Workspace} {s : Source} {log : List UserOperator}
  {p : Situation} {name : String} {f g : UserOperator}

/-! ## § Names that are excused -/

/-- An operator that assigns a variable was defined before every operator of that name. -/
def AssignedBefore (log : List UserOperator) (name : String) : Prop :=
  ∃ earlier g, earlier ++ [g] <+: log ∧ name ∈ g.assigned ∧ ∀ f ∈ earlier ++ [g], f.name ≠ name

/-- The names that variables can have after a history. -/
def Nameable (log : List UserOperator) (name : String) : Prop :=
  name = "o" ∨ name ∈ reservedNames ∨ (∀ f ∈ log, f.name ≠ name) ∨ AssignedBefore log name

theorem AssignedBefore.append (h : AssignedBefore log name) (news : List UserOperator) :
    AssignedBefore (log ++ news) name := by
  obtain ⟨earlier, g, first, assigns, free⟩ := h
  exact ⟨earlier, g, first.trans (List.prefix_append log news), assigns, free⟩

/-- What is defined takes one name away. -/
theorem Nameable.defined (h : Nameable log name) (other : f.name ≠ name) :
    Nameable (log ++ [f]) name := by
  rcases h with outer | reserved | free | excused
  · exact .inl outer
  · exact .inr (.inl reserved)
  · refine .inr (.inr (.inl ?_))
    rw [List.forall_mem_append, List.forall_mem_singleton]
    exact ⟨free, other⟩
  · exact .inr (.inr (.inr (excused.append [f])))

/-- It cannot take away what an operator before it assigns. -/
theorem Nameable.of_assigned (h : Nameable log name) (listed : g ∈ log) (assigns : name ∈ g.assigned)
    (f : UserOperator) : Nameable (log ++ [f]) name := by
  rcases h with outer | reserved | free | excused
  · exact .inl outer
  · exact .inr (.inl reserved)
  · -- No operator of the name has been defined up to `g`, nor any after it.
    obtain ⟨earlier, later, rfl⟩ := List.append_of_mem listed
    refine .inr (.inr (.inr ⟨earlier, g, ?_, assigns, fun f hf => free f ?_⟩))
    · exact ⟨later ++ [f], by simp⟩
    · rcases List.mem_append.1 hf with hf | hf
      · exact List.mem_append_left _ hf
      · obtain rfl := List.mem_singleton.1 hf
        exact List.mem_append_right _ List.mem_cons_self
  · exact .inr (.inr (.inr (excused.append [f])))

/-! ## § Stored operators and their history -/

namespace Store

variable {arity : Arity}

/-- What is stored has been defined. -/
theorem listed (store : Store log w) (hf : w.userOperator? arity name = some f) :
    f ∈ log ∧ f.signature = ⟨name, arity⟩ := by
  rw [store.latest] at hf
  refine ⟨List.mem_reverse.1 (List.mem_of_find?_eq_some hf), ?_⟩
  simpa using List.find?_some hf

/-- The name of what has been defined is that of an operator. -/
theorem knows (store : Store log w) (hf : f ∈ log) : w.Knows ⟨f.name, f.arity⟩ = true := by
  rw [knows_eq, Bool.or_eq_true, store.latest, List.find?_isSome]
  exact .inr ⟨f, List.mem_reverse.2 hf, beq_iff_eq.2 rfl⟩

/-- A name that is not known was never that of an operator. -/
theorem unnamed (store : Store log w) (unknown : ∀ arity, w.Knows ⟨name, arity⟩ = false) :
    ∀ f ∈ log, f.name ≠ name := by
  rintro f hf rfl
  exact Bool.eq_false_iff.1 (unknown f.arity) (store.knows hf)

end Store

/-- The name of an operator is none of those that never become one. -/
theorem History.unreserved (hs : settings.check = .ok settings) (h : History settings log p) :
    ∀ f ∈ log, f.name ∉ reservedNames := by
  induction h with
  | new => exact List.forall_mem_nil _
  | opened _ _ ih => exact ih
  | @line log s ss w h machine ih =>
    refine List.forall_mem_append.2 ⟨ih, fun f hf => ?_⟩
    have idle := (h.reached.inOrder hs).settled.toIdle
    obtain ⟨s', w', hr⟩ := Line.mem_defined.1 hf
    rcases Line.read_ok idle.declared idle.spares hr with ⟨-, -, installed, -⟩
    exact installed.unreserved
  | followed _ _ ih => exact ih
  | closed _ ih => exact ih

/-! ## § One line -/

/-- A tree that has just been read assigns names only that no operator has. -/
theorem tidy_of_fresh {known : Signature → Bool} {e : Expr} {allowed : String → Prop}
    (fresh : Expr.FreshStatement known e)
    (named : ∀ name, (name = "o" ∨ ∀ arity, known ⟨name, arity⟩ = false) → allowed name) :
    e.Tidy allowed where
  literals node hn := (fresh.leaves node hn).literal
  assigned _ hn name ha :=
    named name ((fresh.leaves _ (Expr.sessionVar_mem_of_assigned hn ha)).named name rfl)

theorem tidy_restored {allowed : String → Prop} (tidy : w.Tidy allowed) (hr : w.Restored w') :
    w'.Tidy allowed where
  globals name v hv := by
    rcases hr.rest.released name with same | none
    · exact tidy.globals name v (same ▸ hv)
    · exact nomatch none.symm.trans hv
  slots := by
    rw [hr.rest.stack]
    exact tidy.slots
  bodies arity name f hf := tidy.bodies arity name f (by rwa [hr.operators] at hf)

theorem tidy_installed (store : Store log w) (tidy : w.Tidy (Nameable log))
    (installed : w.Installed f w')
    (fresh : ∀ e ∈ f.body, Expr.FreshStatement (Reading.knownWithin w f) e) :
    w'.Tidy (Nameable (log ++ [f])) where
  globals name v hv := by
    -- The variable is not the one whose name has been claimed.
    have other : f.name ≠ name := by
      rintro rfl
      exact nomatch installed.claimed.symm.trans hv
    rcases installed.rest.released name with same | none
    · obtain ⟨nameable, canonical⟩ := tidy.globals name v (same ▸ hv)
      exact ⟨nameable.defined other, canonical⟩
    · exact nomatch none.symm.trans hv
  slots := by
    rw [installed.rest.stack]
    exact tidy.slots
  bodies arity name g hg e he := by
    rw [installed.operators] at hg
    split at hg
    next =>
      -- The body was read when the operator itself and those before it were known.
      obtain rfl := Option.some.inj hg
      refine tidy_of_fresh (fresh e he) fun name named => ?_
      rcases named with outer | unknown
      · exact .inl outer
      · refine .inr (.inr (.inl ?_))
        simp only [Reading.knownWithin, Bool.or_eq_false_iff] at unknown
        rw [List.forall_mem_append, List.forall_mem_singleton]
        refine ⟨store.unnamed fun arity => (unknown arity).2, ?_⟩
        rintro rfl
        simpa using (unknown f.arity).1
    next =>
      -- An older body keeps its assignments, and is itself the excuse for them.
      have before := tidy.bodies arity name g hg e he
      refine ⟨before.literals, fun node hn name ha => ?_⟩
      refine (before.assigned node hn name ha).of_assigned (store.listed hg).1 ?_ f
      exact List.mem_flatMap.2 ⟨node, Expr.nodes_subset_nodesOf he hn, ha⟩

/-- A line of statements assigns names only that no operator has. -/
theorem Store.statements_tidy [Machine] (store : Store log w) (ready : s.Ready) {es : List Expr}
    {s' : Source}
    (hr : Line.read s w = (.ok (.statements es), s', w')) :
    ∀ e ∈ es, e.Tidy (Nameable log) := by
  intro e he
  obtain ⟨-, fresh, -⟩ := Line.read_grows ready hr
  refine tidy_of_fresh (fresh _ rfl e he) fun name named => ?_
  rcases named with outer | unknown
  · exact .inl outer
  · exact .inr (.inr (.inl (store.unnamed unknown)))

/-- **One line** leaves a tidy workspace tidy, whether it succeeds or fails, and its values are
canonical. -/
theorem respond_tidy [Machine] (h : Settled settings w) (ready : s.Ready) (store : Store log w)
    (tidy : w.Tidy (Nameable log)) :
    (respond s w).2.2.Tidy (Nameable (log ++ Line.defined s w)) ∧
      ∀ vs, (respond s w).1 = .ok (.values vs) → ∀ v ∈ vs, v.Canonical := by
  refine respond_cases (P := fun answer _ w' => w'.Tidy (Nameable (log ++ Line.defined s w)) ∧
    ∀ vs, answer = .ok (.values vs) → ∀ v ∈ vs, v.Canonical) h.declared h.spares s ?_ ?_ ?_ ?_
  · intro failure s' w' hr
    rw [Line.defined_eq_nil hr nofun, List.append_nil]
    exact ⟨tidy_restored tidy (Line.read_error h.declared h.spares hr), nofun⟩
  · intro f s' w' hr
    obtain ⟨-, fresh, -⟩ := Line.read_grows ready hr
    rcases Line.read_ok h.declared h.spares hr with ⟨-, -, installed, -⟩
    rw [Line.defined_of_read hr]
    exact ⟨tidy_installed store tidy installed (fresh _ rfl), nofun⟩
  · intro es s' hr
    rw [Line.defined_eq_nil hr nofun, List.append_nil]
    have evaluated := evaluateLine_keeps (.fault .noSlot) (store.statements_tidy ready hr) w tidy
    refine evaluated.2.mono (fun vs w' ⟨after, canonical⟩ => ⟨?_, ?_⟩)
      fun _ w' after => ⟨after, nofun⟩
    · -- The last value of a line is bound to a name that no operator can take.
      unfold remember
      split
      next v last =>
        refine after.setGlobal (.inr (.inl ?_)) (canonical v (List.mem_of_getLast? last))
        decide
      next => exact after
    · rintro _ ⟨⟩
      exact canonical
  · intro line response s' hr other no_values
    rw [Line.defined_eq_nil hr fun f same => other f (Except.ok.inj same), List.append_nil]
    refine ⟨tidy, fun vs same => ?_⟩
    exact absurd (Except.ok.inj same) (no_values vs)

/-! ## § Sessions -/

theorem tidy_new [Machine] (settings : Settings) : (ofSettings settings).Tidy (Nameable []) where
  globals name v hv := by
    refine ⟨.inr (.inr (.inl (List.forall_mem_nil _))), ?_⟩
    have looked : ((Bindings.empty.insert "e" (.scalar (.float Elementary.euler))).insert "pi"
      (.scalar (.float Elementary.pi))).get? name = some v := hv
    rw [Bindings.get?_insert, Bindings.get?_insert] at looked
    split at looked
    · obtain rfl := Option.some.inj looked
      exact trivial
    split at looked
    · obtain rfl := Option.some.inj looked
      exact trivial
    · exact nomatch looked
  slots := List.forall_mem_nil _
  bodies arity name f hf := by cases arity <;> exact nomatch hf

/-- A session binds names only that its history allows, and all its values are canonical. -/
theorem History.tidy (hs : settings.check = .ok settings) (h : History settings log p) :
    p.workspace.Tidy (Nameable log) := by
  induction h with
  | new machine => exact @tidy_new machine settings
  | opened _ _ ih => exact ih
  | line h machine ih =>
    have order := h.reached.inOrder hs
    have ready := order.ready _ List.mem_cons_self
    exact (@respond_tidy _ _ _ _ machine order.settled ready (h.store hs) ih).1
  | followed _ _ ih => exact ih
  | closed _ ih => exact ih

/-- **A name is a variable or an operator**, with two exceptions: the unary `o`, and a name that was
assigned by an operator defined before every operator of that name. -/
theorem variable_or_operator (hs : settings.check = .ok settings) (h : History settings log p)
    {arity : Arity} (hf : p.workspace.userOperator? arity name = some f)
    (bound : (p.workspace.global? name).isSome) :
    name = "o" ∧ arity = .unary ∨ AssignedBefore log name := by
  obtain ⟨v, hv⟩ := Option.isSome_iff_exists.1 bound
  obtain ⟨listed, signature⟩ := (h.store hs).listed hf
  obtain ⟨rfl, rfl⟩ := UserOperator.signature_eq_iff.1 signature
  rcases ((h.tidy hs).globals f.name v hv).1 with outer | reserved | free | excused
  · refine .inl ⟨outer, ?_⟩
    have spares := (h.reached.inOrder hs).settled.spares
    cases ha : f.arity with
    | unary => rfl
    | binary =>
      rw [outer, ha] at hf
      exact nomatch spares.symm.trans hf
  · exact absurd reserved (h.unreserved hs f listed)
  · exact absurd rfl (free f listed)
  · exact .inr excused

/-- A session in which a body assigns a variable, an operator takes the name, and the body runs. -/
def shadowed : Nat → Source × Workspace
  | 0 => (Source.ofText "x = 5\nop f a = x = a\nx = 0\nop x y = y\nf 3\n".toList, ofSettings {})
  | n + 1 => (respond (shadowed n).1 (shadowed n).2).2

/-- The history of that session. -/
def shadowing : Nat → List UserOperator
  | 0 => []
  | n + 1 => shadowing n ++ Line.defined (shadowed n).1 (shadowed n).2

theorem history_shadowed (n : Nat) :
    History {} (shadowing n) ⟨[(shadowed n).1], (shadowed n).2⟩ := by
  induction n with
  | zero => exact .opened (.new _) _
  | succ n ih => exact .line ih _

theorem shadowed_both :
    ((shadowed 5).2.userOperator? .unary "x").isSome ∧
      ((shadowed 5).2.global? "x").isSome := by decide +kernel

theorem variable_or_operator_shadowed :
    ((shadowed 5).2.userOperator? .unary "x").isSome ∧
      ((shadowed 5).2.global? "x").isSome ∧ AssignedBefore (shadowing 5) "x" := by
  obtain ⟨stored, bound⟩ := shadowed_both
  refine ⟨stored, bound, ?_⟩
  obtain ⟨f, hf⟩ := Option.isSome_iff_exists.1 stored
  have excused (n : Nat) (hf : (shadowed n).2.userOperator? .unary "x" = some f)
      (bound : ((shadowed n).2.global? "x").isSome) :
      "x" = "o" ∧ Arity.unary = .unary ∨ AssignedBefore (shadowing n) "x" :=
    variable_or_operator rfl (history_shadowed n) hf bound
  exact (excused 5 hf bound).resolve_left fun outer => absurd outer.1 (by decide)

/-- A name can be both a variable and an operator. -/
theorem operator_with_variable :
    ¬∀ settings p, settings.check = .ok settings → Reached settings p →
      ∀ arity name f, p.workspace.userOperator? arity name = some f →
        p.workspace.global? name = none := by
  intro claim
  obtain ⟨stored, bound⟩ := shadowed_both
  obtain ⟨f, hf⟩ := Option.isSome_iff_exists.1 stored
  have none (n : Nat) (hf : (shadowed n).2.userOperator? .unary "x" = some f) :
      (shadowed n).2.global? "x" = none :=
    claim {} _ rfl (history_shadowed n).reached .unary "x" f hf
  rw [none 5 hf] at bound
  exact nomatch bound

end Session

end ArrayCalc
