import ArrayCalc.Proofs.FailedDefinitions
import Mathlib.Data.List.Dedup

/-!
# Histories

The history of a session is the list of the operators that its lines have defined, the latest last.
A line that fails adds nothing to it, be it a definition or not, and neither does the evaluation of
one.

Between two lines the operators of a workspace can be told from the history alone: of all
definitions of a name and an arity the last one counts, and the operators are listed in the order of
these.
-/

namespace ArrayCalc

namespace UserOperator

theorem signature_eq_iff {f : UserOperator} {name : String} {arity : Arity} :
    f.signature = ⟨name, arity⟩ ↔ name = f.name ∧ arity = f.arity := by
  rw [signature, Signature.mk.injEq]
  constructor
  · rintro ⟨rfl, rfl⟩
    exact ⟨rfl, rfl⟩
  · rintro ⟨rfl, rfl⟩
    exact ⟨rfl, rfl⟩

end UserOperator

/-- What comes last stays at its place, and its earlier occurrences go. -/
theorem dedup_concat {α : Type} [DecidableEq α] (as : List α) (a : α) :
    (as ++ [a]).dedup = as.dedup.filter (· != a) ++ [a] := by
  induction as with
  | nil => simp
  | cons b as ih =>
    -- `b` stays if nothing after it is the same, and then `a` may still be.
    rw [List.cons_append]
    by_cases listed : b ∈ as
    · rw [List.dedup_cons_of_mem listed, List.dedup_cons_of_mem (List.mem_append_left _ listed), ih]
    · rw [List.dedup_cons_of_notMem listed]
      by_cases same : b = a
      · subst same
        rw [List.dedup_cons_of_mem (by simp), ih]
        simp
      · rw [List.dedup_cons_of_notMem (by simp [listed, same]), ih]
        simp [same]

/-! ## § Bodies -/

theorem Outcome.trivial {ε σ α : Type} (x : EStateM ε σ α) (s : σ) :
    Outcome x s (fun _ _ => True) fun _ _ => True := by
  unfold Outcome
  cases x.run s <;> exact True.intro

namespace Reading

variable {r : Reader}

theorem afterStatement_ne_nil (others : Reading (List Expr)) (e : Expr) :
    Outcome (afterStatement others e) r (fun es _ => es ≠ []) fun _ _ => True := by
  refine .bind (.trivial _ _) fun kind r₁ _ => ?_
  split
  · exact .pure (List.cons_ne_nil _ _)
  · refine .bind (.trivial _ _) fun _ r₂ _ => .bind (.trivial _ _) fun kind r₃ _ => ?_
    split
    · exact .pure (List.cons_ne_nil _ _)
    · exact .bind (.trivial _ _) fun es r₄ _ => .pure (List.cons_ne_nil _ _)

variable [Machine]

theorem statementsUpTo_ne_nil (count : Nat) :
    Outcome (statementsUpTo (count + 1)) r (fun es _ => es ≠ []) fun _ _ => True := by
  rw [statementsUpTo_succ]
  refine .bind (.trivial _ _) fun kind r₁ _ => ?_
  split
  · exact afterStatement_ne_nil _ _
  · exact .bind (.trivial _ _) fun e r₂ _ => afterStatement_ne_nil _ e

theorem body_ne_nil : Outcome body r (fun es _ => es ≠ []) fun _ _ => True := by
  refine .bind (.trivial _ _) fun kind r₁ _ => ?_
  split
  · refine .bind (.trivial _ _) fun _ r₂ _ => .get (.bind (.trivial _ _) fun es r₃ _ => ?_)
    split
    · exact .get (.throw True.intro)
    next some_body =>
      refine .pure ?_
      rintro rfl
      exact some_body rfl
  · refine .bind (P := fun es _ => es ≠ []) (.get (statementsUpTo_ne_nil _)) fun es r₂ some_body => ?_
    exact .bind (.trivial _ _) fun _ r₃ _ => .pure some_body

/-- A definition has a body, which tells it from the placeholder that stands there before. -/
theorem definition_ne_nil :
    Outcome definition r (fun f _ => f.body ≠ []) fun _ _ => True := by
  refine .bind (.trivial _ _) fun h r₁ _ => .get (.bind (.trivial _ _) fun _ r₂ _ => .modify ?_)
  have finished (r : Reader) :
      Outcome (definitionBody h) r (fun f _ => f.body ≠ []) fun _ _ => True := by
    refine .bind (.trivial _ _) fun _ r₃ _ => .bind (.trivial _ _) fun _ r₄ _ => ?_
    refine .bind body_ne_nil fun es r₅ some_body => .get (.bind (.trivial _ _) fun _ r₆ _ => ?_)
    exact .pure some_body
  exact outcome_closing (finished _)

end Reading

namespace Line

variable [Machine] {s s' : Source} {w w' : Workspace} {f : UserOperator}

theorem read_ne_nil (h : read s w = (.ok (.definition f), s', w')) : f.body ≠ [] := by
  have outcome (r : Reader) : Outcome reading r
      (fun line _ => ∀ f, line = .definition f → f.body ≠ []) fun _ _ => True := by
    refine .bind (.trivial _ _) fun kind r₁ _ => ?_
    split
    · exact .bind (.trivial _ _) fun _ _ _ => .pure nofun
    · exact .bind (.trivial _ _) fun _ _ _ => .pure nofun
    · exact .bind (.trivial _ _) fun _ _ _ => .get (.set (.pure nofun))
    · refine .bind (.trivial _ _) fun _ r₂ _ => ?_
      refine .bind Reading.definition_ne_nil fun f r₃ some_body => .pure ?_
      rintro _ ⟨⟩
      exact some_body
    · refine .bind (.trivial _ _) fun _ r₂ _ => .bind (.trivial _ _) fun _ r₃ _ => ?_
      exact .pure nofun
  cases attempt h with
  | whole hr => exact (outcome _).of_ok hr f rfl

/-- The operator that a line defines, if it does. -/
def defined (s : Source) (w : Workspace) : List UserOperator :=
  match (read s w).1 with
  | .ok (.definition f) => [f]
  | _ => []

theorem mem_defined : f ∈ defined s w ↔ ∃ s' w', read s w = (.ok (.definition f), s', w') := by
  unfold defined
  constructor
  · intro h
    split at h
    next g hr =>
      obtain rfl := List.mem_singleton.1 h
      exact ⟨_, _, Prod.ext hr rfl⟩
    next => exact nomatch h
  · rintro ⟨s', w', hr⟩
    rw [hr]
    exact List.mem_singleton.2 rfl

theorem defined_of_read (h : read s w = (.ok (.definition f), s', w')) :
    defined s w = [f] := by
  unfold defined
  rw [h]

theorem defined_cases (s : Source) (w : Workspace) :
    defined s w = [] ∨ ∃ f, defined s w = [f] := by
  unfold defined
  split
  · exact .inr ⟨_, rfl⟩
  · exact .inl rfl

theorem defined_eq_nil {s' : Source} {w' : Workspace} {line : Result Line}
    (h : read s w = (line, s', w')) (other : ∀ f, line ≠ .ok (.definition f)) :
    defined s w = [] := by
  refine List.eq_nil_iff_forall_not_mem.2 fun f hf => ?_
  obtain ⟨_, _, hr⟩ := mem_defined.1 hf
  exact other f (congrArg Prod.fst (h.symm.trans hr))

end Line

/-! ## § Histories -/

namespace Session

open Workspace

variable {settings : Settings} {w w' : Workspace} {s : Source} {ss : List Source}
  {log : List UserOperator} {p : Situation}

/-- What the lines of a session have defined when it has come to a situation.  Every line has a
machine of its own. -/
inductive History (settings : Settings) : List UserOperator → Situation → Prop
  | new (machine : Machine) : History settings [] ⟨[], @ofSettings machine settings⟩
  | opened {log : List UserOperator} {ss : List Source} {w : Workspace}
      (h : History settings log ⟨ss, w⟩) (text : List Char) :
      History settings log ⟨Source.ofText text :: ss, w⟩
  | line {log : List UserOperator} {s : Source} {ss : List Source} {w : Workspace}
      (h : History settings log ⟨s :: ss, w⟩) (machine : Machine) :
      History settings (log ++ @Line.defined machine s w)
        ⟨(@respond machine s w).2.1 :: ss, (@respond machine s w).2.2⟩
  | followed {log : List UserOperator} {s : Source} {ss : List Source} {w : Workspace}
      (h : History settings log ⟨s :: ss, w⟩) (text : List Char) :
      History settings log ⟨s.goOn text :: ss, w⟩
  | closed {log : List UserOperator} {s : Source} {ss : List Source} {w : Workspace}
      (h : History settings log ⟨s :: ss, w⟩) : History settings log ⟨ss, w⟩

theorem History.reached (h : History settings log p) : Reached settings p := by
  induction h with
  | new machine => exact ⟨machine, .refl⟩
  | opened _ text ih => exact ih.trans (.single (.opened _ _ text))
  | line _ machine ih => exact ih.trans (.single (.line machine _ _ _))
  | followed _ text ih => exact ih.trans (.single (.followed _ _ _ text))
  | closed _ ih => exact ih.trans (.single (.closed _ _ _))

/-- Whatever a session does, it has a history. -/
theorem Reached.history (h : Reached settings p) : ∃ log, History settings log p := by
  obtain ⟨machine, leads⟩ := h
  induction leads with
  | refl => exact ⟨[], .new machine⟩
  | tail _ step ih =>
    obtain ⟨log, h⟩ := ih
    cases step with
    | opened _ _ text => exact ⟨log, h.opened text⟩
    | line machine => exact ⟨_, h.line machine⟩
    | followed _ _ _ text => exact ⟨log, h.followed text⟩
    | closed => exact ⟨log, h.closed⟩

/-! ## § The store -/

/-- The operators of a workspace between two lines, as the history has them. -/
structure Store (log : List UserOperator) (w : Workspace) : Prop where
  /-- Every name and arity is listed once, in the order of the last definitions. -/
  definitions : w.definitions = (log.map UserOperator.signature).dedup
  /-- The tables have what is listed for their arity, and no name twice. -/
  names : ∀ arity name, name ∈ (w.table arity).names ↔ ⟨name, arity⟩ ∈ w.definitions
  keyed : w.Keyed
  /-- Of all definitions of a name and an arity the last one is stored. -/
  latest : ∀ arity name,
    w.userOperator? arity name = log.reverse.find? (·.signature == ⟨name, arity⟩)
  /-- Nothing is stored that is still without a body. -/
  finished : ∀ arity name f, w.userOperator? arity name = some f → f.body ≠ []
  declared : w.declared = []

/-- What one line does to the operators: it defines what it defines, and nothing else is changed. -/
structure Amends (news : List UserOperator) (w w' : Workspace) : Prop where
  definitions : w'.definitions
    = w.definitions.filter (fun s => !(news.map UserOperator.signature).contains s)
      ++ news.map UserOperator.signature
  stored : ∀ f ∈ news, w'.userOperator? f.arity f.name = some f
  others : ∀ arity name, (∀ f ∈ news, f.signature ≠ ⟨name, arity⟩) →
    w'.userOperator? arity name = w.userOperator? arity name

theorem Amends.nothing (h : w'.definitions = w.definitions)
    (same : ∀ arity name, w'.userOperator? arity name = w.userOperator? arity name) :
    Amends [] w w' where
  definitions := by simp [h]
  stored _ hf := nomatch hf
  others arity name _ := same arity name

theorem Amends.one {f : UserOperator} (h : w.Installed f w') : Amends [f] w w' where
  definitions := by
    rw [h.definitions]
    simp only [List.map_cons, List.map_nil, UserOperator.signature]
    congr 2
    funext s
    by_cases same : s = ⟨f.name, f.arity⟩ <;> simp [same]
  stored g hg := by
    obtain rfl := List.mem_singleton.1 hg
    rw [h.operators, if_pos ⟨rfl, rfl⟩]
  others arity name other := by
    rw [h.operators, if_neg]
    exact fun same => other f (List.mem_singleton.2 rfl) (UserOperator.signature_eq_iff.2 same)

/-- **One line** changes the entries of what it defines and no other, whether it succeeds or fails. -/
theorem respond_amends [Machine] (h : Idle settings w) (s : Source) :
    Amends (Line.defined s w) w (respond s w).2.2 := by
  refine respond_cases (P := fun _ _ w' => Amends (Line.defined s w) w w') h.declared h.spares s
    ?_ ?_ ?_ ?_
  · intro failure s' w' hr
    have restored := Line.read_error h.declared h.spares hr
    rw [Line.defined_eq_nil hr nofun]
    exact .nothing restored.definitions restored.operators
  · intro f s' w' hr
    rcases Line.read_ok h.declared h.spares hr with ⟨-, -, installed, -⟩
    rw [Line.defined_of_read hr]
    exact .one installed
  · intro es s' hr
    rcases Line.read_ok h.declared h.spares hr with _ | closed
    rw [Line.defined_eq_nil hr nofun]
    have same {w' : Workspace} (hw : w.SameTables w') : Amends [] w w' :=
      .nothing hw.definitions hw.userOperator?
    refine (evaluateLine_frame h closed).mono (fun vs w' hw => ?_) fun _ _ hw => same hw.tables
    exact same (hw.trans (remember_frame w' vs)).toSameTables
  · intro line response s' hr other _
    rw [Line.defined_eq_nil hr fun f same => other f (Except.ok.inj same)]
    exact .nothing rfl fun _ _ => rfl

theorem store_new [Machine] (settings : Settings) : Store [] (ofSettings settings) where
  definitions := rfl
  names arity name := by cases arity <;> exact ⟨nofun, nofun⟩
  keyed := keyed_new settings
  latest arity name := by cases arity <;> rfl
  finished arity name f h := by cases arity <;> exact nomatch h
  declared := rfl

/-- What is stored after a line is either new or was stored before. -/
theorem Amends.userOperator?_cases {news : List UserOperator} (h : Amends news w w')
    (arity : Arity) (name : String) :
    (∃ f ∈ news, f.signature = ⟨name, arity⟩ ∧ w'.userOperator? arity name = some f) ∨
      (∀ f ∈ news, f.signature ≠ ⟨name, arity⟩) ∧
        w'.userOperator? arity name = w.userOperator? arity name := by
  by_cases new : ∃ f ∈ news, f.signature = ⟨name, arity⟩
  · obtain ⟨f, hf, same⟩ := new
    refine .inl ⟨f, hf, same, ?_⟩
    obtain ⟨rfl, rfl⟩ := UserOperator.signature_eq_iff.1 same
    exact h.stored f hf
  · have others : ∀ f ∈ news, f.signature ≠ ⟨name, arity⟩ := fun f hf same => new ⟨f, hf, same⟩
    exact .inr ⟨others, h.others arity name others⟩

/-- A definition goes to the end of the list, wherever its signature stood. -/
theorem Store.definitions_amended {f : UserOperator} (store : Store log w)
    (h : Amends [f] w w') :
    w'.definitions = ((log ++ [f]).map UserOperator.signature).dedup := by
  rw [h.definitions, store.definitions, List.map_append, List.map_singleton, dedup_concat]
  congr 2
  funext s
  by_cases same : s = f.signature <;> simp [same]

theorem Store.latest_amended {f : UserOperator} (store : Store log w) (h : Amends [f] w w')
    (arity : Arity) (name : String) :
    w'.userOperator? arity name
      = (log ++ [f]).reverse.find? (·.signature == ⟨name, arity⟩) := by
  rw [List.reverse_append, List.reverse_singleton, List.singleton_append]
  rcases h.userOperator?_cases arity name with ⟨g, hg, same, stored⟩ | ⟨others, kept⟩
  · obtain rfl := List.mem_singleton.1 hg
    rw [stored, List.find?_cons_of_pos (by simpa using same)]
  · rw [kept, store.latest, List.find?_cons_of_neg (by simpa using others)]

theorem Store.respond [Machine] (h : Idle settings w) (store : Store log w) (s : Source) :
    Store (log ++ Line.defined s w) (respond s w).2.2 := by
  have amends := respond_amends h s
  have idle := respond_idle h s
  refine ⟨?_, ?_, respond_keyed h store.keyed s, ?_, ?_, idle.declared⟩
  · rcases Line.defined_cases s w with none | ⟨f, one⟩
    · rw [none] at amends ⊢
      rw [amends.definitions, store.definitions]
      simp
    · rw [one] at amends ⊢
      exact store.definitions_amended amends
  · intro arity name
    rw [← Bindings.contains_iff_mem_names, idle.listed]
    rfl
  · intro arity name
    rcases Line.defined_cases s w with none | ⟨f, one⟩
    · rw [none] at amends ⊢
      rw [List.append_nil, ← store.latest, amends.others arity name nofun]
    · rw [one] at amends ⊢
      exact store.latest_amended amends arity name
  · intro arity name f hf
    rcases amends.userOperator?_cases arity name with ⟨g, new, -, stored⟩ | ⟨-, kept⟩
    · -- What has just been defined was read, and what is read has a body.
      obtain rfl := Option.some.inj (stored.symm.trans hf)
      obtain ⟨_, _, hr⟩ := Line.mem_defined.1 new
      exact Line.read_ne_nil hr
    · exact store.finished arity name f (kept ▸ hf)

theorem History.store (hs : settings.check = .ok settings) (h : History settings log p) :
    Store log p.workspace := by
  induction h with
  | new machine => exact @store_new machine settings
  | opened _ _ ih => exact ih
  | line h machine ih =>
    have idle := (h.reached.inOrder hs).settled.toIdle
    exact @Store.respond _ _ _ machine idle ih _
  | followed _ _ ih => exact ih
  | closed _ ih => exact ih

/-- **The operators follow from the history.**  Between two lines every name and arity is listed
once, in the order of the last definitions; the tables have what is listed and hold what was defined
last, never a placeholder; nothing is declared; and the next line, whatever comes of it, changes the
entry of what it defines and no other. -/
theorem store_follows_history [Machine] (hs : settings.check = .ok settings)
    (h : History settings log p) :
    Store log p.workspace ∧ p.workspace.definitions.Nodup ∧
      ∀ s ∈ p.sources,
        Amends (Line.defined s p.workspace) p.workspace (respond s p.workspace).2.2 := by
  have store := h.store hs
  refine ⟨store, ?_, fun s _ => ?_⟩
  · rw [store.definitions]
    exact List.nodup_dedup _
  · exact respond_amends (h.reached.inOrder hs).settled.toIdle s

/-- A session in which an operator is defined, another one, and the first one again in vain and then
with success. -/
def redefined : Nat → Source × Workspace
  | 0 => (Source.ofText "op f x = x\nop g x = f x\nop f x = 1 +\nop f x = 2 * x\n".toList,
      ofSettings {})
  | n + 1 => (respond (redefined n).1 (redefined n).2).2

/-- The history of that session. -/
def redefinitions : Nat → List UserOperator
  | 0 => []
  | n + 1 => redefinitions n ++ Line.defined (redefined n).1 (redefined n).2

theorem history_redefined (n : Nat) :
    History {} (redefinitions n) ⟨[(redefined n).1], (redefined n).2⟩ := by
  induction n with
  | zero => exact .opened (.new _) _
  | succ n ih => exact .line ih _

theorem store_follows_history_redefined :
    (redefinitions 4).map UserOperator.signature
        = [⟨"f", .unary⟩, ⟨"g", .unary⟩, ⟨"f", .unary⟩] ∧
      Store (redefinitions 4) (redefined 4).2 ∧
      (redefined 4).2.definitions = [⟨"g", .unary⟩, ⟨"f", .unary⟩] := by
  have signatures : (redefinitions 4).map UserOperator.signature
      = [⟨"f", .unary⟩, ⟨"g", .unary⟩, ⟨"f", .unary⟩] := by decide +kernel
  have store (n : Nat) : Store (redefinitions n) (redefined n).2 :=
    (store_follows_history rfl (history_redefined n)).1
  refine ⟨signatures, store 4, ?_⟩
  rw [(store 4).definitions, signatures]
  decide

end Session

end ArrayCalc
