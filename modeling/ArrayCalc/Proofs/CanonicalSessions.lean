import ArrayCalc.Proofs.Runs
import ArrayCalc.Proofs.VariableNames

/-!
# Canonical sessions

No session comes upon a value that is not canonical: not between two lines, not in the midst of one,
and not among the values of a line or of a text.  So the equality of integers and fractions tells
whether they are the same value.
-/

namespace ArrayCalc.Session

open Evaluation Workspace

variable {settings : Settings} {p : Situation}

/-- The values of a line are canonical. -/
theorem Reached.values_canonical [Machine] (hs : settings.check = .ok settings)
    (h : Reached settings p) {s : Source} (hm : s ∈ p.sources) {vs : List Value}
    (hv : (respond s p.workspace).1 = .ok (.values vs)) : ∀ v ∈ vs, v.Canonical := by
  obtain ⟨log, history⟩ := h.history
  have order := h.inOrder hs
  have line := respond_tidy order.settled (order.ready s hm) (history.store hs) (history.tidy hs)
  exact line.2 vs hv

/-- **Every value is canonical.**  The values of variables, those in the slots of active calls and the
literals of stored bodies are, between two lines and, as the watch has nothing to stop, at every
moment of an evaluation; and so are the values of lines and of texts.  Integers and fractions among
them are equal as numbers only if they are the same value. -/
theorem values_stay_canonical [Machine] (hs : settings.check = .ok settings)
    (h : Reached settings p) :
    p.workspace.Canonical ∧
    (∀ s ∈ p.sources,
      (∀ vs, (respond s p.workspace).1 = .ok (.values vs) → ∀ v ∈ vs, v.Canonical) ∧
      ∀ es s' w', Line.read s p.workspace = (.ok (.statements es), s', w') →
        ∀ alarm, (evaluateLine es).run w' = (evaluateLineWatched alarm es).run w') ∧
    (∀ text vs, (evaluate text p.workspace).1 = .ok vs → ∀ v ∈ vs, v.Canonical) ∧
    ∀ a b : Scalar, a.isExact = true → b.isExact = true → a.Canonical → b.Canonical →
      BinaryPrimitive.equal.apply (.scalar a) (.scalar b)
        = .ok (.scalar (.int (if a = b then 1 else 0))) := by
  obtain ⟨log, history⟩ := h.history
  have order := h.inOrder hs
  have tidy := history.tidy hs
  refine ⟨tidy.canonical, fun s hm => ⟨fun vs => h.values_canonical hs hm, ?_⟩, ?_, ?_⟩
  · intro es s' w' hr alarm
    have same : w' = p.workspace := by
      rcases Line.read_ok order.settled.declared order.settled.spares hr with _ | closed
      rfl
    have trees : ∀ e ∈ es, e.Tidy (Nameable log) :=
      (history.store hs).statements_tidy (order.ready s hm) hr
    rw [same]
    exact (evaluateLine_keeps alarm trees p.workspace tidy).1
  · intro text vs hv
    -- They are the values of a line on the way, if there has been one.
    rcases (evaluate_leads text p.sources p.workspace).2.1 vs hv with rfl | ⟨s, w', leads, answer⟩
    · exact List.forall_mem_nil _
    · exact (h.trans leads).values_canonical hs List.mem_cons_self answer
  · intro a b exact_a exact_b ha hb
    exact equal_apply_exact exact_a exact_b ha hb

/-- Two fractions whose sum is an integer. -/
def thirds : Source := Source.ofText "x = 1/3 2/3\n+/ x\n".toList

/-- Whether the answer to a line is these values. -/
def isValues (vs : List Value) : Result Response → Bool
  | .ok (.values answer) => decide (answer = vs)
  | _ => false

theorem eq_of_isValues {vs : List Value} {answer : Result Response}
    (h : isValues vs answer = true) : answer = .ok (.values vs) := by
  unfold isValues at h
  split at h
  · rw [of_decide_eq_true h]
  · cases h

theorem reached_thirds :
    Reached {} ⟨[(respond thirds (ofSettings {})).2.1],
      (respond thirds (ofSettings {})).2.2⟩ :=
  ⟨_, (Relation.ReflTransGen.single (.opened [] (ofSettings {}) _)).tail (.line _ thirds [] _)⟩

theorem values_stay_canonical_thirds :
    (respond thirds (ofSettings {})).2.2.Canonical ∧
      ∃ vs, (respond (respond thirds (ofSettings {})).2.1 (respond thirds (ofSettings {})).2.2).1
          = .ok (.values vs) ∧ vs = [.scalar (.int 1)] ∧ ∀ v ∈ vs, v.Canonical := by
  have sum : isValues [.scalar (.int 1)] (respond (respond thirds (ofSettings {})).2.1
      (respond thirds (ofSettings {})).2.2).1 = true := by decide +kernel
  obtain ⟨canonical, lines, -, -⟩ := values_stay_canonical rfl reached_thirds
  -- From here on nothing has to be computed.
  dsimp only at canonical lines
  generalize (respond thirds (ofSettings {})).2 = r at *
  refine ⟨canonical, ?_⟩
  have values := (lines _ (List.mem_singleton.2 rfl)).1
  have answer := eq_of_isValues sum
  exact ⟨_, answer, rfl, values _ answer⟩

end ArrayCalc.Session
