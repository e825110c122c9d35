import Mathlib.Data.List.Basic
import ArrayCalc.Proofs.CopiedLines
import ArrayCalc.Proofs.PrintedLines
import ArrayCalc.Proofs.Reachable

/-!
# Saved operators

The text of all definitions is read back line by line in a new workspace.  What a line means depends
on what is known there: an operator that is saved before the operators that it applies is read
without them, and a variable that a body assigns becomes a slot unless it is bound.  Where neither
happens, and every operator is read back on its own, the new workspace has the same operators.
-/

namespace ArrayCalc

open Workspace

namespace UserOperator

/-- An operator finds what it needs behind those of `before`: the operators that it applies and the
variables that it assigns. -/
def Placed (before : List UserOperator) (f : UserOperator) : Prop :=
  (∀ need ∈ f.applied, need.isPrimitive = true ∨ need ∈ (before ++ [f]).map signature) ∧
    ∀ node ∈ f.nodes, ∀ name ∈ node.assigned, name ∈ ["e", "pi"]

instance (before : List UserOperator) (f : UserOperator) : Decidable (f.Placed before) :=
  inferInstanceAs (Decidable (_ ∧ _))

/-- Every operator of a list finds what it needs behind `before` and those before it in the list. -/
def InOrder (before : List UserOperator) : List UserOperator → Prop
  | [] => True
  | f :: after => f.Placed before ∧ InOrder (before ++ [f]) after

instance InOrder.decidable :
    (before after : List UserOperator) → Decidable (InOrder before after)
  | _, [] => isTrue trivial
  | before, f :: after =>
    have := InOrder.decidable (before ++ [f]) after
    inferInstanceAs (Decidable (f.Placed before ∧ InOrder (before ++ [f]) after))

/-- The line of a definition, as a source holds it. -/
def line (f : UserOperator) : List Char := f.definitionText.toList.filter (· != '\r')

end UserOperator

namespace Session

open UserOperator (signature Placed InOrder)

variable {settings : Settings} {w now : Workspace} {f : UserOperator}
  {before after : List UserOperator}

/-! ## § Listed operators -/

theorem Idle.stored_of_mem (h : Idle settings w) (hf : f ∈ w.definedOperators) :
    w.userOperator? f.arity f.name = some f := by
  obtain ⟨s, -, hs⟩ := List.mem_filterMap.1 hf
  obtain ⟨hname, harity⟩ := (h.operators _ _ f hs).1
  rw [hname, harity, hs]

/-- The operators are those of the list, each under its signature. -/
theorem Idle.signatures (h : Idle settings w) :
    w.definedOperators.map signature = w.definitions := by
  have all : ∀ s ∈ w.definitions, (w.userOperator? s.arity s.name).map signature = some s := by
    intro s hs
    obtain ⟨f, hf⟩ := Option.isSome_iff_exists.1 ((h.listed s).1 hs)
    obtain ⟨hname, harity⟩ := (h.operators _ _ f hf).1
    rw [hf, Option.map_some, signature, hname, harity]
  rw [definedOperators, List.map_filterMap]
  exact (List.filterMap_congr all).trans List.filterMap_some

/-! ## § The replay of a line -/

/-- What a new workspace has come to that has read the definitions of `before`. -/
structure Replayed (settings : Settings) (before : List UserOperator) (now : Workspace) : Prop where
  idle : Idle settings now
  unused : ∀ name ∉ ["e", "pi"], now.global? name = none
  definitions : now.definitions = before.map signature
  stored : ∀ f ∈ before, now.userOperator? f.arity f.name = some f

theorem replayed_new [Machine] (hs : settings.check = .ok settings) :
    Replayed settings [] (ofSettings settings) where
  idle := idle_new hs
  unused name hn := by
    simp only [List.mem_cons, List.not_mem_nil, or_false, not_or] at hn
    show ((Bindings.empty.insert "e" _).insert "pi" _).get? name = none
    rw [Bindings.get?_insert, if_neg hn.2, Bindings.get?_insert, if_neg hn.1]
    rfl
  definitions := rfl
  stored := nofun

theorem Replayed.of_stored (h : Replayed settings before now) {arity : Arity} {name : String}
    (hf : now.userOperator? arity name = some f) : f ∈ before := by
  have listed := (h.idle.listed ⟨name, arity⟩).2 (by rw [hf]; rfl)
  rw [h.definitions] at listed
  obtain ⟨g, hg, same⟩ := List.mem_map.1 listed
  obtain ⟨hname, harity⟩ := Signature.mk.inj same
  have found := h.stored g hg
  rw [hname, harity, hf] at found
  exact Option.some.inj found ▸ hg

theorem simple_of_isPrimitive {s : Signature} (h : s.isPrimitive = true) :
    OperatorWord.isProduct s.name = false ∧ OperatorWord.splitMark? s.name = none := by
  obtain ⟨name, arity⟩ := s
  have unary : ∀ op ∈ UnaryPrimitive.all,
      OperatorWord.isProduct op.name = false ∧ OperatorWord.splitMark? op.name = none := by
    decide
  have binary : ∀ op ∈ BinaryPrimitive.all,
      OperatorWord.isProduct op.name = false ∧ OperatorWord.splitMark? op.name = none := by
    decide
  cases arity with
  | unary =>
    unfold Signature.isPrimitive UnaryPrimitive.ofName? at h
    obtain ⟨op, hm, named⟩ := List.any_eq_true.1 (List.isSome_find?.symm.trans h)
    exact eq_of_beq named ▸ unary op hm
  | binary =>
    unfold Signature.isPrimitive BinaryPrimitive.ofName? at h
    obtain ⟨op, hm, named⟩ := List.any_eq_true.1 (List.isSome_find?.symm.trans h)
    exact eq_of_beq named ▸ binary op hm

/-- The operators that the replay knows so far are simple words, and the saved workspace knows them
as well. -/
theorem Replayed.poorer (h : Replayed settings before now) (hw : Idle settings w)
    (hb : ∀ f ∈ before, f ∈ w.definedOperators) : w.Poorer now where
  settings := h.idle.settings.trans hw.settings.symm
  knows s hs := by
    rw [knows_eq, Bool.or_eq_true] at hs ⊢
    refine hs.imp_right fun stored => ?_
    obtain ⟨f, hf⟩ := Option.isSome_iff_exists.1 stored
    obtain ⟨hname, harity⟩ := (h.idle.operators _ _ f hf).1
    rw [← hname, ← harity, hw.stored_of_mem (hb f (h.of_stored hf))]
    rfl
  unbound name hn := by
    refine h.unused name fun hm => ?_
    have bound := hw.numbers name hm
    rw [hn] at bound
    exact nomatch bound
  simple s hs := by
    rw [knows_eq, Bool.or_eq_true] at hs
    rcases hs with primitive | stored
    · exact simple_of_isPrimitive primitive
    · exact Lexeme.simple_of_isIdentifier (hw.names _ _ stored).1

theorem knowsName_of_isPrimitive {name : String} {arity : Arity}
    (h : Signature.isPrimitive ⟨name, arity⟩ = true) (w : Workspace) : w.knowsName name = true := by
  refine knowsName_of_knows (s := ⟨name, arity⟩) ?_
  rw [knows_eq, h, Bool.true_or]

/-- A new workspace knows the primitives only. -/
theorem exists_isPrimitive_of_new {name : String}
    (h : (newVocabulary settings).isOperator name = true) :
    ∃ arity, Signature.isPrimitive ⟨name, arity⟩ = true := by
  rw [Vocabulary.isOperator, Bool.or_eq_true] at h
  rcases h with unary | binary
  · exact ⟨.unary, unary⟩
  · exact ⟨.binary, binary⟩

/-- What is not known any more is no number. -/
theorem lostWords (hw : Idle settings w) (now : Workspace) : Reading.LostWords w now := by
  intro name ho known unknown
  have stranger (arity : Arity) (hp : Signature.isPrimitive ⟨name, arity⟩ = true) : False := by
    rw [knowsName_of_isPrimitive hp] at unknown
    exact nomatch unknown
  have stored : ∃ arity, (w.userOperator? arity name).isSome := by
    rw [knowsName, Bool.or_eq_true, knows_eq, knows_eq, Bool.or_eq_true, Bool.or_eq_true] at known
    rcases known with known | known
    · exact ⟨.unary, known.resolve_left (stranger .unary)⟩
    · exact ⟨.binary, known.resolve_left (stranger .binary)⟩
  obtain ⟨arity, stored⟩ := stored
  rcases (hw.names arity name stored).2.no_number with same | primitive | digits
  · exact absurd same ho
  · obtain ⟨other, hp⟩ := exists_isPrimitive_of_new primitive
    exact (stranger other hp).elim
  · rw [hw.settings]
    exact digits

/-- The lone line of a definition. -/
theorem startsLine_ofText (text : List Char) :
    (Source.ofText text).StartsLine (text.filter (· != '\r')) := ⟨rfl, rfl, rfl⟩

/-- What is read back on its own stands on one line. -/
theorem line_feed [Machine] (hw : Idle settings w)
    (alone : (Line.read (Source.ofText f.definitionText.toList) w).1 = .ok (.definition f)) :
    '\n' ∉ f.line := by
  rcases hr : Line.read (Source.ofText f.definitionText.toList) w with ⟨result, source, w'⟩
  rw [hr] at alone
  obtain rfl : result = .ok (.definition f) := alone
  rcases Line.read_ok hw.declared hw.spares hr with ⟨-, worded, -, -⟩
  have feed := UserOperator.definitionText_feed (Lexeme.plain_of_isIdentifier worded.name).no_feed
    (fun name hn => (Lexeme.plain_of_isIdentifier (worded.parameters name hn)).no_feed) worded.lines
  exact fun hm => feed (List.mem_filter.1 hm).1

/-- Where an operator has its place, its body has what it needs. -/
theorem Replayed.granted (h : Replayed settings before now) (placed : f.Placed before)
    {begun : Workspace} (hb : now.beginDefinition f.name f.left f.right = .ok begun) :
    ∀ node ∈ f.nodes, node.Granted begun := by
  intro node hm
  have knows := beginDefinition_knows hb
  constructor
  · intro need hneed
    rcases placed.1 need (List.mem_flatMap.2 ⟨node, hm, hneed⟩) with primitive | listed
    · rw [knows_eq, primitive, Bool.true_or]
    · obtain ⟨g, hg, rfl⟩ := List.mem_map.1 listed
      refine (knows _).2 ?_
      rcases List.mem_append.1 hg with hg | hg
      · refine .inr ?_
        rw [knows_eq]
        show (_ || (now.userOperator? g.arity g.name).isSome) = true
        rw [h.stored g hg]
        exact Bool.or_true _
      · obtain rfl := List.mem_singleton.1 hg
        exact .inl rfl
  · intro name hn
    have number := placed.2 node hm name hn
    have unchanged := (beginDefinition_ok hb).1.reserved name (by
      simp only [List.mem_cons, List.not_mem_nil, or_false] at number
      rcases number with rfl | rfl <;> decide)
    rw [unchanged]
    exact h.idle.numbers name number

/-- **The line of an operator defines it in the replay**, where it has its place. -/
theorem Replayed.next [Machine] (h : Replayed settings before now) (hw : Idle settings w)
    (hb : ∀ g ∈ before, g ∈ w.definedOperators) (new : f.signature ∉ before.map signature)
    (alone : (Line.read (Source.ofText f.definitionText.toList) w).1 = .ok (.definition f))
    (placed : f.Placed before) {s : Source} {tail : List Char}
    (hs : s.StartsLine (f.line ++ '\n' :: tail)) :
    ∃ s' now', Line.read s now = (.ok (.definition f), s', now') ∧ s'.StartsLine tail ∧
      Replayed settings (before ++ [f]) now' := by
  have unused (name : String) (hn : name ∉ reservedNames) : now.global? name = none := by
    refine h.unused name fun hm => hn ?_
    simp only [List.mem_cons, List.not_mem_nil, or_false] at hm
    rcases hm with rfl | rfl <;> decide
  obtain ⟨s', now', hr, starts⟩ := Line.read_copied (h.poorer hw hb) (lostWords hw now) unused
    hw.declared h.idle.declared (startsLine_ofText _) hs (line_feed hw alone) alone
    fun begun => h.granted placed
  refine ⟨s', now', hr, starts, ?_⟩
  rcases Line.read_ok h.idle.declared h.idle.spares hr with ⟨scope, worded, installed, spares⟩
  refine ⟨h.idle.installed scope worded installed spares, fun name hn =>
    installed.rest.unbound (h.unused name hn), ?_, fun g hg => ?_⟩
  · rw [installed.definitions, h.definitions, List.map_append, List.filter_eq_self.2]
    · rfl
    · intro s hm
      rw [bne_iff_ne]
      rintro rfl
      exact new hm
  · rw [installed.operators]
    rcases List.mem_append.1 hg with hg | hg
    · rw [if_neg, h.stored g hg]
      rintro ⟨hname, harity⟩
      exact new (List.mem_map.2 ⟨g, hg, by rw [signature, hname, harity]; rfl⟩)
    · obtain rfl := List.mem_singleton.1 hg
      exact if_pos ⟨rfl, rfl⟩

/-! ## § The replay of all lines -/

/-- The lines of some operators. -/
def linesOf (fs : List UserOperator) : List Char := fs.flatMap fun f => f.line ++ ['\n']

theorem length_le_linesOf (fs : List UserOperator) : fs.length ≤ (linesOf fs).length := by
  induction fs with
  | nil => exact Nat.zero_le _
  | cons f fs ih =>
    have grown : (linesOf (f :: fs)).length = f.line.length + 1 + (linesOf fs).length := by
      rw [linesOf, List.flatMap_cons, List.length_append, List.length_append]
      rfl
    rw [grown, List.length_cons]
    omega

theorem respond_of_definition [Machine] {s s' : Source} {now' : Workspace}
    (h : Line.read s now = (.ok (.definition f), s', now')) :
    respond s now = (.ok .nothing, s', now') := by
  unfold respond
  rw [h]

theorem respond_at_end [Machine] {s : Source} (hs : s.StartsLine []) (now : Workspace) :
    ∃ s', respond s now = (.ok .finished, s', now) := by
  obtain ⟨⟨rest, previous, feeds⟩, peeked, atLineEnd⟩ := s
  obtain ⟨rfl, rfl, rfl⟩ := hs
  exact ⟨_, rfl⟩

/-- Every workspace reads back what is saved of its operators, one by one. -/
def ReadsBack [Machine] (w : Workspace) : Prop :=
  ∀ f ∈ w.definedOperators,
    (Line.read (Source.ofText f.definitionText.toList) w).1 = .ok (.definition f)

instance [Machine] (w : Workspace) : Decidable (ReadsBack w) :=
  inferInstanceAs (Decidable (∀ f ∈ _, _ = _))

theorem evaluateLines_replay [Machine] (hw : Idle settings w) (alone : ReadsBack w) {count : Nat}
    {s : Source} (vs : List Value) (h : Replayed settings before now)
    (all : w.definedOperators = before ++ after) (ordered : InOrder before after)
    (hs : s.StartsLine (linesOf after)) (hc : after.length < count) :
    ∃ now', evaluateLines count s now vs = (.ok vs, now') ∧
      Replayed settings w.definedOperators now' := by
  induction after generalizing before now s count with
  | nil =>
    obtain ⟨count, rfl⟩ := Nat.exists_eq_succ_of_ne_zero (show count ≠ 0 by omega)
    obtain ⟨s', hr⟩ := respond_at_end hs now
    refine ⟨now, ?_, by rwa [all, List.append_nil]⟩
    rw [evaluateLines, hr]
  | cons f after ih =>
    obtain ⟨count, rfl⟩ := Nat.exists_eq_succ_of_ne_zero (show count ≠ 0 by omega)
    have new : f.signature ∉ before.map signature := by
      have nodup := hw.nodup
      rw [← hw.signatures, all, List.map_append, List.map_cons, List.nodup_append] at nodup
      exact fun hm => nodup.2.2 _ hm _ List.mem_cons_self rfl
    have hs : s.StartsLine (f.line ++ '\n' :: linesOf after) := by
      simpa [linesOf] using hs
    obtain ⟨s', now', hr, starts, replayed⟩ := h.next hw
      (fun g hg => by rw [all]; exact List.mem_append_left _ hg) new
      (alone f (by rw [all]; simp)) ordered.1 hs
    obtain ⟨last, run, done⟩ := ih replayed (by rw [all]; simp) ordered.2 starts
      (show after.length < count by rw [List.length_cons] at hc; omega)
    refine ⟨last, ?_, done⟩
    rw [evaluateLines, respond_of_definition hr]
    exact run

/-- The text of all definitions is their lines. -/
theorem definitionsText_lines (hne : w.definedOperators ≠ []) :
    (w.definitionsText ++ "\n").toList.filter (· != '\r') = linesOf w.definedOperators := by
  have ended (fs : List UserOperator) (hne : fs ≠ []) :
      ("\n".intercalate (fs.map UserOperator.definitionText) ++ "\n").toList
        = fs.flatMap fun f => f.definitionText.toList ++ ['\n'] := by
    rw [String.toList_append, String.toList_intercalate]
    induction fs with
    | nil => exact absurd rfl hne
    | cons f fs ih =>
      cases fs with
      | nil => simp
      | cons g gs =>
        have rest := ih (List.cons_ne_nil _ _)
        rw [List.map_cons, List.map_cons] at rest ⊢
        rw [List.map_cons, List.map_cons, List.intercalate_cons_cons, List.flatMap_cons, ← rest]
        simp
  rw [definitionsText, ended _ hne, List.filter_flatMap]
  simp [linesOf, UserOperator.line]

/-- What a workspace and the one that its saved operators are read in have in common. -/
structure Reloads [Machine] (w : Workspace) : Prop where
  succeeds : ∃ vs, (reload w).1 = .ok vs
  operators : ∀ arity name, (reload w).2.userOperator? arity name = w.userOperator? arity name
  text : (reload w).2.definitionsText = w.definitionsText

theorem Replayed.reloads (hw : Idle settings w)
    (h : Replayed settings w.definedOperators now) :
    (∀ arity name, now.userOperator? arity name = w.userOperator? arity name) ∧
      now.definitionsText = w.definitionsText := by
  have definitions : now.definitions = w.definitions := by rw [h.definitions, hw.signatures]
  have operators (arity : Arity) (name : String) :
      now.userOperator? arity name = w.userOperator? arity name := by
    cases hf : now.userOperator? arity name with
    | some f =>
      obtain ⟨⟨rfl, rfl⟩, -⟩ := h.idle.operators _ _ f hf
      exact (hw.stored_of_mem (h.of_stored hf)).symm
    | none =>
      cases hg : w.userOperator? arity name with
      | none => rfl
      | some g =>
        have listed := (hw.listed ⟨name, arity⟩).2 (by rw [hg]; rfl)
        rw [← definitions, h.idle.listed, hf] at listed
        exact nomatch listed
  refine ⟨operators, ?_⟩
  unfold definitionsText definedOperators
  simp only [definitions, operators]

/-- **Saved operators are read back in a new workspace**, if each of them is read back on its own
and finds what it needs at its place. -/
theorem reload_preserves [Machine] (hs : settings.check = .ok settings) (h : Reachable settings w)
    (alone : ReadsBack w) (ordered : InOrder [] w.definedOperators) : Reloads w := by
  have idle := h.idle hs
  obtain ⟨now, run, replayed⟩ : ∃ now, reload w = (.ok [], now) ∧
      Replayed settings w.definedOperators now := by
    unfold reload
    rw [idle.settings]
    by_cases hne : w.definedOperators = []
    · have text : w.definitionsText = "" := by rw [definitionsText, hne]; rfl
      refine ⟨ofSettings settings, ?_, hne ▸ replayed_new hs⟩
      rw [text]
      rfl
    · have starts : (Source.ofText (w.definitionsText ++ "\n").toList).StartsLine
          (linesOf w.definedOperators) := definitionsText_lines hne ▸ startsLine_ofText _
      refine evaluateLines_replay idle alone [] (replayed_new hs) rfl ordered starts ?_
      have enough := length_le_linesOf w.definedOperators
      rw [← starts.rest] at enough
      show w.definedOperators.length < Source.remaining _
      unfold Source.remaining
      omega
  obtain ⟨operators, text⟩ := replayed.reloads idle
  exact ⟨⟨[], by rw [run]⟩, by rw [run]; exact operators, by rw [run]; exact text⟩

/-- Three operators of which the later ones apply the earlier ones and themselves. -/
def threeOperators : Workspace :=
  (respond (Source.ofText "op a h b = a +.h pi = g b\n".toList)
    (respond (Source.ofText "op g x = t = f x; g t\n".toList)
      (respond (Source.ofText "op f x = x\n".toList) (ofSettings {})).2.2).2.2).2.2

theorem reachable_threeOperators : Reachable {} threeOperators := by
  unfold threeOperators
  exact Reachable.line (Reachable.line (Reachable.line (.new _) _ _) _ _) _ _

theorem reload_preserves_threeOperators :
    Reloads threeOperators ∧
      threeOperators.definitions = [⟨"f", .unary⟩, ⟨"g", .unary⟩, ⟨"h", .binary⟩] :=
  ⟨reload_preserves rfl reachable_threeOperators (by decide +kernel) (by decide +kernel),
    by decide +kernel⟩

/-- A caller, and then its callee once more. -/
def calleeAgain : Workspace :=
  (respond (Source.ofText "op g x = x\n".toList)
    (respond (Source.ofText "op f x = g x\n".toList)
      (respond (Source.ofText "op g x = x\n".toList) (ofSettings {})).2.2).2.2).2.2

theorem reachable_calleeAgain : Reachable {} calleeAgain := by
  unfold calleeAgain
  exact Reachable.line (Reachable.line (Reachable.line (.new _) _ _) _ _) _ _

/-- The caller is saved before its callee, so the two names of its body are read as one vector. -/
theorem caller_not_reloaded :
    ¬∀ settings w, settings.check = .ok settings → Reachable settings w → ReadsBack w →
      Reloads w := by
  intro claim
  have alone : ReadsBack calleeAgain := by decide +kernel
  have same := (claim {} calleeAgain rfl reachable_calleeAgain alone).operators .unary "f"
  have other : (reload calleeAgain).2.userOperator? .unary "f"
      ≠ calleeAgain.userOperator? .unary "f" := by
    decide +kernel
  exact other same

end Session

end ArrayCalc
