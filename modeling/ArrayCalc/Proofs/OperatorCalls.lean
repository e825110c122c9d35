import ArrayCalc.Proofs.PrintedStatements

/-!
# Operators that can be called

What a definition takes for the name of an operator, and what a line takes for an operator, is decided
in different places.  A definition looks at the words of its head and refuses some of them; in a line
a word is the keyword, an operator, a number if it consists of digits of the base, or a name, and what
comes first in this order counts.  Both agree: whatever has been stored as an operator is one in every
line, in any base.

The word `o` is the exception.  As a part of products it is an operator before a point only, and the
name of a variable anywhere else, even after an operator `o` has been defined.
-/

namespace ArrayCalc

open Radix (Agrees)

variable {settings : Settings} {w : Workspace} {name : String} {e f : Expr}

/-- A text is read as a line with a single statement, and reading it changes nothing. -/
def Line.StandsFor [Machine] (w : Workspace) (text : String) (e : Expr) : Prop :=
  ∃ s, read (.ofText text.toList) w = (.ok (.statements [e]), s, w)

namespace Session

open Line (StandsFor)
open Workspace

/-! ## § Calls that are read -/

theorem Idle.knows (h : Idle settings w) {arity : Arity}
    (stored : (w.userOperator? arity name).isSome) :
    name ∉ w.declared ∧ w.Knows ⟨name, arity⟩ = true := by
  rw [h.declared, knows_eq, Bool.or_eq_true]
  exact ⟨List.not_mem_nil, .inr stored⟩

/-- The name of a stored operator is an operator wherever it is written. -/
theorem Idle.spelled (h : Idle settings w) {arity : Arity}
    (stored : (w.userOperator? arity name).isSome) (no_outer : name ≠ "o") :
    Spelled w.vocabulary .operator name.toList := by
  obtain ⟨identifier, named⟩ := h.names arity name stored
  obtain ⟨undeclared, known⟩ := h.knows stored
  have operator := isOperator_vocabulary.2 ⟨undeclared, knowsName_of_knows known⟩
  exact spelled_operator identifier named.no_keyword no_outer operator

theorem Idle.readable_unary (h : Idle settings w)
    (stored : (w.userOperator? .unary name).isSome) (no_outer : name ≠ "o")
    (right : Readable w e) : Readable w (.unary name e) := by
  have call := right.unary (t := ⟨.operator, name, 1⟩)
  exact call (.inr (definedUnary_iff.2 (h.knows stored))) (h.spelled stored no_outer)

/-- There is no binary `o` to be called. -/
theorem Idle.readable_binary (h : Idle settings w)
    (stored : (w.userOperator? .binary name).isSome) (left : Readable w e)
    (right : Readable w f) : Readable w (.binary name e f) := by
  have no_outer : name ≠ "o" := by
    rintro rfl
    rw [h.spares] at stored
    exact nomatch stored
  have call := left.binary right (t := ⟨.operator, name, 1⟩)
  exact call (.inr (definedBinary_iff.2 (h.knows stored))) (h.spelled stored no_outer)

theorem Idle.no_point (h : Idle settings w) {arity : Arity}
    (stored : (w.userOperator? arity name).isSome) : '.' ∉ name.toList := by
  obtain ⟨identifier, -⟩ := h.names arity name stored
  intro point
  have word := Lexeme.isWordChar_of_isIdentifier (by rwa [String.ofList_toList]) point
  exact absurd word (by decide)

/-- The number one has the same digit in every base. -/
theorem Idle.readable_one (h : Idle settings w) (hs : settings.check = .ok settings) :
    Readable w (.constant (.int 1)) := by
  refine .int ?_
  rw [h.settings]
  show Agrees settings.inputBase 1
  rcases inputBase_cases hs with base | ⟨least, most⟩
  · exact .inl base
  · exact .inr (.inr ⟨least, most, by decide, by omega⟩)

/-- A line with one operator and its operands. -/
theorem Idle.standsFor [Machine] (h : Idle settings w) (readable : Readable w e)
    (shallow : e.levels ≤ Machine.nesting) (no_point : '.' ∉ e.text.toList) :
    StandsFor w (e.text ++ "\n") e :=
  Line.read_readable h.declared h.spares readable shallow (not_signedPoint_of_notMem no_point)

/-! ## § Sessions -/

variable {p : Situation}

/-- **Every operator that has been defined can be called,** in every session and in any base: with
the number one for its operands, a line is read as the call and as nothing else, as long as the
machine has the three levels that a call takes.  Only `o` is not called like that: with or without an
operator of that name, the word is a variable. -/
theorem defined_callable [Machine] (room : 3 ≤ Machine.nesting)
    (hs : settings.check = .ok settings) (h : Reached settings p) (name : String) :
    ((p.workspace.userOperator? .unary name).isSome → name ≠ "o" →
      StandsFor p.workspace (name ++ " 1\n") (.unary name (.constant (.int 1)))) ∧
    ((p.workspace.userOperator? .binary name).isSome →
      StandsFor p.workspace ("1 " ++ name ++ " 1\n")
        (.binary name (.constant (.int 1)) (.constant (.int 1)))) ∧
    StandsFor p.workspace "o 1\n" (.strand [.sessionVar "o", .constant (.int 1)]) := by
  have idle := (h.inOrder hs).settled.toIdle
  have one := idle.readable_one hs
  have digit : (Expr.constant (.int 1)).text = "1" := by decide +kernel
  refine ⟨?_, ?_, ?_⟩
  · intro stored no_outer
    have text : (Expr.unary name (.constant (.int 1))).text = name ++ " 1" := by
      rw [Expr.text, digit, String.append_assoc]
      rfl
    have call := idle.standsFor (idle.readable_unary stored no_outer one) room
      (by simp [text, idle.no_point stored])
    rwa [text, String.append_assoc] at call
  · intro stored
    have text : (Expr.binary name (.constant (.int 1)) (.constant (.int 1))).text
        = "1 " ++ name ++ " 1" := by
      have left : (Expr.constant (.int 1)).enclose "1" ++ " " = "1 " := rfl
      rw [Expr.text, digit, left, String.append_assoc]
      rfl
    have call := idle.standsFor (idle.readable_binary stored one one) (Nat.le_of_succ_le room)
      (by simp [text, idle.no_point stored])
    rwa [text, String.append_assoc] at call
  · have outer : Readable p.workspace (.sessionVar "o") :=
      .sessionVar idle.declared (spelled_outer _)
    have pair : Readable p.workspace (.strand [.sessionVar "o", .constant (.int 1)]) :=
      .strand (by decide) (by simp [outer, one]) (by simp [Expr.isIndex])
    have text : (Expr.strand [.sessionVar "o", .constant (.int 1)]).text ++ "\n" = "o 1\n" := by
      decide +kernel
    exact text ▸ idle.standsFor pair (Nat.le_trans (by decide) room) (by decide +kernel)

/-- In base thirty-six the letters of `log` are digits, and both operators with that name are
defined once more. -/
def logRedefined : Nat → Source × Workspace
  | 0 => (Source.ofText "op log _x = _x\nop _x log _y = _y\n".toList, ofSettings { inputBase := 36 })
  | n + 1 => (respond (logRedefined n).1 (logRedefined n).2).2

theorem reached_logRedefined (n : Nat) :
    Reached { inputBase := 36 } ⟨[(logRedefined n).1], (logRedefined n).2⟩ := by
  induction n with
  | zero => exact ⟨_, .single (.opened [] (ofSettings { inputBase := 36 }) _)⟩
  | succ n ih => exact ih.trans (.single (.line _ _ [] _))

theorem defined_callable_log :
    StandsFor (logRedefined 2).2 ("log" ++ " 1\n") (.unary "log" (.constant (.int 1))) ∧
      StandsFor (logRedefined 2).2 ("1 " ++ "log" ++ " 1\n")
        (.binary "log" (.constant (.int 1)) (.constant (.int 1))) := by
  have stored : ((logRedefined 2).2.userOperator? .unary "log").isSome ∧
      ((logRedefined 2).2.userOperator? .binary "log").isSome := by decide +kernel
  -- With a number of lines in place of two nothing is evaluated to compare the workspaces.
  have calls (n : Nat) :
      (((logRedefined n).2.userOperator? .unary "log").isSome →
        StandsFor (logRedefined n).2 ("log" ++ " 1\n") (.unary "log" (.constant (.int 1)))) ∧
      (((logRedefined n).2.userOperator? .binary "log").isSome →
        StandsFor (logRedefined n).2 ("1 " ++ "log" ++ " 1\n")
          (.binary "log" (.constant (.int 1)) (.constant (.int 1)))) := by
    obtain ⟨unary, binary, -⟩ :=
      defined_callable (by decide) (by decide) (reached_logRedefined n) "log"
    exact ⟨fun stored => unary stored (by decide), binary⟩
  exact ⟨(calls 2).1 stored.1, (calls 2).2 stored.2⟩

def outerText : Source := Source.ofText "op o x = x\n".toList

/-- The workspace in which an operator `o` is defined. -/
def outerDefined : Workspace := (respond outerText (ofSettings {})).2.2

theorem reached_outerDefined :
    Reached {} ⟨[(respond outerText (ofSettings {})).2.1], outerDefined⟩ :=
  ⟨_, (Relation.ReflTransGen.single (.opened [] (ofSettings {}) _)).tail (.line _ outerText [] _)⟩

/-- The operator `o` that has been defined is not called by its name. -/
theorem outer_not_called :
    ¬∀ settings p, settings.check = .ok settings → Reached settings p → ∀ name,
      ((p.workspace.userOperator? .unary name).isSome →
        StandsFor p.workspace (name ++ " 1\n") (.unary name (.constant (.int 1)))) ∧
      ((p.workspace.userOperator? .binary name).isSome →
        StandsFor p.workspace ("1 " ++ name ++ " 1\n")
          (.binary name (.constant (.int 1)) (.constant (.int 1)))) := by
  intro claim
  have stored : (outerDefined.userOperator? .unary "o").isSome := by decide +kernel
  have strand : (Line.read (.ofText ("o" ++ " 1\n").toList) outerDefined).1
      = .ok (.statements [.strand [.sessionVar "o", .constant (.int 1)]]) :=
    Line.read_of_toOption (by decide +kernel)
  have called {s : Source} {w : Workspace} (reached : Reached {} ⟨[s], w⟩)
      (stored : (w.userOperator? .unary "o").isSome) :
      (Line.read (.ofText ("o" ++ " 1\n").toList) w).1
        = .ok (.statements [.unary "o" (.constant (.int 1))]) := by
    obtain ⟨s, call⟩ := (claim {} _ rfl reached "o").1 stored
    exact congrArg Prod.fst call
  have line := (called reached_outerDefined stored).symm.trans strand
  have same := Line.statements.inj (Except.ok.inj line)
  exact nomatch (List.cons.inj same).1

end Session

end ArrayCalc
