import ArrayCalc.Proofs.PassageLines
import ArrayCalc.Proofs.Runs

/-!
# Runs in parts

To run a text whose first part ends with a blank line and has no raw quotes is to run the first part
and then the second one, as long as the first part has been heard to its end.  The lines of the
second part are only reported with other numbers.
-/

namespace ArrayCalc

/-- What stands around a text that is the whole one. -/
abbrev Surroundings.nothing : Surroundings := ⟨0, []⟩

theorem Token.later_zero (t : Token) : t.later 0 = t := by
  unfold later
  by_cases h : t.line = 0
  · rw [if_pos h, ← h]
  · rw [if_neg h]
    rfl

theorem LexError.later_zero (e : LexError) : e.later 0 = e := by
  unfold later
  rw [laterLine_zero]

theorem ParseError.later_zero (e : ParseError) : e.later 0 = e := by
  unfold later
  rw [laterLine_zero]

theorem Error.later_zero (e : Error) : e.later 0 = e := by
  cases e with
  | lex e => exact congrArg Error.lex e.later_zero
  | parse e => exact congrArg Error.parse e.later_zero
  | _ => rfl

theorem Failure.later_zero (failure : Failure) : failure.later 0 = failure := by
  cases failure with
  | error e => exact congrArg Failure.error e.later_zero
  | fault f => rfl

namespace Source

variable {s t : Source} {behind : List Char}

theorem StartsLine.unread (h : t.StartsLine behind) : t.unread = behind.length := by
  unfold Source.unread
  rw [h.rest, h.peeked]
  rfl

/-- Behind a passage the whole text goes on at the start of a line. -/
theorem Spent.amid (h : s.Spent) (ht : t.StartsLine behind) (feeds : t.scanner.feeds = 0) :
    s.amid ⟨0, behind⟩ =
      { t.amid ⟨s.scanner.total, []⟩ with atLineEnd := s.atLineEnd } := by
  obtain ⟨⟨text, previous, fed⟩, peeked, ended⟩ := s
  obtain ⟨⟨text', previous', fed'⟩, peeked', ended'⟩ := t
  obtain ⟨rfl, rfl, rfl⟩ := h
  obtain ⟨rfl, rfl, rfl⟩ := ht
  obtain rfl : fed' = 0 := feeds
  show (⟨⟨text', none, fed⟩, none, ended⟩ : Source) =
    ⟨⟨text' ++ [], none, 0 + (fed + 0)⟩, none, ended⟩
  rw [List.append_nil, Nat.zero_add, Nat.add_zero]

theorem amid_nothing (s : Source) : s.amid .nothing = s := by
  obtain ⟨⟨rest, previous, feeds⟩, peeked, ended⟩ := s
  unfold amid Scanner.amid
  dsimp only
  rw [List.append_nil, Nat.add_zero, funext Token.later_zero]
  cases peeked <;> rfl

theorem GoesOn.amid_of_nil {p : Surroundings} {s'' : Source} (h : s.GoesOn p t s'')
    (nothing : p.behind = []) : s'' = t.amid p := by
  cases h with
  | heard => rfl
  | deaf =>
    obtain ⟨feeds, behind⟩ := p
    obtain rfl : behind = [] := nothing
    rfl

end Source

namespace Session

/-! ## § Ways to run -/

variable {m : Type → Type} [Monad m] [Host m] {α β : Type}

/-- What a run does with the answer to a line, before it stops or goes on. -/
def digest (runFile : RunningFile m) (mode : Mode) (w : Workspace) (input : Input) (ok : Bool)
    (response : Result Response) (stop next : Input → Bool → Running m α) : Running m α := do
  match response with
  | .ok .finished => stop input ok
  | .ok .nothing => next input ok
  | .ok (.command words) =>
    let success ← match ← command runFile words with
      | .ok result => pure result
      | .error e => do
        reportError mode.name (.command e)
        pure false
    next (← liftM (Input.afterCommand (m := m) input)) (ok && success)
  | .ok (.values vs) =>
    if vs.isEmpty then next input ok
    else match Value.formatAll w.settings vs with
      | .ok text =>
        print (text ++ "\n")
        next input ok
      | .error (.error e) =>
        reportError mode.name e
        next input false
      | .error (.fault f) => throw f
  | .error (.error e) =>
    reportError mode.name e
    next input false
  | .error (.fault f) => throw f

/-- Runs at most `count` lines, with a way to answer them and a way to stop. -/
def runLinesBy (answer : Source → Workspace → Result Response × Source × Workspace)
    (runFile : RunningFile m) (mode : Mode) (stop : Input → Bool → Running m α) :
    Nat → Input → Bool → Running m α
  | 0, input, ok => stop input ok
  | count + 1, input, ok => do
    prompt mode
    let (response, source, w) := answer input.source (← get)
    set w
    digest runFile mode w { input with source := source } ok response stop
      (runLinesBy answer runFile mode stop count)

/-- The way to stop that only says whether every line has succeeded. -/
def finish (_ : Input) (ok : Bool) : Running m Bool := return ok

theorem runLines_eq [Machine] (runFile : RunningFile m) (mode : Mode) :
    runLines runFile mode = runLinesBy respond runFile mode finish := by
  funext count
  induction count with
  | zero => rfl
  | succ count ih =>
    funext input ok
    unfold runLines runLinesBy digest
    rewrite [ih]
    rfl

/-- Runs a file that a text loads. -/
def runLoaded [Machine] : RunningFile m := fun name bytes =>
  match loadingDepth with
  | 0 => throw .nestedFiles
  | inner + 1 => runWithin (Machine.within inferInstance) inner ⟨name, false⟩ (.ofFile name bytes)

theorem lines_ofText (text : String) :
    (Input.ofText text).lines = (Source.ofText text.toList).remaining := rfl

theorem runText_eq [Machine] (mode : Mode) (text : String) :
    runText (m := m) mode text = runLinesBy respond runLoaded mode finish (Input.ofText text).lines
      (Input.ofText text) true := by
  rw [← runLines_eq]
  unfold runText run runLoaded
  cases loadingDepth <;> rfl

/-- The way to stop that says, too, whether so many line feeds have been heard. -/
def hearing (feeds : Nat) (input : Input) (ok : Bool) : Running m (Bool × Bool) :=
  return (ok, input.source.scanner.feeds == feeds)

omit [Host m] in
theorem hearing_spent {s : Source} (h : s.Spent) (feeds : Nat) (ended ok : Bool) :
    hearing (m := m) feeds ⟨{ s with atLineEnd := ended }, none⟩ ok =
      Pure.pure (ok, s.scanner.total == feeds) := by
  have all : s.scanner.total = s.scanner.feeds := by
    unfold Scanner.total
    rw [h.rest]
    rfl
  rw [all]
  rfl

/-- The prompt is for people. -/
theorem prompt_quiet [LawfulMonad m] (name : String) :
    prompt (m := m) ⟨name, false⟩ = Pure.pure ⟨⟩ := by
  unfold prompt
  apply StateT.ext
  intro w
  simp

variable [LawfulMonad m] {runFile : RunningFile m} {name : String}

omit [Host m] in
/-- Nothing comes behind a fault. -/
theorem throw_running {α β : Type} (fault : Fault) (k : α → Running m β) :
    (throw fault : Running m α) >>= k = throw fault := by
  apply StateT.ext
  intro w
  apply ExceptT.ext
  show ((Pure.pure (Except.error fault) >>= ExceptT.bindCont fun a : α => Pure.pure (a, w)) >>=
      ExceptT.bindCont fun r : α × Workspace => k r.1 r.2) =
    (Pure.pure (Except.error fault) >>= ExceptT.bindCont fun b : β => Pure.pure (b, w))
  rw [pure_bind, pure_bind]
  exact pure_bind _ _

/-- A text does not change behind a command. -/
theorem afterCommand_text (s : Source) :
    (liftM (Input.afterCommand (m := m) ⟨s, none⟩) : Running m Input) = Pure.pure ⟨s, none⟩ := by
  apply StateT.ext
  intro w
  simp [Input.afterCommand]

omit [Host m] in
/-- A workspace that is put back. -/
theorem get_set_running {α : Type} (x : Running m α) :
    (do
      let w ← get
      set w
      x) = x := by
  apply StateT.ext
  intro w
  simp

/-- An answer is digested in the whole text as it is in the passage, if what comes behind it is. -/
theorem digest_bind {f : Bool → Bool} {k : α → Running m β} {s' : Source}
    {response : Result Response} {stop next : Input → Bool → Running m α}
    {stop' next' : Input → Bool → Running m β} (hf : ∀ b c, f (b && c) = (f b && c))
    (finished : response = .ok .finished → ∀ b, stop' ⟨s', none⟩ (f b) = stop ⟨s, none⟩ b >>= k)
    (continued : response ≠ .ok .finished → (∀ fault, response ≠ .error (.fault fault)) →
      ∀ b, next' ⟨s', none⟩ (f b) = next ⟨s, none⟩ b >>= k) (mode : Mode) (w : Workspace)
    (ok : Bool) :
    digest runFile mode w ⟨s', none⟩ (f ok) response stop' next' =
      digest runFile mode w ⟨s, none⟩ ok response stop next >>= k := by
  have failed : f false = false := by
    have h := hf false false
    rwa [Bool.and_false, Bool.and_false] at h
  unfold digest
  cases response with
  | error failure =>
    cases failure with
    | error e =>
      have goOn := continued nofun nofun false
      rw [failed] at goOn
      dsimp only
      rw [goOn, bind_assoc]
    | fault fault => exact (throw_running fault k).symm
  | ok response =>
    cases response with
    | finished => exact finished rfl ok
    | nothing => exact continued nofun nofun ok
    | command words =>
      have goOn (success : Bool) := continued nofun nofun (ok && success)
      dsimp only
      rw [bind_assoc]
      refine bind_congr fun result => ?_
      cases result with
      | ok success =>
        dsimp only
        rw [pure_bind, pure_bind, afterCommand_text, afterCommand_text, pure_bind, pure_bind,
          ← hf, goOn]
      | error e =>
        dsimp only
        rw [bind_assoc]
        refine bind_congr fun _ => ?_
        rw [pure_bind, pure_bind, afterCommand_text, afterCommand_text, pure_bind, pure_bind,
          ← hf, goOn]
    | values vs =>
      have goOn := continued nofun nofun
      have stopped := goOn false
      rw [failed] at stopped
      dsimp only
      split
      · exact goOn ok
      · split
        · rw [goOn, bind_assoc]
        · rw [stopped, bind_assoc]
        · exact (throw_running _ k).symm

variable {answer : Source → Workspace → Result Response × Source × Workspace}
  {stop next : Input → Bool → Running m α}

/-- What a run does behind a line depends on the answer only by whether the lines have succeeded. -/
theorem digest_next {s : Source} {response : Result Response} (unfinished : response ≠ .ok .finished)
    (mode : Mode) (w : Workspace) (ok : Bool) :
    digest runFile mode w ⟨s, none⟩ ok response stop next =
      digest runFile mode w ⟨s, none⟩ ok response finish finish >>= fun ok => next ⟨s, none⟩ ok :=
  digest_bind (f := id) (fun _ _ => rfl) (fun finished => absurd finished unfinished)
    (fun _ _ b => (pure_bind b fun ok => next ⟨s, none⟩ ok).symm) mode w ok

/-- A run is what its first answer makes of it. -/
theorem runLinesBy_succ (count : Nat) (s : Source) (ok : Bool) :
    runLinesBy answer runFile ⟨name, false⟩ stop (count + 1) ⟨s, none⟩ ok = (do
      let w ← get
      set (answer s w).2.2
      digest runFile ⟨name, false⟩ (answer s w).2.2 ⟨(answer s w).2.1, none⟩ ok (answer s w).1
        stop (runLinesBy answer runFile ⟨name, false⟩ stop count)) := by
  rw [runLinesBy, prompt_quiet, pure_bind]

/-- What a run does where it stops may as well be done behind it. -/
theorem runLinesBy_bind {stop' : Input → Bool → Running m β} (k : α → Running m β)
    (stops : ∀ input ok, stop' input ok = stop input ok >>= k) (count : Nat) (s : Source)
    (ok : Bool) :
    runLinesBy answer runFile ⟨name, false⟩ stop' count ⟨s, none⟩ ok =
      runLinesBy answer runFile ⟨name, false⟩ stop count ⟨s, none⟩ ok >>= k := by
  induction count generalizing s ok with
  | zero => exact stops _ _
  | succ count ih =>
    rw [runLinesBy_succ, runLinesBy_succ, bind_assoc]
    refine bind_congr fun w => ?_
    rw [bind_assoc]
    refine bind_congr fun _ => ?_
    exact digest_bind (f := id) (fun _ _ => rfl) (fun _ => stops _) (fun _ _ => ih _) _ _ _

variable {p : Surroundings} {s : Source} {w : Workspace} [Machine]

/-! ## § Answers -/

/-- Answers a line of a text that stands behind `k` lines of another one: the numbers of lines in
what is wrong with it are counted from the start of the other. -/
def respondAfter (k : Nat) (s : Source) (w : Workspace) : Result Response × Source × Workspace :=
  match Line.read s w with
  | (.error failure, s, w) => (.error (failure.later k), s, w)
  | (.ok _, _, _) => respond s w

theorem respondAfter_zero : respondAfter 0 = respond := by
  funext s w
  unfold respondAfter
  rcases hr : Line.read s w with ⟨failure | line, s', w'⟩
  · unfold respond
    rw [hr]
    exact congrArg (fun failure => (Except.error failure, s', w')) failure.later_zero
  · rfl

/-- What the answer to a line leaves of a passage. -/
structure Answered (p : Surroundings) (s s' : Source) (response : Result Response) : Prop where
  shrinks : response ≠ .ok .finished → (∀ f, response ≠ .error (.fault f)) → s'.unread < s.unread
  finished : response = .ok .finished → p.behind = []

/-- **In the whole text a line of a passage has the same answer.** -/
theorem respond_amid (h : s.Unspent p) (w : Workspace) :
    (respond (s.amid p) w).1 = (respondAfter p.feeds s w).1 ∧
      (respond (s.amid p) w).2.2 = (respondAfter p.feeds s w).2.2 ∧
      s.GoesOn p (respondAfter p.feeds s w).2.1 (respond (s.amid p) w).2.1 ∧
      Answered p s (respondAfter p.feeds s w).2.1 (respondAfter p.feeds s w).1 := by
  obtain ⟨same, workspace, goes, progress⟩ := Line.read_amid h w
  unfold respondAfter respond
  rcases hw : Line.read (s.amid p) w with ⟨whole, s'', w''⟩
  rcases hr : Line.read s w with ⟨failure | line, s', w'⟩
  all_goals
    rw [hw, hr] at same workspace goes
    rw [hr] at progress
    dsimp only at same workspace goes progress
    subst same workspace
  · refine ⟨rfl, rfl, goes, fun _ other => ?_, nofun⟩
    refine progress.shrinks nofun fun f e => ?_
    obtain rfl := Except.error.inj e
    exact other f rfl
  · have shrinks (h : line ≠ .endOfInput) := progress.shrinks (fun e => h (Except.ok.inj e)) nofun
    have answered {response : Result Response} (h : line ≠ .endOfInput)
        (inner : response ≠ .ok .finished) : Answered p s s' response :=
      ⟨fun _ _ => shrinks h, fun e => absurd e inner⟩
    cases line with
    | endOfInput =>
      exact ⟨rfl, rfl, goes, fun other => absurd rfl other, fun _ => progress.finished rfl⟩
    | blank => exact ⟨rfl, rfl, goes, answered nofun nofun⟩
    | command words => exact ⟨rfl, rfl, goes, answered nofun nofun⟩
    | definition f => exact ⟨rfl, rfl, goes, answered nofun nofun⟩
    | statements es =>
      dsimp only [Except.mapError]
      cases (Evaluation.evaluateLine es).run w'' with
      | ok vs w => exact ⟨rfl, rfl, goes, answered nofun nofun⟩
      | error failure w => exact ⟨rfl, rfl, goes, answered nofun nofun⟩

/-- At its end a passage has no more lines. -/
theorem respondAfter_spent (k : Nat) (h : s.Spent) (w : Workspace) :
    respondAfter k s w = (.ok .finished, { s with atLineEnd := true }, w) := by
  obtain ⟨⟨text, previous, feeds⟩, peeked, ended⟩ := s
  obtain ⟨rfl, rfl, rfl⟩ := h
  rfl

/-! ## § Lines -/

/-- **Lines behind other lines.**  A run that has come to a text behind `k` lines does what it does
for the text alone, apart from the numbers of lines. -/
theorem runLines_after (k : Nat) (before : Bool) {n count : Nat} {s : Source} (ok : Bool)
    (hn : s.unread < n) (hc : s.unread < count) :
    runLinesBy respond runFile ⟨name, false⟩ finish count ⟨s.amid ⟨k, []⟩, none⟩ (before && ok) =
      (runLinesBy (respondAfter k) runFile ⟨name, false⟩ finish n ⟨s, none⟩ ok >>=
        fun ok => Pure.pure (before && ok)) := by
  induction n generalizing s count ok with
  | zero => exact nomatch hn
  | succ n ih =>
    cases count with
    | zero => exact nomatch hc
    | succ count =>
      rw [runLinesBy_succ, runLinesBy_succ, bind_assoc]
      refine bind_congr fun w => ?_
      obtain ⟨same, workspace, goes, answered⟩ :=
        respond_amid (p := ⟨k, []⟩) (s := s) (.inl (.inl rfl)) w
      rw [same, workspace, goes.amid_of_nil rfl, bind_assoc]
      refine bind_congr fun _ => ?_
      refine digest_bind (f := (before && ·)) (fun b c => (Bool.and_assoc _ _ _).symm)
        (fun _ b => (pure_bind b fun ok => Pure.pure (before && ok)).symm)
        (fun unfinished whole b => ?_) _ _ _
      have less := answered.shrinks unfinished whole
      exact ih b (by omega) (by omega)

/-- Whether the last token taken ended its line does not matter to the next line. -/
theorem runLinesBy_between (count : Nat) (s : Source) (ended ok : Bool) :
    runLinesBy respond runFile ⟨name, false⟩ stop (count + 1) ⟨{ s with atLineEnd := ended }, none⟩
      ok = runLinesBy respond runFile ⟨name, false⟩ stop (count + 1) ⟨s, none⟩ ok := by
  rw [runLinesBy_succ, runLinesBy_succ]
  rfl

/-- At the end of a passage a run stops. -/
theorem runLinesBy_spent {s : Source} (k : Nat) (h : s.Spent) (count : Nat) (ok : Bool) :
    runLinesBy (respondAfter k) runFile ⟨name, false⟩ stop (count + 1) ⟨s, none⟩ ok =
      stop ⟨{ s with atLineEnd := true }, none⟩ ok := by
  rw [runLinesBy_succ]
  simp only [respondAfter_spent k h]
  exact get_set_running _

theorem runLinesBy_ended {s : Source} (h : s.Spent) (count : Nat) (ok : Bool) :
    runLinesBy respond runFile ⟨name, false⟩ stop (count + 1) ⟨s, none⟩ ok =
      stop ⟨{ s with atLineEnd := true }, none⟩ ok := by
  rw [← respondAfter_zero]
  exact runLinesBy_spent 0 h count ok

/-- **Lines before other lines.**  A run goes through the lines of a passage as if there were no
more, and then, if it has heard the end of the passage, it goes on with the text `t` behind it. -/
theorem runLines_before {behind : List Char} (more : behind ≠ []) {n last count : Nat}
    {s t : Source} (ok : Bool) (h : s.Between ⟨0, behind⟩) (ht : t.StartsLine behind)
    (feeds : t.scanner.feeds = 0) (hn : s.unread < n) (hl : t.unread < last)
    (hc : (s.amid ⟨0, behind⟩).unread < count) :
    runLinesBy respond runFile ⟨name, false⟩ finish count ⟨s.amid ⟨0, behind⟩, none⟩ ok =
      (runLinesBy respond runFile ⟨name, false⟩ (hearing s.scanner.total) n ⟨s, none⟩ ok >>=
        fun (ok₁, heard) =>
          if heard then
            runLinesBy (respondAfter s.scanner.total) runFile ⟨name, false⟩ finish last ⟨t, none⟩
              true >>= fun ok₂ => Pure.pure (ok₁ && ok₂)
          else Pure.pure ok₁) := by
  induction n generalizing s count ok with
  | zero => exact nomatch hn
  | succ n ih =>
    cases count with
    | zero => exact nomatch hc
    | succ count =>
      rcases h with unspent | spent
      · rw [runLinesBy_succ, runLinesBy_succ, bind_assoc]
        refine bind_congr fun w => ?_
        obtain ⟨same, workspace, goes, answered⟩ := respond_amid unspent w
        dsimp only at same workspace goes answered
        rw [respondAfter_zero] at same workspace goes answered
        rw [same, workspace, bind_assoc]
        refine bind_congr fun _ => ?_
        refine digest_bind (f := id) (fun _ _ => rfl) (fun finished => ?_)
          (fun unfinished whole b => ?_) _ _ _
        · exact absurd (answered.finished finished) more
        have less := answered.shrinks unfinished whole
        rw [Source.unread_amid] at hc
        generalize (respond (s.amid ⟨0, behind⟩) w).2.1 = whole at goes ⊢
        generalize (respond s w).2.1 = s' at goes less ⊢
        cases goes with
        | heard between total =>
          rw [← total]
          refine ih b between (by omega) ?_
          rw [Source.unread_amid]
          omega
        | deaf lost lower =>
          -- Nothing is left of either text.
          obtain ⟨n, rfl⟩ := Nat.exists_eq_succ_of_ne_zero (show n ≠ 0 by omega)
          obtain ⟨count, rfl⟩ := Nat.exists_eq_succ_of_ne_zero (show count ≠ 0 by omega)
          have unheard : (s'.scanner.total == s.scanner.total) = false := by
            rw [beq_eq_false_iff_ne]
            omega
          rw [s'.amid_nothing, runLinesBy_ended lost, runLinesBy_ended lost, hearing_spent lost,
            unheard, pure_bind]
          rfl
      · -- All lines of the passage are done, and the next one is the first line behind them.
        have length : t.unread < count + 1 := by
          rw [Source.unread_amid] at hc
          rw [ht.unread]
          exact Nat.lt_of_le_of_lt (Nat.le_add_left _ _) hc
        have rest : runLinesBy respond runFile ⟨name, false⟩ finish (count + 1)
            ⟨t.amid ⟨s.scanner.total, []⟩, none⟩ (ok && true) = _ :=
          runLines_after s.scanner.total ok true hl length
        rw [Bool.and_true] at rest
        rw [spent.amid ht feeds, runLinesBy_between, rest, runLinesBy_ended spent,
          hearing_spent spent, beq_self_eq_true, pure_bind]
        rfl

/-! ## § Texts -/

/-- Runs a text that stands behind `k` lines of another one. -/
def runTextAfter (k : Nat) (name text : String) : Running m Bool :=
  let input := Input.ofText text
  runLinesBy (respondAfter k) runLoaded ⟨name, false⟩ finish input.lines input true

/-- Runs a text; the result says whether every line has succeeded, and whether the ends of all lines
have been heard.  They have not if the reader was given up at one of them. -/
def runHearing (name text : String) : Running m (Bool × Bool) :=
  let input := Input.ofText text
  runLinesBy respond runLoaded ⟨name, false⟩ (hearing (text.toList.count '\n')) input.lines input
    true

/-- To run a text is to run it hearing. -/
theorem runText_hearing (name text : String) :
    runText (m := m) ⟨name, false⟩ text = runHearing name text >>= fun r => Pure.pure r.1 := by
  rw [runText_eq, runHearing]
  refine runLinesBy_bind _ (fun input ok => ?_) _ _ _
  rw [hearing, pure_bind]
  rfl

/-- **To run a text is to run its first part and then, if the end of that is heard, its second
part**, if the first part ends with a blank line and has no raw quotes; the numbers of lines in
errors of the second part are counted from the start of the text. -/
theorem runText_append {first second : String} (name : String)
    (raw : Text.Quoted.backquote ∉ first.toList)
    (blank : ∃ text, first.toList = text ++ ['\n', '\n']) :
    runText (m := m) ⟨name, false⟩ (first ++ second) = (do
      let (ok₁, heard) ← runHearing name first
      if heard then
        let ok₂ ← runTextAfter (first.toList.count '\n') name second
        return ok₁ && ok₂
      else return ok₁) := by
  have whole : Source.ofText (first ++ second).toList =
      (Source.ofText first.toList).amid ⟨0, second.toList.filter (· != '\r')⟩ := by
    rw [String.toList_append]
    unfold Source.ofText Scanner.ofSource
    rw [List.filter_append]
    rfl
  have sealed : Scanner.Sealed (Source.ofText first.toList).scanner.rest := by
    obtain ⟨text, split⟩ := blank
    refine ⟨text.filter (· != '\r'), ?_, fun hm => raw ?_⟩
    · show first.toList.filter (· != '\r') = _
      rw [split, List.filter_append]
      rfl
    · rw [split]
      exact List.mem_append_left _ (List.mem_filter.1 hm).1
  have between : (Source.ofText first.toList).Between
      ⟨0, second.toList.filter (· != '\r')⟩ := .inl (.inl (.inr (.inl ⟨sealed, nofun⟩)))
  have feeds : (Source.ofText first.toList).scanner.total = first.toList.count '\n' := by
    show 0 + (first.toList.filter (· != '\r')).count '\n' = _
    rw [Nat.zero_add, List.count_filter (by decide)]
  have start : (Source.ofText second.toList).StartsLine (second.toList.filter (· != '\r')) :=
    ⟨rfl, rfl, rfl⟩
  by_cases more : second.toList.filter (· != '\r') = []
  · -- There is no second part.
    have spent : (Source.ofText second.toList).Spent := ⟨more, rfl, rfl⟩
    have nothing : runTextAfter (m := m) (first.toList.count '\n') name second = Pure.pure true :=
      runLinesBy_spent _ spent _ _
    have alone : runText (m := m) ⟨name, false⟩ (first ++ second) = runText ⟨name, false⟩ first := by
      rw [runText_eq, runText_eq, lines_ofText, lines_ofText]
      unfold Input.ofText
      rw [whole, more, Source.amid_nothing]
    rw [alone, runText_hearing]
    refine bind_congr fun (ok₁, heard) => ?_
    cases heard
    · rfl
    · show _ = runTextAfter _ name second >>= fun ok₂ => Pure.pure (ok₁ && ok₂)
      rw [nothing, pure_bind, Bool.and_true]
  · rw [runText_eq, runHearing, runTextAfter, lines_ofText, lines_ofText, lines_ofText]
    unfold Input.ofText
    rw [whole, ← feeds]
    exact runLines_before more true between start rfl (Source.unread_lt_remaining _)
      (Source.unread_lt_remaining _) (Source.unread_lt_remaining _)

end Session

end ArrayCalc
