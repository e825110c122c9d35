import ArrayCalc.Host.Desk
import ArrayCalc.Proofs.ReadingEnds

/-!
# Reports

What a run on a desk writes to the standard error output is a list of reports, and the rest of the
run does not depend on them.  So a text that is run behind other lines differs from one that is run
alone in nothing but the numbers of the lines that cannot be read.

Where the reader is given up in the midst of a token that ends a line, the line end is lost, and the
scanner never asks for another line.  Then nothing of the text behind it is run.
-/

namespace ArrayCalc.Session

/-- Something that is written to the standard error output. -/
inductive Report where
  /-- A line of the text cannot be read. -/
  | unread (e : Error)
  /-- Everything else, such as an error in a file that has been loaded. -/
  | other (text : String)

namespace Report

/-- The report when `k` lines are put before the text. -/
def later (k : Nat) : Report → Report
  | .unread e => .unread (e.later k)
  | .other text => .other text

/-- What is written, given the name of the text. -/
def text (name : String) : Report → String
  | .unread e => name ++ ": " ++ e.message ++ "\n"
  | .other text => text

def texts (name : String) : List Report → String
  | [] => ""
  | r :: reports => r.text name ++ texts name reports

theorem texts_append (name : String) (reports others : List Report) :
    texts name (reports ++ others) = texts name reports ++ texts name others := by
  induction reports with
  | nil => exact String.empty_append.symm
  | cons r reports ih =>
    show r.text name ++ texts name (reports ++ others) = _
    rw [ih, ← String.append_assoc]
    rfl

end Report

open Report (texts)

/-- What a run on a desk comes to: its result with the workspace, or a fault; and the desk. -/
def onDesk {α : Type} (x : Running (StateM Desk) α) (w : Workspace) (desk : Desk) :
    Except Fault (α × Workspace) × Desk := ((x.run w).run).run desk

variable {α β : Type} {k : Nat} {name : String}

theorem onDesk_bind (x : Running (StateM Desk) α) (f : α → Running (StateM Desk) β) (w : Workspace)
    (desk : Desk) :
    onDesk (x >>= f) w desk =
      match onDesk x w desk with
      | (.ok (a, w'), desk') => onDesk (f a) w' desk'
      | (.error fault, desk') => (.error fault, desk') := by
  unfold onDesk
  rw [StateT.run_bind, ExceptT.run_bind, StateT.run_bind]
  change (match ((x.run w).run).run desk with | (r, desk') => _) = _
  rcases ((x.run w).run).run desk with ⟨_ | ⟨a, w'⟩, desk'⟩ <;> rfl

/-- `y` does what `x` does, but in its reports the lines are those behind `k` more lines. -/
def Reports (k : Nat) (name : String) (x y : Running (StateM Desk) α) : Prop :=
  ∀ w desk errors, ∃ news,
    (onDesk x w desk).2.errors = desk.errors ++ texts name news ∧
    onDesk y w { desk with errors := errors } = ((onDesk x w desk).1,
      { (onDesk x w desk).2 with errors := errors ++ texts name (news.map (·.later k)) })

namespace Reports

/-- Something that reports nothing and does not depend on what has been reported. -/
theorem silent {x : Running (StateM Desk) α}
    (h : ∀ w desk errors, (onDesk x w desk).2.errors = desk.errors ∧
      onDesk x w { desk with errors := errors } =
        ((onDesk x w desk).1, { (onDesk x w desk).2 with errors := errors })) :
    Reports k name x x := by
  intro w desk errors
  obtain ⟨told, same⟩ := h w desk errors
  refine ⟨[], told.trans String.append_empty.symm, ?_⟩
  rw [same]
  exact congrArg
    (fun errors => ((onDesk x w desk).1, { (onDesk x w desk).2 with errors := errors }))
    String.append_empty.symm

theorem pure (a : α) : Reports k name (Pure.pure a) (Pure.pure a) := silent fun _ _ _ => ⟨rfl, rfl⟩

theorem throw (fault : Fault) :
    Reports k name (MonadExcept.throw fault : Running (StateM Desk) α) (MonadExcept.throw fault) :=
  silent fun _ _ _ => ⟨rfl, rfl⟩

theorem get : Reports k name (MonadState.get : Running (StateM Desk) Workspace) MonadState.get :=
  silent fun _ _ _ => ⟨rfl, rfl⟩

theorem set (w : Workspace) :
    Reports k name (MonadStateOf.set w : Running (StateM Desk) PUnit) (MonadStateOf.set w) :=
  silent fun _ _ _ => ⟨rfl, rfl⟩

theorem print (text : String) : Reports k name (print text) (print text) :=
  silent fun _ _ _ => ⟨rfl, rfl⟩

/-- What a desk is asked for. -/
theorem lift {act : StateM Desk α}
    (h : ∀ desk errors, (act desk).2.errors = desk.errors ∧
      act { desk with errors := errors } =
        ((act desk).1, { (act desk).2 with errors := errors })) :
    Reports k name (liftM act : Running (StateM Desk) α) (liftM act) := by
  refine silent fun w desk errors => ⟨(h desk errors).1, ?_⟩
  exact congrArg (fun r : α × Desk => (Except.ok (r.1, w), r.2)) (h desk errors).2

theorem bind {x y : Running (StateM Desk) α} {f g : α → Running (StateM Desk) β}
    (h : Reports k name x y) (hf : ∀ a, Reports k name (f a) (g a)) :
    Reports k name (x >>= f) (y >>= g) := by
  intro w desk errors
  obtain ⟨news, told, same⟩ := h w desk errors
  rw [onDesk_bind, onDesk_bind, same]
  rcases hx : onDesk x w desk with ⟨fault | ⟨a, w'⟩, desk'⟩
  · rw [hx] at told
    exact ⟨news, told, rfl⟩
  · rw [hx] at told
    obtain ⟨more, told', same'⟩ := hf a w' desk' (errors ++ texts name (news.map (·.later k)))
    refine ⟨news ++ more, ?_, ?_⟩
    · dsimp only at told ⊢
      rw [told', told, Report.texts_append, String.append_assoc]
    · dsimp only at same' ⊢
      rw [same', List.map_append, Report.texts_append, String.append_assoc]

theorem ite {c : Prop} [Decidable c] {x y x' y' : Running (StateM Desk) α}
    (h : Reports k name x y) (h' : Reports k name x' y') :
    Reports k name (if c then x else x') (if c then y else y') := by
  by_cases hc : c
  · rw [if_pos hc, if_pos hc]
    exact h
  · rw [if_neg hc, if_neg hc]
    exact h'

/-! ## § What is reported -/

theorem report {text text' : String} (r : Report) (ht : text = r.text name)
    (ht' : text' = (r.later k).text name) :
    Reports k name (Session.report text) (Session.report text') := by
  subst ht ht'
  intro w desk errors
  have single (r : Report) : texts name [r] = r.text name := String.append_empty
  refine ⟨[r], ?_, ?_⟩
  · rw [single]
    rfl
  · rw [List.map_singleton, single]
    rfl

/-- An error that has nothing to do with a line of the text, or nothing with its number. -/
theorem reportError_other (source : String) (e : Error) :
    Reports k name (reportError source e) (reportError source e) :=
  report (.other (source ++ ": " ++ e.message ++ "\n")) rfl rfl

/-- A line that cannot be read. -/
theorem reportError_unread (e : Error) :
    Reports k name (reportError name e) (reportError name (e.later k)) :=
  report (.unread e) rfl rfl

/-! ## § Commands -/

theorem withFile (path : String) {act : StateM Desk α}
    (h : Reports k name (liftM act : Running (StateM Desk) α) (liftM act)) :
    Reports k name (Session.withFile path act) (Session.withFile path act) :=
  ite (throw _) h

theorem readFile (path : String) :
    Reports k name (liftM (Host.readFile (m := StateM Desk) path) : Running (StateM Desk) _)
      (liftM (Host.readFile (m := StateM Desk) path)) := lift fun _ _ => ⟨rfl, rfl⟩

/-- What a desk answers to a write, and what becomes of it. -/
def written (desk : Desk) : Except FileError Desk → Except FileError Unit × Desk
  | .ok desk' => (.ok (), desk')
  | .error e => (.error e, desk)

theorem writeFile_desk (path text : String) (desk : Desk) :
    Host.writeFile (m := StateM Desk) path text desk = written desk (desk.write path text) := by
  unfold Host.writeFile Desk.instHostStateM written
  dsimp only [Bind.bind, StateT.bind, MonadState.get, getThe, MonadStateOf.get, StateT.get,
    Pure.pure]
  cases desk.write path text <;> rfl

theorem writeFile (path text : String) :
    Reports k name (liftM (Host.writeFile (m := StateM Desk) path text) : Running (StateM Desk) _)
      (liftM (Host.writeFile (m := StateM Desk) path text)) := by
  refine lift fun desk errors => ?_
  rw [writeFile_desk, writeFile_desk]
  unfold Desk.write
  dsimp only
  rcases Desk.locate desk.files path with _ | _ | _ | _ <;> exact ⟨rfl, rfl⟩

theorem save (path : String) :
    Reports k name (Session.save (m := StateM Desk) path) (Session.save path) := by
  refine bind get fun w => bind (withFile path (writeFile path _)) fun result => ?_
  cases result with
  | ok => exact pure _
  | error e => exact pure _

variable {runFile : RunningFile (StateM Desk)}

theorem load (loaded : ∀ path bytes, Reports k name (runFile path bytes) (runFile path bytes))
    (path : String) : Reports k name (Session.load runFile path) (Session.load runFile path) := by
  refine bind (withFile path (readFile path)) fun result => ?_
  cases result with
  | ok bytes => exact bind (loaded path bytes) fun ok => pure _
  | error e => exact pure _

theorem command (loaded : ∀ path bytes, Reports k name (runFile path bytes) (runFile path bytes))
    (words : List String) :
    Reports k name (Session.command runFile words) (Session.command runFile words) := by
  refine ite ?_ (ite ?_ (pure _))
  · cases fileName words with
    | ok path => exact bind (save path) fun result => pure _
    | error e => exact pure _
  · cases fileName words with
    | ok path => exact load loaded path
    | error e => exact pure _

/-- The input that a desk leaves once the file that it came from has been read again. -/
def followed (input : Input) (file : OpenFile) : Except FileError (List UInt8) → Input
  | .ok bytes => ⟨(file.follow input.source bytes).2, some (file.follow input.source bytes).1⟩
  | .error _ => input

theorem afterCommand_desk {input : Input} {file : OpenFile} (h : input.file = some file)
    (desk : Desk) :
    Input.afterCommand (m := StateM Desk) input desk
      = (followed input file (desk.read file.name), desk) := by
  unfold Input.afterCommand followed
  rw [h]
  dsimp only [Bind.bind, StateT.bind, Host.readFile, Desk.instHostStateM, MonadState.get, getThe,
    MonadStateOf.get, StateT.get, Pure.pure, StateT.pure]
  cases desk.read file.name <;> rfl

theorem afterCommand (input : Input) :
    Reports k name (liftM (Input.afterCommand (m := StateM Desk) input) : Running (StateM Desk) _)
      (liftM (Input.afterCommand (m := StateM Desk) input)) := by
  refine lift fun desk errors => ?_
  cases h : input.file with
  | none =>
    unfold Input.afterCommand
    rw [h]
    exact ⟨rfl, rfl⟩
  | some file =>
    rw [afterCommand_desk h, afterCommand_desk h]
    exact ⟨rfl, rfl⟩

/-! ## § Lines -/

/-- Two answers to a line that may be one that cannot be read. -/
inductive Answers (k : Nat) (name source : String) : Result Response → Result Response → Prop
  | same (r : Result Response) : Answers k name source r r
  | unread (e : Error) (own : source = name) :
    Answers k name source (.error (.error e)) (.error (.error (e.later k)))

theorem digest (loaded : ∀ path bytes, Reports k name (runFile path bytes) (runFile path bytes))
    {r r' : Result Response} {source : String} (answers : Answers k name source r r')
    {stop next stop' next' : Input → Bool → Running (StateM Desk) α}
    (stops : ∀ input ok, Reports k name (stop input ok) (stop' input ok))
    (h : ∀ input ok, Reports k name (next input ok) (next' input ok)) (w : Workspace)
    (input : Input) (ok : Bool) :
    Reports k name (Session.digest runFile ⟨source, false⟩ w input ok r stop next)
      (Session.digest runFile ⟨source, false⟩ w input ok r' stop' next') := by
  cases answers with
  | unread e own =>
    subst own
    exact bind (reportError_unread e) fun _ => h _ _
  | same r =>
    cases r with
    | error failure =>
      cases failure with
      | error e => exact bind (reportError_other _ _) fun _ => h _ _
      | fault fault => exact throw _
    | ok response =>
      cases response with
      | finished => exact stops _ _
      | nothing => exact h _ _
      | command words =>
        refine bind (command loaded words) fun result => ?_
        cases result with
        | ok success => exact bind (pure _) fun _ => bind (afterCommand _) fun _ => h _ _
        | error e =>
          refine bind (reportError_other _ _) fun _ => ?_
          exact bind (pure _) fun _ => bind (afterCommand _) fun _ => h _ _
      | values vs =>
        refine ite (h _ _) ?_
        rcases Value.formatAll w.settings vs with (_ | _) | _
        · exact bind (reportError_other _ _) fun _ => h _ _
        · exact throw _
        · exact bind (print _) fun _ => h _ _

theorem runLinesBy {answer answer' : Source → Workspace → Result Response × Source × Workspace}
    {source : String} (answers : ∀ s w, (answer' s w).2 = (answer s w).2 ∧
      Answers k name source (answer s w).1 (answer' s w).1)
    (loaded : ∀ path bytes, Reports k name (runFile path bytes) (runFile path bytes))
    {stop stop' : Input → Bool → Running (StateM Desk) α}
    (stops : ∀ input ok, Reports k name (stop input ok) (stop' input ok)) (count : Nat)
    (input : Input) (ok : Bool) :
    Reports k name (Session.runLinesBy answer runFile ⟨source, false⟩ stop count input ok)
      (Session.runLinesBy answer' runFile ⟨source, false⟩ stop' count input ok) := by
  induction count generalizing input ok with
  | zero => exact stops input ok
  | succ count ih =>
    unfold Session.runLinesBy
    rw [prompt_quiet]
    refine bind (pure _) fun _ => bind get fun w => ?_
    obtain ⟨same, given⟩ := answers input.source w
    generalize answer input.source w = a at same given ⊢
    generalize answer' input.source w = b at same given ⊢
    obtain ⟨r, s, w⟩ := a
    obtain ⟨r', s', w'⟩ := b
    obtain ⟨rfl, rfl⟩ := Prod.mk.inj same
    exact bind (set _) fun _ => digest loaded given stops ih _ _ _

/-- A file reports the same, wherever it is loaded. -/
theorem runWithin (machine : Machine) (depth : Nat) (path : String) (bytes : List UInt8) :
    Reports k name (Session.runWithin machine depth ⟨path, false⟩ (.ofFile path bytes))
      (Session.runWithin machine depth ⟨path, false⟩ (.ofFile path bytes)) := by
  induction depth generalizing machine path bytes with
  | zero =>
    rw [runWithin_zero, runLines_eq]
    exact runLinesBy (fun _ _ => ⟨rfl, .same _⟩) (fun _ _ => throw _) (fun _ _ => pure _) _ _ _
  | succ depth ih =>
    rw [runWithin_succ, runLines_eq]
    exact runLinesBy (fun _ _ => ⟨rfl, .same _⟩) (ih machine.within) (fun _ _ => pure _) _ _ _

variable [Machine]

/-- **Behind other lines a text does what it does alone**, apart from the numbers of the lines that
cannot be read. -/
theorem runTextAfter (k : Nat) (name text : String) :
    Reports k name (runText ⟨name, false⟩ text) (Session.runTextAfter k name text) := by
  have loaded (path : String) (bytes : List UInt8) :
      Reports k name (runLoaded path bytes) (runLoaded path bytes) := by
    unfold runLoaded
    cases loadingDepth with
    | zero => exact throw _
    | succ depth => exact runWithin _ depth path bytes
  rw [runText_eq, Session.runTextAfter]
  refine runLinesBy (fun s w => ?_) loaded (fun _ _ => pure _) _ _ _
  unfold respondAfter respond
  rcases Line.read s w with ⟨(e | fault) | line, s', w'⟩
  · exact ⟨rfl, .unread e rfl⟩
  · exact ⟨rfl, .same _⟩
  · exact ⟨rfl, .same _⟩

end Reports

/-! ## § Lost lines -/

theorem of_onDesk_bind {x : Running (StateM Desk) α} {f : α → Running (StateM Desk) β}
    {w : Workspace} {desk : Desk} {r : β × Workspace} {desk' : Desk}
    (h : onDesk (x >>= f) w desk = (.ok r, desk')) :
    ∃ a w₁ desk₁, onDesk x w desk = (.ok (a, w₁), desk₁) ∧ onDesk (f a) w₁ desk₁ = (.ok r, desk') := by
  rw [onDesk_bind] at h
  rcases hx : onDesk x w desk with ⟨fault | ⟨a, w₁⟩, desk₁⟩
  · rw [hx] at h
    exact nomatch congrArg Prod.fst h
  · rw [hx] at h
    exact ⟨a, w₁, desk₁, rfl, h⟩

/-- A run of a text that has not heard the ends of all lines: the last thing that it reports is that
an expression of the text is too deeply nested. -/
structure Unheard (name : String) (ok : Bool) (desk : Desk) : Prop where
  failed : ok = false
  told : ∃ errors line,
    desk.errors = errors ++ (Report.unread (.parse ⟨.tooDeep, line, [], none⟩)).text name

section Parts

variable [Machine]

/-- The answer to a line leaves what reading it has left, and says whether it was the last one. -/
theorem respond_of_read {s s' : Source} {w w' : Workspace} {line : Result Line}
    (h : Line.read s w = (line, s', w')) :
    (respond s w).2.1 = s' ∧ ((respond s w).1 = .ok .finished → line = .ok .endOfInput) ∧
      ∀ failure, line = .error failure → (respond s w).1 = .error failure := by
  unfold respond
  rw [h]
  cases line with
  | error failure => exact ⟨rfl, nofun, fun _ e => e ▸ rfl⟩
  | ok line =>
    cases line with
    | endOfInput => exact ⟨rfl, fun _ => rfl, nofun⟩
    | statements es =>
      dsimp only
      split
      · exact ⟨rfl, nofun, nofun⟩
      · exact ⟨rfl, nofun, nofun⟩
    | _ => exact ⟨rfl, nofun, nofun⟩

/-- By induction on the lines: a line end that is lost is lost in the last line that is read. -/
theorem runLinesBy_unheard {runFile : RunningFile (StateM Desk)} {count : Nat} {s : Source}
    {ok ok' : Bool} {w w' : Workspace} {desk desk' : Desk} (begun : s.Begun)
    (hc : s.unread < count)
    (h : onDesk (runLinesBy respond runFile ⟨name, false⟩ (hearing s.scanner.total) count ⟨s, none⟩
      ok) w desk = (.ok ((ok', false), w'), desk')) : Unheard name ok' desk' := by
  induction count generalizing s ok w desk with
  | zero => exact nomatch hc
  | succ count ih =>
    rw [runLinesBy_succ] at h
    change onDesk (digest runFile ⟨name, false⟩ (respond s w).2.2 ⟨(respond s w).2.1, none⟩ ok
      (respond s w).1 (hearing s.scanner.total) _) (respond s w).2.2 desk = _ at h
    obtain ⟨-, -, goes, progress⟩ := Line.read_amid (p := .nothing) (s := s) (.inl (.inl rfl)) w
    rcases hr : Line.read s w with ⟨line, s', w₁⟩
    rw [hr] at goes progress
    obtain ⟨source, finished, failed⟩ := respond_of_read hr
    rw [source] at h
    have kept (total : s'.scanner.total = s.scanner.total) : Unheard name ok' desk' := by
      by_cases last : (respond s w).1 = .ok .finished
      · -- All that has been scanned are all line ends.
        have exhausted := Line.read_exhausts begun.resting (finished last ▸ hr)
        have all : s'.scanner.feeds = s.scanner.total := by
          rw [← total, Scanner.total, exhausted.rest]
          rfl
        rw [last] at h
        have heard : (s'.scanner.feeds == s.scanner.total) = false :=
          congrArg (fun r => r.1.2) (Except.ok.inj (Prod.mk.inj h).1)
        rw [all, beq_self_eq_true] at heard
        exact nomatch heard
      · rw [digest_next last] at h
        obtain ⟨ok₂, w₂, desk₂, -, rest⟩ := of_onDesk_bind h
        have less : s'.unread < s.unread := by
          refine Line.read_takes begun.resting hr fun e => last ?_
          subst e
          unfold respond
          rw [hr]
        rw [← total] at rest
        exact ih (begun.read _ hr) (by omega) rest
    generalize (Line.read (s.amid .nothing) w).2.1 = whole at goes
    cases goes with
    | heard _ total => exact kept total
    | deaf lost less =>
      -- The line is reported, and behind it there is nothing to run.
      obtain ⟨number, told⟩ := progress.told less
      have taken := Line.read_takes begun.resting hr fun e => nomatch told.symm.trans e
      obtain ⟨count, rfl⟩ := Nat.exists_eq_succ_of_ne_zero (show count ≠ 0 by omega)
      rw [failed _ told] at h
      obtain ⟨⟨⟩, w₂, desk₂, reported, rest⟩ := of_onDesk_bind h
      obtain rfl : _ = desk₂ := congrArg Prod.snd reported
      rw [runLinesBy_ended lost, hearing_spent lost] at rest
      have result := congrArg (fun r => r.1.1) (Except.ok.inj (Prod.mk.inj rest).1)
      obtain rfl : _ = desk' := congrArg Prod.snd rest
      exact ⟨result.symm, desk.errors, number, rfl⟩

/-- **To run a script in two parts is to run it whole**, if the first part has no raw quotes, ends
with a blank line and does not end with a fault, and the ends of all its lines are heard.  The second
part goes on with the workspace and the desk that the first one has left.  What comes of it is what
comes of the whole script: the workspace, the files, the output and the fault that may end it are
the same, and all lines succeed if they do in both parts.  The reports are the same, too, but the
lines of the second part that cannot be read have the numbers they have in the whole script.

The end of a line is lost only where an expression is too deeply nested, and this is the last thing
that is reported; then the whole script does what its first part does. -/
theorem run_in_parts {first second name : String}
    (raw : Text.Quoted.backquote ∉ first.toList)
    (blank : ∃ text, first.toList = text ++ ['\n', '\n']) {w w₁ : Workspace} {desk desk₁ : Desk}
    {ok₁ : Bool}
    (passes : onDesk (runText ⟨name, false⟩ first) w desk = (.ok (ok₁, w₁), desk₁)) :
    ∃ heard, onDesk (runHearing name first) w desk = (.ok ((ok₁, heard), w₁), desk₁) ∧
      (heard = true → ∃ (news : List Report) (result : Except Fault (Bool × Workspace))
        (desk₂ : Desk),
        onDesk (runText ⟨name, false⟩ second) w₁ desk₁ =
          (result, { desk₂ with errors := desk₁.errors ++ texts name news }) ∧
        onDesk (runText ⟨name, false⟩ (first ++ second)) w desk =
          (result.map fun (ok₂, w₂) => (ok₁ && ok₂, w₂),
            { desk₂ with
              errors := desk₁.errors ++
                texts name (news.map (·.later (first.toList.count '\n'))) })) ∧
      (heard = false → Unheard name ok₁ desk₁ ∧
        onDesk (runText ⟨name, false⟩ (first ++ second)) w desk = (.ok (ok₁, w₁), desk₁)) := by
  obtain ⟨heard, run⟩ :
      ∃ heard, onDesk (runHearing name first) w desk = (.ok ((ok₁, heard), w₁), desk₁) := by
    rw [runText_hearing] at passes
    obtain ⟨⟨ok, heard⟩, w', desk', run, result⟩ := of_onDesk_bind passes
    obtain ⟨rfl, rfl⟩ := Prod.mk.inj (Except.ok.inj (Prod.mk.inj result).1)
    obtain rfl : desk' = desk₁ := congrArg Prod.snd result
    exact ⟨heard, run⟩
  refine ⟨heard, run, ?_, ?_⟩
  all_goals
    rintro rfl
    rw [runText_append name raw blank, onDesk_bind, run]
    dsimp only
  · obtain ⟨news, told, same⟩ :=
      Reports.runTextAfter (first.toList.count '\n') name second w₁ desk₁ desk₁.errors
    have behind : onDesk (runTextAfter (first.toList.count '\n') name second) w₁ desk₁ = _ := same
    refine ⟨news, (onDesk (runText ⟨name, false⟩ second) w₁ desk₁).1,
      (onDesk (runText ⟨name, false⟩ second) w₁ desk₁).2, ?_, ?_⟩
    · rw [← told]
    · rw [if_pos rfl, onDesk_bind, behind]
      rcases onDesk (runText ⟨name, false⟩ second) w₁ desk₁ with ⟨fault | ⟨ok₂, w₂⟩, desk₂⟩
      · rfl
      · rfl
  · have total : (Source.ofText first.toList).scanner.total = first.toList.count '\n' := by
      show 0 + (first.toList.filter (· != '\r')).count '\n' = _
      rw [Nat.zero_add, List.count_filter (by decide)]
    unfold runHearing at run
    dsimp only at run
    rw [← total, lines_ofText] at run
    exact ⟨runLinesBy_unheard (.ofText first.toList) (Source.unread_lt_remaining _) run, rfl⟩

end Parts

/-- An open bracket on the second line of both parts. -/
theorem run_in_parts_brackets : ∃ ok₁ w₁ desk₁,
    Text.Quoted.backquote ∉ "a = 1\n(\n\n".toList ∧
    (∃ text, "a = 1\n(\n\n".toList = text ++ ['\n', '\n']) ∧
    onDesk (runText ⟨"in", false⟩ "a = 1\n(\n\n") (.ofSettings {}) .empty =
      (.ok (ok₁, w₁), desk₁) ∧
    ∃ (news : List Report) (result : Except Fault (Bool × Workspace)) (desk₂ : Desk),
      onDesk (runText ⟨"in", false⟩ "a + 1\n(\n") w₁ desk₁ =
        (result, { desk₂ with errors := desk₁.errors ++ texts "in" news }) ∧
      onDesk (runText ⟨"in", false⟩ ("a = 1\n(\n\n" ++ "a + 1\n(\n")) (.ofSettings {}) .empty =
        (result.map fun (ok₂, w₂) => (ok₁ && ok₂, w₂),
          { desk₂ with
            errors := desk₁.errors ++
              texts "in" (news.map (·.later ("a = 1\n(\n\n".toList.count '\n'))) }) := by
  have raw : Text.Quoted.backquote ∉ "a = 1\n(\n\n".toList := by decide
  have blank : ∃ text, "a = 1\n(\n\n".toList = text ++ ['\n', '\n'] :=
    ⟨"a = 1\n(".toList, by decide⟩
  have ends (r : Except Fault (Bool × Workspace) × Desk) (h : r.1.isOk = true) :
      ∃ ok₁ w₁ desk₁, r = (.ok (ok₁, w₁), desk₁) := by
    obtain ⟨fault | ⟨ok, w⟩, desk⟩ := r
    · exact nomatch h
    · exact ⟨ok, w, desk, rfl⟩
  have heard : (onDesk (runHearing "in" "a = 1\n(\n\n") (.ofSettings {}) .empty).1.toOption.map
      (·.1.2) = some true := by decide +kernel
  obtain ⟨ok₁, w₁, desk₁, passes⟩ := ends
    (onDesk (runText ⟨"in", false⟩ "a = 1\n(\n\n") (.ofSettings {}) .empty) (by decide +kernel)
  obtain ⟨_, run, parts, -⟩ := run_in_parts raw blank passes
  rw [run] at heard
  exact ⟨ok₁, w₁, desk₁, raw, blank, passes, parts (Option.some.inj heard)⟩

/-- A machine that has no level for an expression within another one, and has scanned one more
character when it gives up. -/
@[reducible]
def shallow : Machine := { Machine.standard with nesting := 1, cut := fun _ _ => ⟨0, 1⟩ }

/-- The end of the line behind the sign is lost. -/
example :
    (onDesk (@runText shallow _ _ _ ⟨"in", false⟩ ("-\n\n" ++ "7\n")) (.ofSettings {}) .empty).2.output
      = "" ∧
    (onDesk (@runText shallow _ _ _ ⟨"in", false⟩ "7\n") (.ofSettings {}) .empty).2.output
      = "7\n" := by
  decide +kernel

end ArrayCalc.Session
