import PolyCalc.CommandLine.Run
import PolyCalc.Proofs.CommandLine.Records

/-!
# The Upshot of a Run

What a run comes to depends on little: on the calculation that is asked for, on the
results file, and on whether there is a place to append to it. `Request.upshot` is the
function of these that says with which status the run ends, which lines it saves, and
what it shows. It does not mention the journal, and so the theorem that a run has the
effects of its upshot says that the journal has no part in them.

A run that ends before the journal is started, for lack of an operand or of settings,
leaves all files as they are.

## Main definitions

* `Request.settings`: The settings that a request finds in a folder.
* `Request.display`: The text that shows an outcome.
* `Upshot`, `Request.upshot`: What a run comes to.

## Theorems

* `run_settingsFor`: Taking the settings touches nothing.
* `leaves_saveFor`: A save is made if there is a place for it.
* `run_of_unready`: A run that lacks an operand or settings touches no file.
* `run_effects`: A run with settings has the effects of its upshot.
-/

namespace PolyCalc

/-- The settings that a request finds in a folder: those of its file, or the defaults. -/
def Request.settings (r : Request) (folder : Folder) : Except SettingsFault Settings :=
  match r.config with
  | none => .ok {}
  | some path =>
    match folder.read path with
    | .error cause => .error (.unreadable path cause)
    | .ok text => Settings.parse text

/-- The text that shows an outcome, with the table of its terms if that is asked for. -/
def Request.display (r : Request) (outcome : Outcome) : String :=
  outcome.message ++ "\n" ++
    if r.table then
      match outcome.polynomial? with
      | none => ""
      | some p => p.table.text ++ "\n"
    else ""

/-- What a run comes to when its journal is left out: the status that it ends with, the
    lines that it saves, and the text that it shows. -/
structure Upshot where
  status : ExitStatus
  saved : List String := []
  shown : String := ""

/-- What saving a line comes to, if that is asked for, with a results file `file` that
    can be opened or not. -/
def Request.saving (r : Request) (file line : String) (opens : Bool) : Upshot :=
  if r.save then
    if opens then
      { status := .success, saved := [line], shown := "Result saved to " ++ file ++ "\n" }
    else { status := .failure }
  else { status := .success }

/-- What a run for a request with its second operand comes to. -/
def Request.upshot (r : Request) (second file : String) (opens : Bool) : Upshot :=
  match calculate r.operation r.first second with
  | .error _ => { status := .failure }
  | .ok (outcome, _) =>
    let u := r.saving file outcome.resultLine opens
    { u with shown := r.display outcome ++ u.shown }

/-- Taking the settings touches nothing. -/
theorem run_settingsFor (r : Request) (desk : Desk) :
    (settingsFor r : StateM Desk _).run desk = (r.settings desk.folder, desk) := by
  unfold settingsFor Request.settings
  cases r.config with
  | none => rfl
  | some path =>
      simp only [Settings.load]
      rw [StateT.run_bind]
      have hread : (Host.read path : StateM Desk _).run desk = (desk.folder.read path, desk) :=
        rfl
      rw [hread]
      simp only [bind]
      cases desk.folder.read path with
      | error cause => rfl
      | ok text => rfl

section Parts

variable {base : Folder} {s : Settings}

theorem leaves_printLine_output (line : String) :
    Leaves base s [] (line ++ "\n") (printLine .output line) fun _ => True := by
  refine fun before _ => ⟨trivial, .of_folder_eq rfl fun _ => ?_⟩
  unfold printLine
  rw [run_print, Desk.text_print, if_pos rfl]

theorem leaves_showOutcome (r : Request) (outcome : Outcome) :
    Leaves base s [] (r.display outcome) (showOutcome r outcome) fun _ => True := by
  refine leaves_bind (leaves_printLine_output _) fun _ _ => ?_
  by_cases htable : r.table = true
  · simp only [if_pos htable]
    cases outcome.polynomial? with
    | none => exact leaves_pure trivial
    | some p => exact leaves_printLine_output _
  · simp only [if_neg htable]
    exact leaves_pure trivial

/-- A line that is appended to the results file is saved. -/
theorem leaves_save {c : Calculator} {line : String} (hlast : c.lastResult = some line)
    (hfile : c.resultsFile = s.resultsFile) {place : Place}
    (htarget : base.target s.resultsFile = some place) :
    Leaves base s [line] "" c.save fun reply => reply.1 = .ok true := by
  intro before hbase
  rw [hbase.target_eq] at htarget
  have happend : before.folder.append c.resultsFile (line ++ "\n")
      = .ok (before.folder.write place
        ((before.folder.content? place).getD "" ++ (line ++ "\n"))) :=
    Folder.append_eq_ok_iff.2 ⟨place, hfile ▸ htarget, rfl⟩
  rw [run_save hlast, happend]
  refine ⟨rfl, Folder.sameFolders_write htarget _, fun q _ => ?_,
    fun _ => (String.append_empty).symm⟩
  rw [htarget, Folder.content?_write]
  by_cases hq : q = place
  · rw [if_pos hq, if_pos (congrArg some hq.symm), logged_singleton, hq]
  · rw [if_neg hq, if_neg fun heq => hq (Option.some.inj heq).symm, logged_nil]

/-- A results file that there is no place for is left alone. -/
theorem leaves_save_of_no_target {c : Calculator} {line : String}
    (hlast : c.lastResult = some line) (hfile : c.resultsFile = s.resultsFile)
    (htarget : base.target s.resultsFile = none) :
    Leaves base s [] "" c.save fun reply => ∃ cause, reply.1 = .error cause := by
  intro before hbase
  rw [hbase.target_eq] at htarget
  rw [run_save hlast]
  cases happend : before.folder.append c.resultsFile (line ++ "\n") with
  | error cause => exact ⟨⟨cause, rfl⟩, .refl s before⟩
  | ok folder =>
      rcases Folder.append_eq_ok_iff.1 happend with ⟨place, hplace, -⟩
      rw [hfile, htarget] at hplace
      cases hplace

/-- A result is saved if that is asked for and there is a place to append it to. -/
theorem leaves_saveFor (r : Request) {journal : Option Journal}
    (hjournal : ∀ j, journal = some j → j.IsKeptFor s) {c : Calculator} {line : String}
    (hlast : c.lastResult = some line) (hfile : c.resultsFile = s.resultsFile) {u : Upshot}
    (hu : r.saving s.resultsFile line (base.target s.resultsFile).isSome = u) :
    Leaves base s u.saved u.shown (saveFor r journal c) fun status => status = u.status := by
  subst hu
  unfold saveFor Request.saving
  by_cases hsave : r.save = true
  · simp only [if_pos hsave]
    cases htarget : base.target s.resultsFile with
    | some place =>
        simp only [Option.isSome_some, if_true]
        -- The line is saved by the first part, and shown by the last.
        rw [← @String.empty_append ("Result saved to " ++ s.resultsFile ++ "\n"), ← hfile]
        refine leaves_bind (leaves_save hlast hfile htarget) ?_
        rintro ⟨answer, events⟩ ⟨⟩
        refine leaves_bind_quiet (leaves_recordIn hjournal events) fun _ _ => ?_
        exact leaves_bind_pure (leaves_printLine_output _) fun _ _ => rfl
    | none =>
        refine leaves_bind_quiet (leaves_save_of_no_target hlast hfile htarget) ?_
        rintro ⟨answer, events⟩ ⟨cause, ⟨⟩⟩
        refine leaves_bind_quiet (leaves_recordIn hjournal events) fun _ _ => ?_
        exact leaves_bind_pure (leaves_printLine_error _) fun _ _ => rfl
  · simp only [if_neg hsave]
    exact leaves_pure rfl

end Parts

/-! ## Runs -/

/-- A run that lacks the second operand or settings fails, and touches no file. -/
theorem run_of_unready {r : Request} {before : Desk} (layout : Journal.Layout)
    (h : r.second = none ∨ ∃ fault, r.settings before.folder = .error fault) :
    ∃ message, (calculateFor layout r : StateM Desk _).run before
      = (.failure, { before with printed := before.printed ++ [(.error, message)] }) := by
  unfold calculateFor
  cases hsecond : r.second with
  | none => exact ⟨_, rfl⟩
  | some second =>
      rcases h with hnone | ⟨fault, hfault⟩
      · cases hsecond.symm.trans hnone
      · simp only
        rw [StateT.run_bind, run_settingsFor, hfault]
        exact ⟨_, rfl⟩

/-- A run with settings has the effects of its upshot, whatever its journal does. -/
theorem run_effects {r : Request} {before : Desk} {second : String} {s : Settings}
    (layout : Journal.Layout) (hsecond : r.second = some second)
    (hsettings : r.settings before.folder = .ok s) {u : Upshot}
    (hu : r.upshot second s.resultsFile (before.folder.target s.resultsFile).isSome = u) :
    ((calculateFor layout r : StateM Desk _).run before).1 = u.status
      ∧ Effects s u.saved u.shown before
        ((calculateFor layout r : StateM Desk _).run before).2 := by
  subst hu
  unfold calculateFor
  simp only [hsecond]
  rw [StateT.run_bind, run_settingsFor, hsettings]
  -- From here on nothing depends on what files hold, so the rules for `Leaves` apply.
  refine (show Leaves before.folder s _ _ _ fun status => status = _ from ?_) before (.refl _)
  refine leaves_bind_quiet (leaves_start false layout) fun journal hjournal => ?_
  unfold Request.upshot Calculator.run
  cases calculate r.operation r.first second with
  | error rejection =>
      refine leaves_bind_quiet (leaves_recordIn hjournal _) fun _ _ => ?_
      refine leaves_bind_quiet (leaves_recordIn hjournal _) fun _ _ => ?_
      exact leaves_bind_pure (leaves_printLine_error _) fun _ _ => rfl
  | ok reply =>
      rcases reply with ⟨outcome, events⟩
      refine leaves_bind_quiet (leaves_recordIn hjournal _) fun _ _ => ?_
      exact leaves_bind (leaves_showOutcome r outcome) fun _ _ =>
        leaves_saveFor r hjournal rfl rfl rfl

end PolyCalc
