import PolyCalc.Proofs.CommandLine.Upshot

/-!
# Effects of a Run

A run of the command line ends at one of five points, and each of them allows certain
files to have changed. A run that has no second operand or no settings has touched
nothing. A run of which the calculation fails may have written its log file. All other
runs may have added one line to the results file, and they have if they were to save
and succeeded.

All conditions are put to the folder before the run. The settings are read there, and
whether the results file can be opened is decided there, since a log file that is made
in between gives no path another place. The one thing that has to be assumed is that
the log file is not the results file. A file that can be opened can also be written to
at a desk, so a run that was to save fails by the results file only if this cannot be
opened.

## Main definitions

* `Outcome.text`: The result as text.
* `Settings.LogsApart`: Records and results are not appended at one place.
* `Request.Succeeds`: What it takes for a run to succeed.
* `HasEffects`: How a run ended, and what it did to the files.

## Theorems

* `logsApart_of_place_ne`: Names that keep the two apart.
* `Effects.toOption_read`: What the results file holds after a run.
* `status_upshot_iff`: When a run succeeds.
* `execute_effects`: Every run has its effects.
-/

namespace PolyCalc

/-- The result as text: of a division the quotient, also if there is a remainder. -/
def Outcome.text : Outcome → String
  | polynomial p => p.text
  | division d => d.quotient.text
  | value x => Binary64.decimalText x

theorem Outcome.resultLine_eq (outcome : Outcome) :
    outcome.resultLine = "Result: " ++ outcome.text := by
  cases outcome with
  | polynomial | division | value => rfl

theorem Outcome.newline_not_mem_text (outcome : Outcome) : '\n' ∉ outcome.text.toList := by
  have h := outcome.newline_not_mem_resultLine
  rw [resultLine_eq, String.toList_append] at h
  exact fun hmem => h (List.mem_append_right _ hmem)

/-- Records and results are not appended at one place. -/
def Settings.LogsApart (s : Settings) (folder : Folder) : Prop :=
  ∀ place, s.logPlace folder = some place → folder.target s.resultsFile ≠ some place

/-- Paths that spell two places keep records and results apart in every folder. -/
theorem Settings.logsApart_of_place_ne {s : Settings} {log : String} {logPath resultsPath : Path}
    (hfile : s.logFile = some log) (hlog : Path.ofText log = .ok logPath)
    (hresults : Path.ofText s.resultsFile = .ok resultsPath)
    (hne : logPath.place ≠ resultsPath.place) (folder : Folder) : s.LogsApart folder := by
  intro place hplace hsame
  rw [logPlace, hfile] at hplace
  refine hne ?_
  rw [← Folder.eq_place_of_target hlog hplace, ← Folder.eq_place_of_target hresults hsame]

/-- What it takes for a run to succeed with an outcome: there are a second operand and
    settings, the calculation succeeds, and the results file can be opened if the result
    is to be saved. -/
structure Request.Succeeds (r : Request) (folder : Folder) (s : Settings) (outcome : Outcome) :
    Prop where
  settings : r.settings folder = .ok s
  calculates : ∃ second events, r.second = some second
    ∧ calculate r.operation r.first second = .ok (outcome, events)
  opens : r.save = true → ∃ opened, folder.append s.resultsFile "" = .ok opened

/-- How a run ended, and what it did to the files. -/
structure HasEffects (r : Request) (before : Desk) (run : ExitStatus × Desk) : Prop where
  /-- The exit code is zero if the run succeeded. -/
  exitCode : run.1.code = 0 ↔ ∃ s outcome, r.Succeeds before.folder s outcome
  /-- The results file changes if a run succeeded that was to save. -/
  changes : ∀ s, r.settings before.folder = .ok s →
    ((run.2.folder.read s.resultsFile).toOption ≠ (before.folder.read s.resultsFile).toOption
      ↔ r.save = true ∧ ∃ outcome, r.Succeeds before.folder s outcome)
  /-- Then one line is appended to what it held. -/
  appended : ∀ s outcome, r.save = true → r.Succeeds before.folder s outcome →
    run.2.folder.read s.resultsFile
        = .ok ((before.folder.read s.resultsFile).toOption.getD ""
          ++ ("Result: " ++ outcome.text ++ "\n"))
      ∧ '\n' ∉ outcome.text.toList
  /-- No file is created or changed but these two. -/
  others : ∀ s, r.settings before.folder = .ok s → ∀ place,
    s.logPlace before.folder ≠ some place → before.folder.target s.resultsFile ≠ some place →
    run.2.folder.content? place = before.folder.content? place
  /-- None is if the second operand or the settings are missing. -/
  unready : r.second = none ∨ (∃ fault, r.settings before.folder = .error fault) →
    run.2.folder = before.folder
  /-- Only the log file is if the calculation fails. -/
  failed : ∀ s second rejection, r.settings before.folder = .ok s → r.second = some second →
    calculate r.operation r.first second = .error rejection → ∀ place,
    s.logPlace before.folder ≠ some place →
    run.2.folder.content? place = before.folder.content? place

/-! ## Changes -/

namespace Effects

variable {s : Settings} {saved : List String} {shown : String} {before after : Desk}

/-- What the results file holds after a run. Where there is no place for it, nothing may
    have been saved. -/
theorem toOption_read (h : Effects s saved shown before after)
    (hapart : s.LogsApart before.folder)
    (htarget : saved ≠ [] → (before.folder.target s.resultsFile).isSome = true) :
    (after.folder.read s.resultsFile).toOption
      = logged (before.folder.read s.resultsFile).toOption saved := by
  rw [Folder.toOption_read, Folder.toOption_read, ← h.folders.target_eq]
  cases hplace : before.folder.target s.resultsFile with
  | none =>
      have hsaved : saved = [] := by
        by_contra hne
        have hsome := htarget hne
        rw [hplace] at hsome
        cases hsome
      rw [hsaved, logged_nil]
      rfl
  | some place =>
      have hcontent := h.content place fun hlog => hapart place hlog hplace
      rw [if_pos hplace] at hcontent
      exact hcontent

end Effects

theorem logged_singleton_ne (content? : Option String) (line : String) :
    logged content? [line] ≠ content? := by
  intro h
  rw [logged_singleton] at h
  have hlength := congrArg (fun c => (c.getD "").length) h
  have hbreak : ("\n" : String).length = 1 := by decide
  simp only [Option.getD_some, String.length_append] at hlength
  omega

theorem ExitStatus.code_eq_zero_iff {status : ExitStatus} :
    status.code = 0 ↔ status = .success := by
  cases status with
  | success | failure | misuse => decide

namespace Request

variable {r : Request} {second file : String} {opens : Bool}

theorem status_upshot_iff :
    (r.upshot second file opens).status = .success
      ↔ (∃ outcome events, calculate r.operation r.first second = .ok (outcome, events))
        ∧ (r.save = true → opens = true) := by
  unfold upshot saving
  cases calculate r.operation r.first second with
  | error rejection => simp
  | ok reply =>
      rcases reply with ⟨outcome, events⟩
      by_cases hsave : r.save = true
      · cases opens <;> simp [hsave]
      · simp [hsave]

theorem saved_upshot_of_ok {outcome : Outcome} {events : List Event}
    (h : calculate r.operation r.first second = .ok (outcome, events)) (hsave : r.save = true)
    (hopens : opens = true) : (r.upshot second file opens).saved = [outcome.resultLine] := by
  simp only [upshot, h, saving, if_pos hsave, if_pos hopens]

/-- Nothing is saved by a run that was not to save, or failed. -/
theorem saved_upshot_of_not
    (h : ¬(r.save = true ∧ (r.upshot second file opens).status = .success)) :
    (r.upshot second file opens).saved = [] := by
  unfold upshot saving at h ⊢
  cases hcalculate : calculate r.operation r.first second with
  | error rejection => rfl
  | ok reply =>
      by_cases hsave : r.save = true
      · cases opens with
        | false => simp [hsave]
        | true => simp [hcalculate, hsave] at h
      · simp [hsave]

/-- A line is saved only where there is a place for it. -/
theorem opens_of_saved_upshot (h : (r.upshot second file opens).saved ≠ []) : opens = true := by
  have hsave := not_not.1 (mt saved_upshot_of_not h)
  exact (status_upshot_iff.1 hsave.2).2 hsave.1

/-- A run with an operand and settings succeeds if its upshot does. -/
theorem exists_succeeds_iff {folder : Folder} {s : Settings} (hsecond : r.second = some second)
    (hsettings : r.settings folder = .ok s) :
    (∃ outcome, r.Succeeds folder s outcome)
      ↔ (r.upshot second s.resultsFile (folder.target s.resultsFile).isSome).status = .success := by
  rw [status_upshot_iff]
  constructor
  · rintro ⟨outcome, hsettings, ⟨other, events, hother, hcalculate⟩, hopens⟩
    cases hsecond.symm.trans hother
    exact ⟨⟨outcome, events, hcalculate⟩,
      fun hsave => Folder.exists_append_eq_ok_iff.1 (hopens hsave)⟩
  · rintro ⟨⟨outcome, events, hcalculate⟩, hopens⟩
    exact ⟨outcome, hsettings, ⟨second, events, hsecond, hcalculate⟩,
      fun hsave => Folder.exists_append_eq_ok_iff.2 (hopens hsave)⟩

end Request

/-! ## The effects of every run -/

/-- A run that lacks an operand or settings fails and leaves all files alone. -/
theorem hasEffects_of_unready {r : Request} {before after : Desk}
    (h : r.second = none ∨ ∃ fault, r.settings before.folder = .error fault)
    (hfolder : after.folder = before.folder) : HasEffects r before (.failure, after) := by
  have hfails : ∀ s outcome, ¬r.Succeeds before.folder s outcome := by
    intro s outcome hsucceeds
    rcases hsucceeds.calculates with ⟨second, events, hsecond, -⟩
    rcases h with hnone | ⟨fault, hfault⟩
    · cases hnone.symm.trans hsecond
    · cases hfault.symm.trans hsucceeds.settings
  exact
    { exitCode := iff_of_false Nat.one_ne_zero fun ⟨s, outcome, hsucceeds⟩ =>
        hfails s outcome hsucceeds
      changes := by
        intro s _
        rw [hfolder]
        exact iff_of_false (fun hne => hne rfl) fun ⟨_, outcome, hsucceeds⟩ =>
          hfails s outcome hsucceeds
      appended := fun s outcome _ hsucceeds => absurd hsucceeds (hfails s outcome)
      others := fun _ _ _ _ _ => by rw [hfolder]
      unready := fun _ => hfolder
      failed := fun _ _ _ _ _ _ _ _ => by rw [hfolder] }

/-- A run with settings has done to the files what its upshot says. -/
theorem hasEffects_of_effects {r : Request} {before after : Desk} {second : String} {s : Settings}
    (hsecond : r.second = some second) (hsettings : r.settings before.folder = .ok s)
    (hapart : s.LogsApart before.folder) {u : Upshot}
    (hu : r.upshot second s.resultsFile (before.folder.target s.resultsFile).isSome = u)
    (heffects : Effects s u.saved u.shown before after) :
    HasEffects r before (u.status, after) := by
  have hsame : ∀ other, r.settings before.folder = .ok other → other = s := by
    intro other hother
    exact Except.ok.inj (hother.symm.trans hsettings)
  have hready : ¬(r.second = none ∨ ∃ fault, r.settings before.folder = .error fault) := by
    rintro (hnone | ⟨fault, hfault⟩)
    · cases hsecond.symm.trans hnone
    · cases hsettings.symm.trans hfault
  have hsucceeds := Request.exists_succeeds_iff hsecond hsettings
  rw [hu] at hsucceeds
  have hsaved : ∀ outcome, r.save = true → r.Succeeds before.folder s outcome →
      u.saved = [outcome.resultLine] := by
    rintro outcome hsave ⟨-, ⟨other, events, hother, hcalculate⟩, hopens⟩
    cases hsecond.symm.trans hother
    rw [← hu]
    exact Request.saved_upshot_of_ok hcalculate hsave
      (Folder.exists_append_eq_ok_iff.1 (hopens hsave))
  have hnothing : ¬(r.save = true ∧ u.status = .success) → u.saved = [] := by
    rw [← hu]
    exact Request.saved_upshot_of_not
  have hread := heffects.toOption_read hapart fun hne => Request.opens_of_saved_upshot (hu ▸ hne)
  exact
    { exitCode := by
        rw [ExitStatus.code_eq_zero_iff, ← hsucceeds]
        refine ⟨fun ⟨outcome, h⟩ => ⟨s, outcome, h⟩, fun ⟨other, outcome, h⟩ => ⟨outcome, ?_⟩⟩
        rcases hsame other h.settings with rfl
        exact h
      changes := by
        intro other hother
        rcases hsame other hother with rfl
        rw [hread, hsucceeds]
        by_cases hsave : r.save = true ∧ u.status = .success
        · rcases hsucceeds.2 hsave.2 with ⟨outcome, houtcome⟩
          rw [hsaved outcome hsave.1 houtcome]
          exact iff_of_true (logged_singleton_ne _ _) hsave
        · rw [hnothing hsave, logged_nil]
          exact iff_of_false (fun hne => hne rfl) hsave
      appended := by
        intro other outcome hsave houtcome
        rcases hsame other houtcome.settings with rfl
        rw [hsaved outcome hsave houtcome, logged_singleton, outcome.resultLine_eq] at hread
        exact ⟨toOption_eq_some_iff.1 hread, outcome.newline_not_mem_text⟩
      others := by
        intro other hother place hlog hresults
        rcases hsame other hother with rfl
        rw [heffects.content place hlog, if_neg hresults, logged_nil]
      unready := fun h => absurd h hready
      failed := by
        intro other text rejection hother htext hcalculate place hlog
        rcases hsame other hother with rfl
        cases hsecond.symm.trans htext
        have hnone : u.saved = [] := by
          rw [← hu, Request.upshot, hcalculate]
        rw [heffects.content place hlog, hnone, ite_self, logged_nil] }

/-- Every run of a command line that asks for a calculation has its effects, if the log
    file and the results file are two files, whatever interface understands it. -/
theorem execute_effects {interface : Interface} {arguments : List String} {r : Request}
    (h : interface.parse arguments = .ok (.calculation r)) (before : Desk)
    (hapart : ∀ s, r.settings before.folder = .ok s → s.LogsApart before.folder) :
    HasEffects r before ((execute arguments interface : StateM Desk ExitStatus).run before) := by
  unfold execute
  simp only [h]
  by_cases hready : r.second = none ∨ ∃ fault, r.settings before.folder = .error fault
  · rcases run_of_unready interface.layout hready with ⟨message, hrun⟩
    rw [hrun]
    exact hasEffects_of_unready hready rfl
  · rw [not_or, not_exists] at hready
    rcases Option.ne_none_iff_exists'.1 hready.1 with ⟨second, hsecond⟩
    cases hsettings : r.settings before.folder with
    | error fault => exact absurd hsettings (hready.2 fault)
    | ok s =>
        rcases run_effects interface.layout hsecond hsettings rfl with ⟨hstatus, heffects⟩
        have heffects := hasEffects_of_effects hsecond hsettings (hapart s hsettings) rfl heffects
        rw [← hstatus] at heffects
        exact heffects

/-- The quotient is saved where the settings say, though there is a remainder. -/
theorem execute_effects_divide :
    Interface.standard.parse ["divide", "x^2+1", "x-1", "--save", "-c", "c"]
        = .ok (.calculation ⟨.divide, "x^2+1", some "x-1", some "c", true, false⟩)
      ∧ HasEffects ⟨.divide, "x^2+1", some "x-1", some "c", true, false⟩
        { folder := .ofFiles [("c", "logging\nfile: log.txt\nresults\nfile: out.txt\n")] }
        ((execute ["divide", "x^2+1", "x-1", "--save", "-c", "c"] : StateM Desk ExitStatus).run
          { folder := .ofFiles [("c", "logging\nfile: log.txt\nresults\nfile: out.txt\n")] }) := by
  have hparse : Interface.standard.parse ["divide", "x^2+1", "x-1", "--save", "-c", "c"]
      = .ok (.calculation ⟨.divide, "x^2+1", some "x-1", some "c", true, false⟩) := by
    decide +kernel
  refine ⟨hparse, execute_effects hparse _ fun s hs => ?_⟩
  have hsettings : Request.settings ⟨.divide, "x^2+1", some "x-1", some "c", true, false⟩
      (.ofFiles [("c", "logging\nfile: log.txt\nresults\nfile: out.txt\n")])
      = .ok { logFile := some "log.txt", resultsFile := "out.txt" } := by
    decide +kernel
  cases hsettings.symm.trans hs
  exact Settings.logsApart_of_place_ne rfl rfl rfl (by decide) _

end PolyCalc
