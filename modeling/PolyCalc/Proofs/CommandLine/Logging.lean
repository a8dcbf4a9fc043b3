import PolyCalc.Proofs.CommandLine.Effects

/-!
# Logging Influences Nothing

Two runs that differ in how they are logged come to the same: they end with the same
exit code, show the same, and save the same lines. The level of the log does not matter,
nor whether there is a log file, or one that can be opened.

This compares two runs, but each of them is known by its upshot, which is a function of
the request, the results file, and whether there is a place for it. So what has to be
compared is these three. The request is the same up to the settings file, of which a
run takes no more than the settings. Whether there is a place depends on the folders, and
those do not depend on what is in a settings file. Both runs have one interface, which may
be any: how it words its texts and lays out its records makes no difference.

Records on the console would be seen, so the console has to be off. The log file must be
another one than the results file, or the records would be found among the results.

## Main definitions

* `QuietRun`: A run with its records out of the way.
* `DifferInLogging`: Two such runs that may be logged differently.
* `SameResults`: What two runs have in common.

## Theorems

* `Request.upshot_congr`: The settings file is not part of the upshot.
* `QuietRun.exists_upshot`: A run ends with an upshot of its own.
* `logging_influences_nothing`: Two runs that differ in logging have the same results.
-/

namespace PolyCalc

/-- An invocation without the settings file. -/
def Invocation.withoutConfig : Invocation → Invocation
  | calculation r => calculation { r with config := none }
  | help => help
  | version => version

/-- A run of a command line at a desk, with settings by which its records are neither
    shown nor mixed with the results. -/
structure QuietRun (interface : Interface) where
  arguments : List String
  before : Desk
  settings : Settings
  /-- These are the settings of a run that calculates. -/
  found : ∀ r, interface.parse arguments = .ok (.calculation r) →
    r.settings before.folder = .ok settings
  console : settings.console = false
  apart : settings.LogsApart before.folder

variable {interface : Interface}

namespace QuietRun

/-- The status of a run, and the desk after it. -/
def ended (run : QuietRun interface) : ExitStatus × Desk :=
  (execute run.arguments interface : StateM Desk ExitStatus).run run.before

/-- What the results file holds at a desk, if there is one. -/
def results? (run : QuietRun interface) (desk : Desk) : Option String :=
  (desk.folder.read run.settings.resultsFile).toOption

end QuietRun

/-- Two runs that differ in the settings of the log only: their command lines ask for the
    same, with settings that name the same results file, and the same files are there
    before. The settings may come from one file with two contents, or from two files that
    lie side by side. -/
structure DifferInLogging (a b : QuietRun interface) : Prop where
  invocation : (interface.parse a.arguments).map Invocation.withoutConfig
    = (interface.parse b.arguments).map Invocation.withoutConfig
  resultsFile : a.settings.resultsFile = b.settings.resultsFile
  files : ∀ place,
    (a.before.folder.content? place).isSome = (b.before.folder.content? place).isSome

/-- Two runs end with the same exit code, print the same to the output, and append the
    same lines to the results file. -/
structure SameResults (a b : QuietRun interface) : Prop where
  exitCode : a.ended.1.code = b.ended.1.code
  output : ∃ shown, a.ended.2.text .output = a.before.text .output ++ shown
    ∧ b.ended.2.text .output = b.before.text .output ++ shown
  saved : ∃ lines, a.results? a.ended.2 = logged (a.results? a.before) lines
    ∧ b.results? b.ended.2 = logged (b.results? b.before) lines
  /-- So the results file holds the same if it did before. Of runs that start from the same
      files, up to what their settings files hold, it did unless the results file is itself
      a settings file, with two contents. -/
  results : a.results? a.before = b.results? b.before →
    a.results? a.ended.2 = b.results? b.ended.2

/-! ## The upshot of a command line -/

/-- What a run comes to for a command line as it is understood, if the results file is
    `file`, which can be opened or not. -/
def upshotOf (interface : Interface) (parsed : Except String Invocation) (file : String)
    (opens : Bool) : Upshot :=
  match parsed with
  | .error _ => { status := .misuse }
  | .ok .help => { status := .success, shown := interface.help ++ "\n" }
  | .ok .version => { status := .success, shown := interface.version ++ "\n" }
  | .ok (.calculation r) =>
    match r.second with
    | none => { status := .failure }
    | some second => r.upshot second file opens

/-- The settings file has no part in it. -/
theorem upshotOf_withoutConfig (parsed : Except String Invocation) (file : String)
    (opens : Bool) :
    upshotOf interface (parsed.map Invocation.withoutConfig) file opens
      = upshotOf interface parsed file opens := by
  cases parsed with
  | error refusal => rfl
  | ok invocation =>
      cases invocation with
      | help | version => rfl
      | calculation r => rfl

theorem opens_of_saved_upshotOf {parsed : Except String Invocation} {file : String}
    {opens : Bool} (h : (upshotOf interface parsed file opens).saved ≠ []) : opens = true := by
  unfold upshotOf at h
  split at h
  · exact absurd rfl h
  · exact absurd rfl h
  · exact absurd rfl h
  · split at h
    · exact absurd rfl h
    · exact Request.opens_of_saved_upshot h

namespace QuietRun

/-- What a run comes to. -/
def upshot (run : QuietRun interface) : Upshot :=
  upshotOf interface (interface.parse run.arguments) run.settings.resultsFile
    (run.before.folder.target run.settings.resultsFile).isSome

/-- A run ends with the status and the effects of its upshot. -/
theorem ended_effects (run : QuietRun interface) :
    run.ended.1 = run.upshot.status
      ∧ Effects run.settings run.upshot.saved run.upshot.shown run.before run.ended.2 := by
  unfold ended upshot upshotOf execute
  -- A run that does not calculate prints one text and ends.
  cases hparse : interface.parse run.arguments with
  | error refusal =>
      refine (show Leaves run.before.folder _ _ _ _ fun status => status = _ from ?_)
        run.before (.refl _)
      exact leaves_bind_pure (leaves_printLine_error _) fun _ _ => rfl
  | ok invocation =>
      cases invocation with
      | help | version =>
          refine (show Leaves run.before.folder _ _ _ _ fun status => status = _ from ?_)
            run.before (.refl _)
          exact leaves_bind_pure (leaves_printLine_output _) fun _ _ => rfl
      | calculation r =>
          simp only
          cases hsecond : r.second with
          | none =>
              rcases run_of_unready interface.layout (.inl hsecond) with ⟨message, hrun⟩
              rw [hrun]
              refine ⟨rfl, .of_folder_eq rfl fun _ => ?_⟩
              rw [Desk.text_print]
              rfl
          -- Only here the settings matter, and they are the ones that the run has found.
          | some second => exact run_effects interface.layout hsecond (run.found r hparse) rfl

/-- The results file is left with the lines of the upshot. -/
theorem results?_ended (run : QuietRun interface) :
    run.results? run.ended.2 = logged (run.results? run.before) run.upshot.saved :=
  run.ended_effects.2.toOption_read run.apart fun h => opens_of_saved_upshotOf h

end QuietRun

/-- Runs that differ in logging have one upshot. -/
theorem DifferInLogging.upshot_eq {a b : QuietRun interface} (h : DifferInLogging a b) :
    a.upshot = b.upshot := by
  have htarget := (Folder.sameFolders_of_isSome h.files).target_eq b.settings.resultsFile
  -- The settings files of the two may differ, so they are taken out before comparing.
  rw [QuietRun.upshot, QuietRun.upshot, h.resultsFile, htarget, ← upshotOf_withoutConfig,
    h.invocation, upshotOf_withoutConfig]

/-- The settings of the log influence nothing but the log. -/
theorem logging_influences_nothing {a b : QuietRun interface} (h : DifferInLogging a b) :
    SameResults a b where
  exitCode := by
    rw [a.ended_effects.1, b.ended_effects.1, h.upshot_eq]
  output :=
    ⟨b.upshot.shown, h.upshot_eq ▸ a.ended_effects.2.output a.console,
      b.ended_effects.2.output b.console⟩
  saved := ⟨b.upshot.saved, h.upshot_eq ▸ a.results?_ended, b.results?_ended⟩
  results hbefore := by
    rw [a.results?_ended, b.results?_ended, h.upshot_eq, hbefore]

/-- A run without a log and one that records every step have the same results. -/
theorem logging_influences_nothing_levels :
    ∃ a b : QuietRun .standard, a.settings.verbosity = .off ∧ b.settings.verbosity = .upTo .debug
      ∧ a.arguments = ["divide", "x^2+1", "x-1", "--save", "-c", "c"]
      ∧ DifferInLogging a b ∧ SameResults a b := by
  have hparse : Interface.standard.parse ["divide", "x^2+1", "x-1", "--save", "-c", "c"]
      = .ok (.calculation ⟨.divide, "x^2+1", some "x-1", some "c", true, false⟩) := by
    decide +kernel
  let a : QuietRun .standard :=
    { arguments := ["divide", "x^2+1", "x-1", "--save", "-c", "c"]
      before := { folder := ⟨[(⟨.above 0, ["c"]⟩, "logging\nlevel: off\n")]⟩ }
      settings := { verbosity := .off }
      found := by
        intro r hr
        cases hparse.symm.trans hr
        decide +kernel
      console := rfl
      apart := Settings.logsApart_of_place_ne rfl rfl rfl (by decide) _ }
  let b : QuietRun .standard :=
    { arguments := ["divide", "x^2+1", "x-1", "--save", "-c", "c"]
      before := { folder := ⟨[(⟨.above 0, ["c"]⟩, "logging\nlevel: debug\nfile: log.txt\n")]⟩ }
      settings := { verbosity := .upTo .debug, logFile := some "log.txt" }
      found := by
        intro r hr
        cases hparse.symm.trans hr
        decide +kernel
      console := rfl
      apart := Settings.logsApart_of_place_ne rfl rfl rfl (by decide) _ }
  have hdiffer : DifferInLogging a b :=
    { invocation := rfl
      resultsFile := rfl
      files := by
        intro place
        refine Bool.eq_iff_iff.2 ?_
        rw [Folder.content?, Folder.content?, Association.isSome_lookup_iff,
          Association.isSome_lookup_iff]
        rfl }
  exact ⟨a, b, rfl, rfl, rfl, hdiffer, logging_influences_nothing hdiffer⟩

end PolyCalc
