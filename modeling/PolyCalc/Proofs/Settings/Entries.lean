import PolyCalc.Proofs.Fallible
import PolyCalc.Settings.Basic

/-!
# What an Entry Does

One entry of a settings document changes one setting or has one fault, and which of the
two does not depend on the settings that it is put into effect on. `Applied` lists what
an entry can do, with the setting that it replaces, and `IsFaulty` lists the faults, each
with the entries that have it. `apply_eq_ok_iff` and `apply_eq_error_iff` say that these
lists are exactly what happens, in sections that are known.

The words for a verbosity, and those for no log file, are read in any case. Here they
are a table of words, and a word is in it if it has the same letters.

## Main definitions

* `SameInAnyCase`: Equality up to the case of letters.
* `Verbosity.words`, `Verbosity.IsLevel`: The words for a verbosity.
* `NamesNoFile`: The values that name no log file.
* `IsKnownTitle`: The sections of settings.
* `Applied`: What an entry does.
* `IsFaulty`: The faults of entries.
* `IsValid`: The entries that have no fault.

## Theorems

* `Verbosity.ofName_eq_ok_iff`: The verbosity of a word is that of the table.
* `apply_eq_ok_iff`, `apply_eq_error_iff`: What happens to an entry.
* `exists_applied_iff`: The entries that are valid are those that do something.
-/

namespace PolyCalc

/-- Two words are the same but for the case of their letters. -/
def SameInAnyCase (word other : String) : Prop :=
  word.toList.map Char.toLower = other.toList.map Char.toLower

/-! ## Words for a verbosity -/

namespace Verbosity

/-- The words for a verbosity. -/
def words : List (String × Verbosity) :=
  [("debug", .upTo .debug), ("info", .upTo .info), ("warn", .upTo .warn),
    ("error", .upTo .error), ("off", .off), ("none", .off)]

/-- A word stands for a verbosity. -/
def IsLevel (word : String) (v : Verbosity) : Prop :=
  ∃ name, (name, v) ∈ words ∧ SameInAnyCase word name

/-- The words of the table are written in small letters. -/
theorem isLevel_iff (word : String) (v : Verbosity) :
    IsLevel word v ↔ ∃ name, (name, v) ∈ words ∧ word.toList.map Char.toLower = name.toList := by
  have hsmall : ∀ entry ∈ words, entry.1.toList.map Char.toLower = entry.1.toList := by decide
  refine exists_congr fun name => and_congr_right fun hname => ?_
  rw [SameInAnyCase, hsmall _ hname]

/-- The verbosity of a word is that of the same word in the table. -/
theorem ofName_eq_ok_iff {word : String} {v : Verbosity} :
    ofName word = .ok v ↔ IsLevel word v := by
  rw [isLevel_iff]
  unfold ofName
  generalize word.toList.map Char.toLower = lower
  constructor
  · intro h
    simp only at h
    split at h
    · rename_i hlower
      cases h
      exact ⟨"debug", by decide, hlower⟩
    split at h
    · rename_i hlower
      cases h
      exact ⟨"info", by decide, hlower⟩
    split at h
    · rename_i hlower
      cases h
      exact ⟨"warn", by decide, hlower⟩
    split at h
    · rename_i hlower
      cases h
      exact ⟨"error", by decide, hlower⟩
    split at h
    · rename_i hlower
      cases h
      rcases hlower with hlower | hlower
      · exact ⟨"off", by decide, hlower⟩
      · exact ⟨"none", by decide, hlower⟩
    · cases h
  · rintro ⟨name, hname, rfl⟩
    simp only [words, List.mem_cons, Prod.mk.injEq, List.not_mem_nil, or_false] at hname
    rcases hname with ⟨rfl, rfl⟩ | ⟨rfl, rfl⟩ | ⟨rfl, rfl⟩ | ⟨rfl, rfl⟩ | ⟨rfl, rfl⟩ | ⟨rfl, rfl⟩
      <;> rfl

/-- Any other word is told as it is. -/
theorem ofName_eq_error_iff {word : String} {fault : SettingsFault} :
    ofName word = .error fault ↔ fault = .unknownLevel word ∧ ∀ v, ¬IsLevel word v := by
  simp only [← ofName_eq_ok_iff]
  unfold ofName
  generalize word.toList.map Char.toLower = lower
  simp only
  repeat' split
  all_goals simp [pure, Except.pure, throw, throwThe, MonadExceptOf.throw, eq_comm]

end Verbosity

namespace Settings

/-! ## Values -/

/-- A value that names no log file. -/
def NamesNoFile (value : String) : Prop :=
  value = "" ∨ SameInAnyCase value "none" ∨ SameInAnyCase value "off"

instance (value : String) : Decidable (NamesNoFile value) :=
  inferInstanceAs (Decidable (_ = _ ∨ _ = _ ∨ _ = _))

theorem readLogFile_eq (value : String) :
    readLogFile value = if NamesNoFile value then none else some value := by
  have hnone : "none".toList.map Char.toLower = "none".toList := by decide
  have hoff : "off".toList.map Char.toLower = "off".toList := by decide
  unfold readLogFile NamesNoFile SameInAnyCase
  simp only [hnone, hoff, List.map_eq_nil_iff, String.toList_eq_nil_iff]

theorem readSwitch_eq_ok_iff {word : String} {b : Bool} :
    readSwitch word = .ok b ↔ word = if b then "true" else "false" := by
  unfold readSwitch
  by_cases htrue : word = "true"
  · cases b <;> simp [htrue, pure, Except.pure]
  · by_cases hfalse : word = "false"
    · cases b <;> simp [hfalse, pure, Except.pure]
    · cases b <;> simp [htrue, hfalse, throw, throwThe, MonadExceptOf.throw]

theorem readSwitch_eq_error_iff {word : String} {fault : SettingsFault} :
    readSwitch word = .error fault
      ↔ fault = .invalidSwitch word ∧ word ≠ "true" ∧ word ≠ "false" := by
  unfold readSwitch
  by_cases htrue : word = "true"
  · simp [htrue, pure, Except.pure]
  · by_cases hfalse : word = "false"
    · simp [hfalse, pure, Except.pure]
    · simp [htrue, hfalse, throw, throwThe, MonadExceptOf.throw, eq_comm]

/-! ## Entries -/

/-- The title of a section of settings. -/
def IsKnownTitle (title : String) : Prop := title = "logging" ∨ title = "results"

instance (title : String) : Decidable (IsKnownTitle title) :=
  inferInstanceAs (Decidable (_ ∨ _))

/-- What an entry does. -/
inductive Applied (s : Settings) : String → String → String → Settings → Prop where
  | level (word : String) (v : Verbosity) (h : Verbosity.IsLevel word v) :
      Applied s "logging" "level" word { s with verbosity := v }
  | console (b : Bool) :
      Applied s "logging" "console" (if b then "true" else "false") { s with console := b }
  | logFile (value : String) :
      Applied s "logging" "file" value
        { s with logFile := if NamesNoFile value then none else some value }
  | resultsFile (value : String) (h : value ≠ "") :
      Applied s "results" "file" value { s with resultsFile := value }

/-- The faults of entries in sections that are known. -/
inductive IsFaulty : String → String → String → SettingsFault → Prop where
  | loggingKey (key value : String) (hlevel : key ≠ "level") (hconsole : key ≠ "console")
      (hfile : key ≠ "file") : IsFaulty "logging" key value (.unknownKey key "logging")
  | resultsKey (key value : String) (hfile : key ≠ "file") :
      IsFaulty "results" key value (.unknownKey key "results")
  | level (word : String) (h : ∀ v, ¬Verbosity.IsLevel word v) :
      IsFaulty "logging" "level" word (.unknownLevel word)
  | console (word : String) (htrue : word ≠ "true") (hfalse : word ≠ "false") :
      IsFaulty "logging" "console" word (.invalidSwitch word)
  | resultsFile : IsFaulty "results" "file" "" .emptyResultsFile

/-- An entry that can be put into effect: a known level, a switch, any log file, or a
    results file that has a name. -/
inductive IsValid : String → String → String → Prop where
  | level (word : String) (v : Verbosity) (h : Verbosity.IsLevel word v) :
      IsValid "logging" "level" word
  | console (word : String) (h : word = "true" ∨ word = "false") :
      IsValid "logging" "console" word
  | logFile (value : String) : IsValid "logging" "file" value
  | resultsFile (value : String) (h : value ≠ "") : IsValid "results" "file" value

section

variable (s : Settings) {title key value : String}

/-- The keys of the logging section. -/
theorem apply_logging (key value : String) :
    s.apply "logging" key value
      = if key = "level" then (Verbosity.ofName value).map fun v => { s with verbosity := v }
        else if key = "console" then (readSwitch value).map fun b => { s with console := b }
        else if key = "file" then .ok { s with logFile := readLogFile value }
        else .error (.unknownKey key "logging") := by
  unfold apply Setting.ofKey
  rw [if_pos rfl]
  by_cases hlevel : key = "level"
  · simp only [if_pos hlevel]
    cases Verbosity.ofName value <;> rfl
  · by_cases hconsole : key = "console"
    · simp only [if_neg hlevel, if_pos hconsole]
      cases readSwitch value <;> rfl
    · by_cases hfile : key = "file"
      · simp only [if_neg hlevel, if_neg hconsole, if_pos hfile]
        rfl
      · simp only [if_neg hlevel, if_neg hconsole, if_neg hfile]
        rfl

/-- The keys of the results section. -/
theorem apply_results (key value : String) :
    s.apply "results" key value
      = if key = "file" then
          if value = "" then .error .emptyResultsFile else .ok { s with resultsFile := value }
        else .error (.unknownKey key "results") := by
  unfold apply Setting.ofKey
  rw [if_neg (by decide), if_pos rfl]
  by_cases hfile : key = "file"
  · by_cases hvalue : value = ""
    · simp only [if_pos hfile, if_pos hvalue]
      rfl
    · simp only [if_pos hfile, if_neg hvalue]
      rfl
  · simp only [if_neg hfile]
    rfl

/-- What an entry does when it is put into effect. -/
theorem apply_eq_ok_iff (htitle : IsKnownTitle title) {s' : Settings} :
    s.apply title key value = .ok s' ↔ Applied s title key value s' := by
  constructor
  · intro h
    rcases htitle with rfl | rfl
    · rw [apply_logging] at h
      split at h
      · rename_i hkey
        rcases map_eq_ok_iff.1 h with ⟨v, hv, rfl⟩
        exact hkey ▸ .level value v (Verbosity.ofName_eq_ok_iff.1 hv)
      split at h
      · rename_i hkey
        rcases map_eq_ok_iff.1 h with ⟨b, hb, rfl⟩
        rw [hkey, readSwitch_eq_ok_iff.1 hb]
        exact .console b
      split at h
      · rename_i hkey
        cases h
        rw [hkey, readLogFile_eq]
        exact .logFile value
      · cases h
    · rw [apply_results] at h
      split at h
      · rename_i hkey
        split at h
        · cases h
        · rename_i hvalue
          cases h
          exact hkey ▸ .resultsFile value hvalue
      · cases h
  · intro h
    cases h with
    | level word v h =>
        rw [apply_logging, if_pos rfl, Verbosity.ofName_eq_ok_iff.2 h]
        rfl
    | console b =>
        rw [apply_logging, if_neg (by decide), if_pos rfl, readSwitch_eq_ok_iff.2 rfl]
        rfl
    | logFile value =>
        rw [apply_logging, if_neg (by decide), if_neg (by decide), if_pos rfl, readLogFile_eq]
    | resultsFile value h => rw [apply_results, if_pos rfl, if_neg h]

/-- The fault of an entry when it is put into effect. -/
theorem apply_eq_error_iff (htitle : IsKnownTitle title) {fault : SettingsFault} :
    s.apply title key value = .error fault ↔ IsFaulty title key value fault := by
  constructor
  · intro h
    rcases htitle with rfl | rfl
    · rw [apply_logging] at h
      split at h
      · rename_i hkey
        rcases Verbosity.ofName_eq_error_iff.1 (map_eq_error_iff.1 h) with ⟨rfl, hnone⟩
        exact hkey ▸ .level value hnone
      split at h
      · rename_i hkey
        rcases readSwitch_eq_error_iff.1 (map_eq_error_iff.1 h) with ⟨rfl, htrue, hfalse⟩
        exact hkey ▸ .console value htrue hfalse
      split at h
      · cases h
      · rename_i hlevel hconsole hfile
        cases h
        exact .loggingKey key value hlevel hconsole hfile
    · rw [apply_results] at h
      split at h
      · rename_i hkey
        split at h
        · rename_i hvalue
          cases h
          exact hkey ▸ hvalue ▸ .resultsFile
        · cases h
      · rename_i hfile
        cases h
        exact .resultsKey key value hfile
  · intro h
    cases h with
    | loggingKey key value hlevel hconsole hfile =>
        rw [apply_logging, if_neg hlevel, if_neg hconsole, if_neg hfile]
    | resultsKey key value hfile => rw [apply_results, if_neg hfile]
    | level word h =>
        rw [apply_logging, if_pos rfl, Verbosity.ofName_eq_error_iff.2 ⟨rfl, h⟩]
        rfl
    | console word htrue hfalse =>
        rw [apply_logging, if_neg (by decide), if_pos rfl,
          readSwitch_eq_error_iff.2 ⟨rfl, htrue, hfalse⟩]
        rfl
    | resultsFile => rw [apply_results, if_pos rfl, if_pos rfl]

/-- The entries that are valid are those that do something. -/
theorem exists_applied_iff : (∃ s', Applied s title key value s') ↔ IsValid title key value := by
  constructor
  · rintro ⟨s', h⟩
    cases h with
    | level _ v h => exact .level _ v h
    | console b =>
        refine .console _ ?_
        cases b with
        | true => exact .inl rfl
        | false => exact .inr rfl
    | logFile => exact .logFile _
    | resultsFile _ h => exact .resultsFile _ h
  · intro h
    cases h with
    | level _ v h => exact ⟨_, .level _ v h⟩
    | console _ h =>
        rcases h with rfl | rfl
        · exact ⟨_, .console true⟩
        · exact ⟨_, .console false⟩
    | logFile => exact ⟨_, .logFile _⟩
    | resultsFile _ h => exact ⟨_, .resultsFile _ h⟩

theorem IsValid.isKnownTitle (h : IsValid title key value) : IsKnownTitle title := by
  cases h with
  | level | console | logFile => exact .inl rfl
  | resultsFile => exact .inr rfl

end

end Settings

end PolyCalc
