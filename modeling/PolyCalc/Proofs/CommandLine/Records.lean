import PolyCalc.Journal
import PolyCalc.Proofs.Calculator.Session
import PolyCalc.Proofs.Folder.Target

/-!
# What Records Leave Behind

A run does two kinds of things: it shows and saves a result, and it keeps a journal of
what happens. Of the journal nothing should be seen but its records, in the log file or
on the console. `Effects` is the measure for this. It says what a stretch of a run has
done to a desk, leaving out what the log file holds, and leaving out the output where
records are shown there too: which lines were appended to the results file, and which
text was printed.

Effects of consecutive stretches add up, so they can be found along the computation.
`Leaves` is the triple for that, of the shape known from program logics: at every desk
with the same folders, a computation has an answer of a certain kind and certain
effects. Everything that a journal does has the effects of doing nothing.

The folders are part of the measure because they decide what can be appended to. A log
file that is opened on the way could make room for the results file, or block it, and
does neither.

## Main definitions

* `Settings.logPlace`: The place of the log file.
* `Effects`: What a stretch of a run has done, its records apart.
* `Leaves`: A computation has an answer of a certain kind and certain effects.
* `Journal.IsKeptFor`: A journal writes where its settings say.

## Theorems

* `Effects.trans`: Effects add up.
* `leaves_bind`: Effects along a sequence.
* `leaves_recordIn`, `leaves_start`: What a journal does leaves nothing but records.
-/

namespace PolyCalc

/-- The place that records are appended at, if there is one. -/
def Settings.logPlace (s : Settings) (folder : Folder) : Option Place :=
  s.logFile.bind folder.target

/-- What a stretch of a run has done at a desk when the records of the journal are left
    out: the lines `saved` are appended to the results file, and `shown` is printed. -/
structure Effects (s : Settings) (saved : List String) (shown : String) (before after : Desk) :
    Prop where
  folders : before.folder.SameFolders after.folder
  /-- What the log file holds is left open. -/
  content : ∀ place, s.logPlace before.folder ≠ some place →
    after.folder.content? place = logged (before.folder.content? place)
      (if before.folder.target s.resultsFile = some place then saved else [])
  /-- The output is left open where records are shown on the console. -/
  output : s.console = false → after.text .output = before.text .output ++ shown

/-! ## Desks -/

theorem Desk.text_print (desk : Desk) (stream target : Stream) (text : String) :
    ({ desk with printed := desk.printed ++ [(stream, text)] } : Desk).text target
      = desk.text target ++ if stream = target then text else "" := by
  unfold Desk.text
  simp only [List.filter_append, List.map_append, String.join_append]
  by_cases hstream : stream = target
  · simp [hstream, String.join]
  · simp [hstream, String.join]

theorem run_print (desk : Desk) (stream : Stream) (text : String) :
    (Host.print stream text : StateM Desk _).run desk
      = ((), { desk with printed := desk.printed ++ [(stream, text)] }) := rfl

namespace Folder.SameFolders

theorem refl (folder : Folder) : SameFolders folder folder := fun _ _ => Iff.rfl

theorem trans {a b c : Folder} (h : SameFolders a b) (h' : SameFolders b c) : SameFolders a c :=
  fun q hq => (h q hq).trans (h' q hq)

end Folder.SameFolders

/-! ## Effects -/

namespace Effects

variable {s : Settings} {saved more : List String} {shown rest : String}
variable {before middle after : Desk}

/-- Nothing is saved where the files stay as they are. -/
theorem of_folder_eq (hfolder : after.folder = before.folder)
    (houtput : s.console = false → after.text .output = before.text .output ++ shown) :
    Effects s [] shown before after where
  folders := hfolder ▸ .refl _
  content place _ := by
    rw [hfolder, ite_self, logged_nil]
  output := houtput

theorem refl (s : Settings) (desk : Desk) : Effects s [] "" desk desk :=
  of_folder_eq rfl fun _ => (String.append_empty).symm

/-- The places that paths lead to are the same all along a run. -/
theorem logPlace_eq (h : Effects s saved shown before after) :
    s.logPlace before.folder = s.logPlace after.folder := by
  unfold Settings.logPlace
  rw [funext h.folders.target_eq]

/-- Effects of consecutive stretches add up. -/
theorem trans (h : Effects s saved shown before middle) (h' : Effects s more rest middle after) :
    Effects s (saved ++ more) (shown ++ rest) before after where
  folders := h.folders.trans h'.folders
  content place hplace := by
    rw [h'.content place (h.logPlace_eq ▸ hplace), h.content place hplace,
      ← h.folders.target_eq, ← logged_append]
    split
    · rfl
    · rfl
  output hconsole := by
    rw [h'.output hconsole, h.output hconsole, String.append_assoc]

end Effects

/-- At every desk with the folders of `base`, a computation has an answer of the kind
    `answer` and the effects of saving `saved` and showing `shown`. -/
def Leaves {α : Type} (base : Folder) (s : Settings) (saved : List String) (shown : String)
    (x : StateM Desk α) (answer : α → Prop) : Prop :=
  ∀ before : Desk, base.SameFolders before.folder →
    answer (x.run before).1 ∧ Effects s saved shown before (x.run before).2

section Rules

variable {α β : Type} {base : Folder} {s : Settings} {saved more : List String}
variable {shown rest : String} {answer kind : α → Prop} {next : β → Prop}

theorem leaves_pure {a : α} (h : answer a) : Leaves base s [] "" (pure a) answer :=
  fun before _ => ⟨h, .refl s before⟩

theorem leaves_bind {x : StateM Desk α} {f : α → StateM Desk β}
    (hx : Leaves base s saved shown x answer)
    (hf : ∀ a, answer a → Leaves base s more rest (f a) next) :
    Leaves base s (saved ++ more) (shown ++ rest) (x >>= f) next := by
  intro before hbase
  rcases hx before hbase with ⟨ha, heffects⟩
  -- What comes first has left the folders as they are in `base`.
  rcases hf _ ha (x.run before).2 (hbase.trans heffects.folders) with ⟨hb, hrest⟩
  exact ⟨hb, heffects.trans hrest⟩

/-- What saves and shows nothing may come first. -/
theorem leaves_bind_quiet {x : StateM Desk α} {f : α → StateM Desk β}
    (hx : Leaves base s [] "" x answer)
    (hf : ∀ a, answer a → Leaves base s saved shown (f a) next) :
    Leaves base s saved shown (x >>= f) next := by
  have h := leaves_bind hx hf
  rwa [List.nil_append, String.empty_append] at h

theorem leaves_bind_pure {x : StateM Desk α} {f : α → β} (hx : Leaves base s saved shown x answer)
    (hf : ∀ a, answer a → next (f a)) :
    Leaves base s saved shown (x >>= fun a => pure (f a)) next := by
  have h := leaves_bind hx fun a ha => leaves_pure (hf a ha)
  rwa [List.append_nil, String.append_empty] at h

end Rules

/-! ## Records -/

section Records

variable {base : Folder} {s : Settings}

theorem leaves_clock : Leaves base s [] "" Host.clock fun _ => True :=
  fun before _ => ⟨trivial, .refl s before⟩

/-- A record on the stream of errors is not output. -/
theorem leaves_printLine_error (line : String) :
    Leaves base s [] "" (printLine .error line) fun _ => True := by
  refine fun before _ => ⟨trivial, .of_folder_eq rfl fun _ => ?_⟩
  unfold printLine
  rw [run_print, Desk.text_print]
  rfl

theorem leaves_printLine_console (hconsole : s.console = true) (stream : Stream) (line : String) :
    Leaves base s [] "" (printLine stream line) fun _ => True := by
  refine fun before _ => ⟨trivial, .of_folder_eq rfl fun hoff => ?_⟩
  rw [hconsole] at hoff
  cases hoff

/-- An append to the log file is made at its place or not at all. -/
theorem leaves_append_log {path : String} (hpath : s.logFile = some path) (text : String) :
    Leaves base s [] "" (Host.append path text) fun _ => True := by
  intro before _
  rw [run_append]
  cases happend : before.folder.append path text with
  | error cause => exact ⟨trivial, .refl s before⟩
  | ok folder =>
      rcases Folder.append_eq_ok_iff.1 happend with ⟨place, htarget, rfl⟩
      refine ⟨trivial, Folder.sameFolders_write htarget _, fun q hq => ?_,
        fun _ => (String.append_empty).symm⟩
      -- The place written at is that of the log file, which is left open.
      have hne : q ≠ place := by
        intro heq
        refine hq ?_
        rw [Settings.logPlace, hpath, Option.bind_some, htarget, heq]
      simp only [Folder.content?_write, if_neg hne, ite_self, logged_nil]

/-- A journal writes where its settings say. -/
structure Journal.IsKeptFor (j : Journal) (s : Settings) : Prop where
  console : j.console = s.console
  file : ∀ path, j.file = some path → s.logFile = some path

theorem leaves_recordEvent {j : Journal} (hj : j.IsKeptFor s) (event : Event) :
    Leaves base s [] "" (j.recordEvent event) fun _ => True := by
  unfold Journal.recordEvent
  -- A record that is admitted goes to the console, to the file, or to both.
  by_cases hadmits : j.verbosity.admits event.severity = true
  · rw [if_pos hadmits]
    refine leaves_bind_quiet leaves_clock fun clock _ => ?_
    have hshown : j.console = true → ∀ line, Leaves base s [] ""
        (printLine (Journal.stream event.severity) line) fun _ => True :=
      fun hconsole => leaves_printLine_console (hj.console ▸ hconsole) _
    cases hfile : j.file with
    | none =>
        by_cases hconsole : j.console = true
        · simp only [if_pos hconsole]
          exact leaves_bind_pure (hshown hconsole _) fun _ _ => trivial
        · simp only [if_neg hconsole]
          exact leaves_pure trivial
    | some path =>
        have hwritten : ∀ line, Leaves base s [] "" (appendLine path line) fun _ => True :=
          fun line => leaves_append_log (hj.file path hfile) _
        by_cases hconsole : j.console = true
        · simp only [if_pos hconsole]
          refine leaves_bind_quiet (hshown hconsole _) fun _ _ => ?_
          exact leaves_bind_pure (hwritten _) fun _ _ => trivial
        · simp only [if_neg hconsole]
          exact leaves_bind_pure (hwritten _) fun _ _ => trivial
  · rw [if_neg hadmits]
    exact leaves_pure trivial

theorem leaves_record {j : Journal} (hj : j.IsKeptFor s) (events : List Event) :
    Leaves base s [] "" (j.record events) fun _ => True := by
  induction events with
  | nil => exact leaves_pure trivial
  | cons event events ih => exact leaves_bind_quiet (leaves_recordEvent hj event) fun _ _ => ih

/-- Where a journal is kept or not, records leave nothing else. -/
theorem leaves_recordIn {journal : Option Journal}
    (hjournal : ∀ j, journal = some j → j.IsKeptFor s) (events : List Event) :
    Leaves base s [] "" (recordIn journal events) fun _ => True := by
  cases journal with
  | none => exact leaves_pure trivial
  | some j => exact leaves_record (hjournal j rfl) events

/-- A log file that is made ready is the one that is set, and one that cannot be opened
    is reported and done without. -/
theorem leaves_openFile {path : String} (hpath : s.logFile = some path) :
    Leaves base s [] "" (Journal.openFile path) fun file => file = none ∨ file = s.logFile := by
  refine leaves_bind_quiet (leaves_append_log hpath _) fun opened _ => ?_
  cases opened with
  | ok _ => exact leaves_pure (.inr hpath.symm)
  | error cause =>
      exact leaves_bind_pure (leaves_printLine_error _) fun _ _ => .inl rfl

/-- The journal that settings ask for is kept for them, and making it ready leaves
    nothing but its first record. -/
theorem leaves_start (occupied : Bool) (layout : Journal.Layout) :
    Leaves base s [] "" (Journal.start s occupied layout)
      fun journal => ∀ j, journal = some j → j.IsKeptFor s := by
  have hnone : Leaves base s [] "" (pure none) fun journal : Option Journal =>
      ∀ j, journal = some j → j.IsKeptFor s := leaves_pure fun j hj => by cases hj
  have hbegin : ∀ file, file = none ∨ file = s.logFile → Leaves base s [] ""
      (if occupied = true ∨ s.console = false ∧ file = none then pure none
        else do
          let j : Journal := ⟨s.verbosity, s.console, file, layout⟩
          j.recordEvent (.journalStarted s.verbosity)
          pure (some j) : StateM Desk (Option Journal))
      fun journal => ∀ j, journal = some j → j.IsKeptFor s := by
    intro file hfile
    have hkept : Journal.IsKeptFor ⟨s.verbosity, s.console, file, layout⟩ s := by
      refine ⟨rfl, fun path hpath => ?_⟩
      rcases hfile with hfile | hfile
      · cases hfile.symm.trans hpath
      · exact hfile.symm.trans hpath
    split
    · exact hnone
    · refine leaves_bind_pure (leaves_recordEvent hkept _) fun _ _ j hj => ?_
      cases hj
      exact hkept
  unfold Journal.start
  by_cases hoff : s.verbosity = .off
  · rw [if_pos hoff]
    exact hnone
  · rw [if_neg hoff]
    cases hlog : s.logFile with
    | none => exact leaves_bind_quiet (leaves_pure (.inl rfl)) hbegin
    | some path => exact leaves_bind_quiet (leaves_openFile hlog) hbegin

end Records

end PolyCalc
