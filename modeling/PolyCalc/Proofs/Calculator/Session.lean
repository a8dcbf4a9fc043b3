import PolyCalc.Proofs.Calculator.Answers
import PolyCalc.Proofs.Calculator.ResultLine
import PolyCalc.Proofs.Folder.Append
import PolyCalc.Proofs.Text.Lines

/-!
# Sessions

A session is a calculator at a desk, and a run of it is any sequence of calculations
and saves, whatever becomes of each of them. The results file is the log of a run:
each save that succeeds adds to it the line that the calculator remembers at that
moment, and nothing else is ever written there.

`Step` lists what a call can do, one constructor for each way that a calculation or a
save can go, and `step_perform` says that a call does one of these things. What holds
of a whole run follows by induction over the calls: the remembered line is that of the
last calculation that succeeded, and the file holds what it held at the start with the
saved lines behind it. A file that cannot be appended to fits in without a case of its
own, since a save that fails leaves everything as it was. At a desk a save can only fail
because the file cannot be opened; one that fails halfway through its line is beyond
what a desk knows.

The lines that are saved are lines of outcomes, which have no line break in them. So
the lines of the file can be counted: those it had, and one for each save that
succeeded.

## Main definitions

* `Call`, `Answer`: What is asked of a calculator, and what it answers.
* `Session`: A calculator and the desk that it works at.
* `Turn`: A call with what was before and after it.
* `Session.turns`, `Session.final`: A run.
* `logged`: What a file holds after lines were appended to it.
* `Step`: What a call can do.
* `IsFaithfulLog`: What the results file tells about a run.

## Theorems

* `step_perform`: A call does one of the things in the list.
* `lastResult_final`: What is remembered after a run.
* `content?_final`: What the results file holds after a run.
* `exists_of_turns_eq_append`: A turn of a run is made after the turns before it.
* `newline_not_mem_of_mem_savedLines`: What is saved is a line.
* `resultsFile_logs_session`: The results file is a faithful log of every run.
-/

namespace PolyCalc

/-- What is asked of a calculator. -/
inductive Call where
  | calculate (operation : Operation) (first second : String)
  | save

/-- What a calculator answers. -/
inductive Answer where
  | calculated (answer : Except Fault Outcome)
  | saved (answer : Except FileError Bool)

/-- A calculator and the desk that it works at. -/
structure Session where
  calculator : Calculator
  desk : Desk

/-- A call with its answer, and what was before and after it. -/
structure Turn where
  before : Session
  call : Call
  answer : Answer
  after : Session

namespace Turn

/-- The line of a calculation that succeeded. -/
def resultLine? (t : Turn) : Option String :=
  match t.answer with
  | .calculated (.ok outcome) => some outcome.resultLine
  | _ => none

/-- Did a save succeed? -/
def isSaved (t : Turn) : Bool :=
  match t.answer with
  | .saved (.ok true) => true
  | _ => false

/-- The line that was remembered when a save succeeded. -/
def savedLine? (t : Turn) : Option String :=
  if t.isSaved then t.before.calculator.lastResult else none

theorem savedLine?_eq_some_iff {t : Turn} {line : String} :
    t.savedLine? = some line
      ↔ t.isSaved = true ∧ t.before.calculator.lastResult = some line := by
  rw [savedLine?]
  split
  · rename_i hsaved
    exact (and_iff_right hsaved).symm
  · rename_i hsaved
    exact iff_of_false (Option.some_ne_none line).symm fun h => hsaved h.1

theorem exists_outcome_of_resultLine? {t : Turn} {line : String} (h : t.resultLine? = some line) :
    ∃ outcome : Outcome, outcome.resultLine = line := by
  rw [resultLine?] at h
  split at h
  · rename_i outcome _
    exact ⟨outcome, Option.some.inj h⟩
  · cases h

end Turn

/-- What a file holds after lines were appended to it, each with a line break behind
    it. There may be no file before. -/
def logged (content? : Option String) (lines : List String) : Option String :=
  if lines = [] then content?
  else some (content?.getD "" ++ String.join (lines.map (· ++ "\n")))

namespace Session

/-- A call to the calculator of a session. -/
def perform (s : Session) : Call → Turn
  | .calculate operation first second =>
    let reply := s.calculator.run operation first second
    ⟨s, .calculate operation first second, .calculated reply.answer,
      { s with calculator := reply.after }⟩
  | .save =>
    let ((answer, _), desk) := (s.calculator.save : StateM Desk _).run s.desk
    ⟨s, .save, .saved answer, { s with desk }⟩

/-- The turns of a run, in order. -/
def turns (s : Session) : List Call → List Turn
  | [] => []
  | call :: calls => s.perform call :: (s.perform call).after.turns calls

/-- The session after a run. -/
def final (s : Session) : List Call → Session
  | [] => s
  | call :: calls => (s.perform call).after.final calls

/-- The lines of the calculations of a run that succeeded, in order. -/
def resultLines (s : Session) (calls : List Call) : List String :=
  (s.turns calls).filterMap Turn.resultLine?

/-- The lines saved in a run, in order. -/
def savedLines (s : Session) (calls : List Call) : List String :=
  (s.turns calls).filterMap Turn.savedLine?

/-- What the results file holds, if there is one. -/
def content? (s : Session) : Option String :=
  (s.desk.folder.read s.calculator.resultsFile).toOption

end Session

/-! ## Effects at a desk -/

theorem run_append (desk : Desk) (path text : String) :
    (Host.append path text : StateM Desk _).run desk
      = match desk.folder.append path text with
        | .error cause => (.error cause, desk)
        | .ok folder => (.ok (), { desk with folder }) := by
  cases h : desk.folder.append path text with
  | error cause =>
      simp [Host.append, h]
      rfl
  | ok folder =>
      simp [Host.append, h]
      rfl

theorem run_save {c : Calculator} {line : String} (hlast : c.lastResult = some line)
    (desk : Desk) :
    (c.save : StateM Desk _).run desk
      = match desk.folder.append c.resultsFile (line ++ "\n") with
        | .error cause => ((.error cause, [.saveFailed cause]), desk)
        | .ok folder => ((.ok true, [.saved c.resultsFile]), { desk with folder }) := by
  simp only [Calculator.save, hlast, appendLine]
  rw [StateT.run_bind, run_append]
  cases desk.folder.append c.resultsFile (line ++ "\n") with
  | error cause => rfl
  | ok folder => rfl

/-! ## One call -/

/-- What a call can do. -/
inductive Step (s : Session) : Turn → Prop where
  /-- A calculation fails. -/
  | failed (operation : Operation) (first second : String) (fault : Fault) :
      Step s ⟨s, .calculate operation first second, .calculated (.error fault), s⟩
  /-- A calculation succeeds, and its line is remembered. -/
  | calculated (operation : Operation) (first second : String) (outcome : Outcome) :
      Step s ⟨s, .calculate operation first second, .calculated (.ok outcome),
        ⟨{ s.calculator with lastResult := some outcome.resultLine }, s.desk⟩⟩
  /-- There is nothing to save. -/
  | nothing (hlast : s.calculator.lastResult = none) :
      Step s ⟨s, .save, .saved (.ok false), s⟩
  /-- The results file cannot be appended to. -/
  | unsaved (line : String) (cause : FileError) (hlast : s.calculator.lastResult = some line)
      (happend : s.desk.folder.append s.calculator.resultsFile (line ++ "\n") = .error cause) :
      Step s ⟨s, .save, .saved (.error cause), s⟩
  /-- The remembered line is appended. -/
  | saved (line : String) (folder : Folder) (hlast : s.calculator.lastResult = some line)
      (happend : s.desk.folder.append s.calculator.resultsFile (line ++ "\n") = .ok folder) :
      Step s ⟨s, .save, .saved (.ok true), ⟨s.calculator, { s.desk with folder }⟩⟩

namespace Session

theorem step_perform (s : Session) (call : Call) : Step s (s.perform call) := by
  cases call with
  | calculate operation first second =>
      have hturn : s.perform (.calculate operation first second)
          = ⟨s, .calculate operation first second,
            .calculated (s.calculator.run operation first second).answer,
            ⟨(s.calculator.run operation first second).after, s.desk⟩⟩ := rfl
      rw [hturn, s.calculator.after_run]
      cases (s.calculator.run operation first second).answer with
      | error fault => exact .failed operation first second fault
      | ok outcome => exact .calculated operation first second outcome
  | save =>
      cases hlast : s.calculator.lastResult with
      | none =>
          have hturn : s.perform .save = ⟨s, .save, .saved (.ok false), s⟩ := by
            simp only [perform, Calculator.save, hlast]
            rfl
          exact hturn ▸ .nothing hlast
      | some line =>
          have hrun := run_save hlast s.desk
          cases happend : s.desk.folder.append s.calculator.resultsFile (line ++ "\n") with
          | error cause =>
              have hturn : s.perform .save = ⟨s, .save, .saved (.error cause), s⟩ := by
                simp only [perform, hrun, happend]
              exact hturn ▸ .unsaved line cause hlast happend
          | ok folder =>
              have hturn : s.perform .save
                  = ⟨s, .save, .saved (.ok true), ⟨s.calculator, { s.desk with folder }⟩⟩ := by
                simp only [perform, hrun, happend]
              exact hturn ▸ .saved line folder hlast happend

end Session

/-! ## What a call preserves -/

theorem logged_nil (content? : Option String) : logged content? [] = content? := if_pos rfl

theorem logged_singleton (content? : Option String) (line : String) :
    logged content? [line] = some (content?.getD "" ++ (line ++ "\n")) := by
  rw [logged, if_neg (List.cons_ne_nil _ _)]
  simp [String.join]

theorem logged_append (content? : Option String) (lines others : List String) :
    logged content? (lines ++ others) = logged (logged content? lines) others := by
  by_cases hlines : lines = []
  · rw [hlines, List.nil_append, logged_nil]
  · by_cases hothers : others = []
    · rw [hothers, List.append_nil, logged_nil]
    · rw [logged, if_neg (List.append_ne_nil_of_left_ne_nil hlines _), logged, if_neg hothers,
        logged, if_neg hlines, List.map_append, String.join_append, Option.getD_some,
        String.append_assoc]

namespace Step

variable {s : Session} {t : Turn}

theorem before_eq (h : Step s t) : t.before = s := by
  cases h <;> rfl

theorem resultsFile_after (h : Step s t) :
    t.after.calculator.resultsFile = s.calculator.resultsFile := by
  cases h <;> rfl

/-- A calculation that succeeds is remembered, and nothing else is. -/
theorem lastResult_after (h : Step s t) :
    t.after.calculator.lastResult = t.resultLine?.or s.calculator.lastResult := by
  cases h <;> rfl

theorem savedLine?_of_saved (h : Step s t) (hsaved : t.isSaved = true) :
    ∃ line, t.savedLine? = some line := by
  cases h with
  | failed | calculated | nothing | unsaved => cases hsaved
  | saved line folder hlast happend => exact ⟨line, hlast⟩

/-- A save that succeeds adds its line to the results file, and nothing else is added. -/
theorem content?_after (h : Step s t) :
    t.after.content? = logged s.content? t.savedLine?.toList := by
  cases h with
  | failed | calculated | nothing | unsaved => exact (logged_nil _).symm
  | saved line folder hlast happend =>
      have hline : Turn.savedLine? ⟨s, .save, .saved (.ok true),
          ⟨s.calculator, { s.desk with folder }⟩⟩ = some line := hlast
      rw [hline, Option.toList_some, logged_singleton]
      exact congrArg Except.toOption (Folder.read_append happend)

theorem desk_after (h : Step s t) (hcall : t.call ≠ .save) : t.after.desk = s.desk := by
  cases h with
  | failed | calculated => rfl
  | nothing | unsaved | saved => exact absurd rfl hcall

theorem calculator_after (h : Step s t) (hcall : t.call = .save) :
    t.after.calculator = s.calculator := by
  cases h with
  | failed | calculated => cases hcall
  | nothing | unsaved | saved => rfl

/-- A save succeeds if there is a line to save and a file to append it to. -/
theorem isSaved_iff (h : Step s t) (hcall : t.call = .save) :
    t.isSaved = true ↔ ∃ line folder, s.calculator.lastResult = some line
      ∧ s.desk.folder.append s.calculator.resultsFile (line ++ "\n") = .ok folder := by
  cases h with
  | failed | calculated => cases hcall
  | nothing hlast =>
      refine iff_of_false Bool.false_ne_true ?_
      rintro ⟨line, folder, hline, -⟩
      cases hlast.symm.trans hline
  | unsaved line cause hlast happend =>
      refine iff_of_false Bool.false_ne_true ?_
      rintro ⟨other, folder, hother, hfolder⟩
      cases hlast.symm.trans hother
      cases happend.symm.trans hfolder
  | saved line folder hlast happend => exact iff_of_true rfl ⟨line, folder, hlast, happend⟩

/-- A save that does not succeed leaves everything as it was. -/
theorem after_eq (h : Step s t) (hcall : t.call = .save) (hsaved : t.isSaved = false) :
    t.after = s := by
  cases h with
  | failed | calculated => cases hcall
  | nothing | unsaved => rfl
  | saved => cases hsaved

/-- A save is refused where there is nothing to save. -/
theorem refused_iff (h : Step s t) (hcall : t.call = .save) :
    (t.answer = .saved (.ok false) ∧ t.after = s) ↔ s.calculator.lastResult = none := by
  cases h with
  | failed | calculated => cases hcall
  | nothing hlast => exact iff_of_true ⟨rfl, rfl⟩ hlast
  | unsaved line cause hlast =>
      refine iff_of_false (fun hrefused => ?_) (by rw [hlast]; exact Option.some_ne_none line)
      cases hrefused.1
  | saved line folder hlast =>
      refine iff_of_false (fun hrefused => ?_) (by rw [hlast]; exact Option.some_ne_none line)
      cases hrefused.1

end Step

/-! ## Runs -/

namespace Session

theorem resultLines_cons (s : Session) (call : Call) (calls : List Call) :
    s.resultLines (call :: calls)
      = (s.perform call).resultLine?.toList ++ (s.perform call).after.resultLines calls := by
  rw [resultLines, turns, List.filterMap_cons]
  cases (s.perform call).resultLine? <;> rfl

theorem savedLines_cons (s : Session) (call : Call) (calls : List Call) :
    s.savedLines (call :: calls)
      = (s.perform call).savedLine?.toList ++ (s.perform call).after.savedLines calls := by
  rw [savedLines, turns, List.filterMap_cons]
  cases (s.perform call).savedLine? <;> rfl

theorem resultsFile_final (s : Session) (calls : List Call) :
    (s.final calls).calculator.resultsFile = s.calculator.resultsFile := by
  induction calls generalizing s with
  | nil => rfl
  | cons call calls ih => rw [final, ih, (s.step_perform call).resultsFile_after]

/-- What is remembered after a run is the line of the last calculation that succeeded,
    or what was remembered before where none did. -/
theorem lastResult_final (s : Session) (calls : List Call) :
    (s.final calls).calculator.lastResult
      = (s.resultLines calls).getLast?.or s.calculator.lastResult := by
  induction calls generalizing s with
  | nil => rfl
  | cons call calls ih =>
      have hcall := (s.step_perform call).lastResult_after
      -- Where later calculations fail, the first call has the say.
      rw [final, ih, hcall, resultLines_cons, List.getLast?_append, Option.or_assoc]
      cases (s.perform call).resultLine? <;> rfl

/-- After a run, the saved lines stand behind what the results file held before. -/
theorem content?_final (s : Session) (calls : List Call) :
    (s.final calls).content? = logged s.content? (s.savedLines calls) := by
  induction calls generalizing s with
  | nil => exact (logged_nil _).symm
  | cons call calls ih =>
      rw [final, ih, (s.step_perform call).content?_after, savedLines_cons, logged_append]

/-- A turn of a run is made after the turns before it. -/
theorem exists_of_turns_eq_append {s : Session} {calls : List Call} {earlier later : List Turn}
    {turn : Turn} (h : s.turns calls = earlier ++ turn :: later) :
    ∃ before call, s.turns before = earlier ∧ turn = (s.final before).perform call := by
  induction earlier generalizing s calls with
  | nil =>
      cases calls with
      | nil => cases h
      | cons call calls =>
          cases h
          exact ⟨[], call, rfl, rfl⟩
  | cons first earlier ih =>
      cases calls with
      | nil => cases h
      | cons call calls =>
          rw [turns, List.cons_append, List.cons.injEq] at h
          rcases ih h.2 with ⟨before, next, hbefore, hturn⟩
          refine ⟨call :: before, next, ?_, hturn⟩
          rw [turns, hbefore, h.1]

/-- What is remembered at a turn is the line of the last calculation before it that
    succeeded. -/
theorem step_and_lastResult_of_turns {s : Session} {calls : List Call}
    {earlier later : List Turn} {turn : Turn} (h : s.turns calls = earlier ++ turn :: later) :
    Step turn.before turn ∧ turn.before.calculator.lastResult
      = (earlier.filterMap Turn.resultLine?).getLast?.or s.calculator.lastResult := by
  rcases exists_of_turns_eq_append h with ⟨before, call, hbefore, rfl⟩
  have hstep := (s.final before).step_perform call
  rw [hstep.before_eq]
  refine ⟨hstep, ?_⟩
  rw [lastResult_final, resultLines, hbefore]

theorem step_of_mem_turns {s : Session} {calls : List Call} {turn : Turn}
    (h : turn ∈ s.turns calls) : Step turn.before turn := by
  rcases List.append_of_mem h with ⟨earlier, later, hturns⟩
  exact (step_and_lastResult_of_turns hturns).1

/-- What is remembered comes from a calculation, so what is saved is a line. -/
theorem newline_not_mem_of_mem_savedLines {s : Session} (hnew : s.calculator.lastResult = none)
    {calls : List Call} {line : String} (h : line ∈ s.savedLines calls) : '\n' ∉ line.toList := by
  rcases List.mem_filterMap.1 h with ⟨turn, hturn, hline⟩
  rcases List.append_of_mem hturn with ⟨earlier, later, hturns⟩
  have hlast := (step_and_lastResult_of_turns hturns).2
  rw [hnew, Option.or_none] at hlast
  -- What was saved was remembered, so it is the line of some calculation before.
  have hremembered := (Turn.savedLine?_eq_some_iff.1 hline).2
  rcases List.mem_filterMap.1 (List.mem_of_getLast? (hlast ▸ hremembered)) with
    ⟨source, -, hsource⟩
  rcases Turn.exists_outcome_of_resultLine? hsource with ⟨outcome, rfl⟩
  exact outcome.newline_not_mem_resultLine

theorem length_savedLines (s : Session) (calls : List Call) :
    (s.savedLines calls).length = (s.turns calls).countP Turn.isSaved := by
  rw [savedLines, List.length_filterMap_eq_countP]
  refine List.countP_congr fun turn hturn => ?_
  rw [Option.isSome_iff_exists]
  exact ⟨fun ⟨line, hline⟩ => (Turn.savedLine?_eq_some_iff.1 hline).1,
    (step_of_mem_turns hturn).savedLine?_of_saved⟩

/-! ## The log -/

/-- What the results file of a session tells about a run. -/
structure IsFaithfulLog (s : Session) (calls : List Call) : Prop where
  /-- There is one results file. -/
  resultsFile : (s.final calls).calculator.resultsFile = s.calculator.resultsFile
  /-- The last calculation that succeeded is remembered. -/
  lastResult : (s.final calls).calculator.lastResult = (s.resultLines calls).getLast?
  /-- At each turn, the last one before it is. -/
  remembered : ∀ earlier turn later, s.turns calls = earlier ++ turn :: later →
    turn.before.calculator.lastResult = (earlier.filterMap Turn.resultLine?).getLast?
  /-- A save is refused, and touches nothing, if no calculation succeeded before it. -/
  refused : ∀ earlier turn later, s.turns calls = earlier ++ turn :: later →
    turn.call = .save →
    ((turn.answer = .saved (.ok false) ∧ turn.after = turn.before)
      ↔ earlier.filterMap Turn.resultLine? = [])
  /-- Calculations touch no file. -/
  calculations : ∀ turn ∈ s.turns calls, turn.call ≠ .save → turn.after.desk = turn.before.desk
  /-- Saves do not change what is remembered. -/
  saves : ∀ turn ∈ s.turns calls, turn.call = .save →
    turn.after.calculator = turn.before.calculator
  /-- Saves succeed if there is a line to save and a file to append it to. -/
  succeeds : ∀ turn ∈ s.turns calls, turn.call = .save →
    (turn.isSaved = true ↔ ∃ line folder, turn.before.calculator.lastResult = some line
      ∧ turn.before.desk.folder.append turn.before.calculator.resultsFile (line ++ "\n")
        = .ok folder)
  /-- Saves that do not succeed touch nothing. -/
  failures : ∀ turn ∈ s.turns calls, turn.call = .save → turn.isSaved = false →
    turn.after = turn.before
  /-- The saved lines stand behind what the file held. -/
  content : (s.final calls).content? = logged s.content? (s.savedLines calls)
  /-- There is one for each save that succeeded. -/
  count : (s.savedLines calls).length = (s.turns calls).countP Turn.isSaved
  /-- Each of them is a line. -/
  newline : ∀ line ∈ s.savedLines calls, '\n' ∉ line.toList
  /-- So they are the new lines of the file. -/
  lines : Text.EndsLine (s.content?.getD "").toList →
    Text.lines ((s.final calls).content?.getD "").toList
      = Text.lines (s.content?.getD "").toList ++ (s.savedLines calls).map String.toList

theorem lines_logged {content? : Option String} {written : List String}
    (hcontent : Text.EndsLine (content?.getD "").toList)
    (hwritten : ∀ line ∈ written, '\n' ∉ line.toList) :
    Text.lines ((logged content? written).getD "").toList
      = Text.lines (content?.getD "").toList ++ written.map String.toList := by
  by_cases hnil : written = []
  · rw [hnil, logged_nil, List.map_nil, List.append_nil]
  · -- The breaks that end the saved lines are the only ones behind the content.
    have hbehind : (String.join (written.map (· ++ "\n"))).toList
        = (written.map String.toList).flatMap fun line => line ++ ['\n'] := by
      simp [String.toList_join, List.flatMap_map]
    have hlines : ∀ line ∈ written.map String.toList, '\n' ∉ line := by
      intro line hline
      rcases List.mem_map.1 hline with ⟨text, htext, rfl⟩
      exact hwritten text htext
    rw [logged, if_neg hnil, Option.getD_some, String.toList_append, hbehind,
      Text.lines_append hcontent, Text.lines_flatMap hlines]

/-- The results file is a faithful log of every run of a new calculator, whatever is
    calculated and saved, and whether or not the file can be appended to. -/
theorem resultsFile_logs_session (file : String) (desk : Desk) (calls : List Call) :
    IsFaithfulLog ⟨{ resultsFile := file }, desk⟩ calls := by
  generalize hs : (⟨{ resultsFile := file }, desk⟩ : Session) = s
  have hnew : s.calculator.lastResult = none := by rw [← hs]
  have hremembered : ∀ earlier turn later, s.turns calls = earlier ++ turn :: later →
      turn.before.calculator.lastResult = (earlier.filterMap Turn.resultLine?).getLast? := by
    intro earlier turn later hturns
    rw [(step_and_lastResult_of_turns hturns).2, hnew, Option.or_none]
  have hnewline : ∀ line ∈ s.savedLines calls, '\n' ∉ line.toList :=
    fun line => newline_not_mem_of_mem_savedLines hnew
  exact
    { resultsFile := resultsFile_final s calls
      lastResult := by rw [lastResult_final, hnew, Option.or_none]
      remembered := hremembered
      refused := by
        intro earlier turn later hturns hcall
        rw [(step_and_lastResult_of_turns hturns).1.refused_iff hcall,
          hremembered earlier turn later hturns, List.getLast?_eq_none_iff]
      calculations := fun turn hturn => (step_of_mem_turns hturn).desk_after
      saves := fun turn hturn => (step_of_mem_turns hturn).calculator_after
      succeeds := fun turn hturn => (step_of_mem_turns hturn).isSaved_iff
      failures := fun turn hturn => (step_of_mem_turns hturn).after_eq
      content := content?_final s calls
      count := length_savedLines s calls
      newline := hnewline
      lines := by
        intro hcontent
        rw [content?_final]
        exact lines_logged hcontent hnewline }

end Session

end PolyCalc
