import PolyCalc.Proofs.Calculator.Answers
import PolyCalc.Proofs.Fallible
import PolyCalc.Proofs.Poly.Steps

/-!
# The Log of a Calculation

The events of a calculation come from several places: from the readers of the operands, from
the steps of a division, and from the calculator itself. Still they tell how the calculation
ended, and a journal that admits them all holds nothing else about it.

A calculation that fails leaves warnings and nothing else, and the warnings show what was
wrong: two of them for the text of a polynomial, one for a value or for a zero divisor. One
that succeeds leaves no warning. Its last record, and no other, is the information about the
outcome. Only a division has records before it, one for each step, and the degrees in them
lead from the dividend down to the remainder. There are some unless the dividend lies below
the divisor.

## Main definitions

* `Event.record`: What a journal keeps of an event.
* `Rejects`: The records of a calculation that fails.
* `IsCourse`: Steps that lead from the dividend down to the remainder.
* `TellsOutcome`: The records of a calculation, whichever way it ends.

## Theorems

* `rejects_of_calculate`: Each failure has its warnings.
* `calculate_eq_ok`: Only a division has steps to tell of.
* `isCourse_of_divide`: The steps of a division are linked from end to end.
* `Calculator.log_tells_outcome`: The records tell the outcome.
-/

namespace PolyCalc

/-- What a journal keeps of an event, the time of day apart. -/
def Event.record (event : Event) : Severity × String := (event.severity, event.message)

/-- The records of a calculation that fails. -/
inductive Rejects (operation : Operation) (first second : String) :
    List (Severity × String) → Prop where
  /-- The first operand is faulty. -/
  | first (fault : FormatFault) (hfirst : Expression.parse first = .error fault) :
      Rejects operation first second
        [(.warn, "Parsing error: Invalid polynomial format: " ++ fault.cause),
          (.warn, "Invalid polynomial input for Polynomial 1: " ++ first)]
  /-- The second polynomial is faulty. -/
  | second (p : Poly Float) (fault : FormatFault) (hop : operation ≠ .evaluate)
      (hfirst : Expression.parse first = .ok p)
      (hsecond : Expression.parse second = .error fault) :
      Rejects operation first second
        [(.warn, "Parsing error: Invalid polynomial format: " ++ fault.cause),
          (.warn, "Invalid polynomial input for Polynomial 2: " ++ second)]
  /-- The value is no number. -/
  | value (p : Poly Float) (hop : operation = .evaluate)
      (hfirst : Expression.parse first = .ok p)
      (hvalue : Binary64.readNumber (Text.trim second.toList) = none) :
      Rejects operation first second [(.warn, "Invalid input for value: " ++ second)]
  /-- The divisor is zero. -/
  | divisor (p q : Poly Float) (hfirst : Expression.parse first = .ok p)
      (hsecond : Expression.parse second = .ok q) (hzero : IsZeroDivisor operation q) :
      Rejects operation first second
        [(.warn, "Invalid polynomial input for Polynomial 2: " ++ second
          ++ " (" ++ "Division by zero polynomial: divisor has no non-zero terms" ++ ")")]

/-- Steps that lead from the degree of the pruned dividend to one below the pruned divisor. -/
structure IsCourse (p q : Poly Float) (steps : List (DivisionStep Float)) : Prop where
  /-- There is a step unless the dividend is empty or lies below the divisor. -/
  eq_nil_iff : steps = [] ↔ p.prune.isEmpty = true ∨ p.prune.degree < q.prune.degree
  first : ∀ s, steps.head? = some s → s.degreeBefore = p.prune.degree
  /-- Each later step starts at the degree that the one before has reached. -/
  linked : steps.IsChain fun s t => s.degreeAfter = some t.degreeBefore
  last : ∀ s, steps.getLast? = some s →
    s.degreeAfter = none ∨ ∃ d < q.prune.degree, s.degreeAfter = some d

/-- The records of a calculation tell how it ended. -/
structure TellsOutcome (operation : Operation) (first second : String) (reply : Reply) : Prop where
  /-- A failure is told by the warnings of its cause, -/
  failure : ∀ fault, reply.answer = .error fault →
    Rejects operation first second (reply.events.map Event.record)
  /-- and by warnings alone. -/
  onlyWarnings : ∀ fault, reply.answer = .error fault →
    ∀ event ∈ reply.events, event.severity = .warn
  /-- A success is told without any. -/
  noWarning : ∀ outcome, reply.answer = .ok outcome →
    ∀ event ∈ reply.events, event.severity ≠ .warn
  /-- The one information is about the outcome, -/
  information : ∀ outcome, reply.answer = .ok outcome →
    (reply.events.map Event.record).filter (fun r => r.1 = .info)
      = [(.info, operation.name ++ ": " ++ outcome.message)]
  /-- and it comes last. -/
  last : ∀ outcome, reply.answer = .ok outcome →
    (reply.events.map Event.record).getLast?
      = some (.info, operation.name ++ ": " ++ outcome.message)
  /-- Where nothing is divided, nothing else is told. -/
  undivided : ∀ outcome, reply.answer = .ok outcome → operation ≠ .divide →
    reply.events = [.calculated operation outcome]
  /-- A division tells each of its steps before. -/
  divided : ∀ outcome, reply.answer = .ok outcome → operation = .divide →
    ∃ p q d, Expression.parse first = .ok p ∧ Expression.parse second = .ok q
      ∧ p.divide q = some d ∧ outcome = .division d
      ∧ reply.events = d.steps.map .divisionStep ++ [.calculated operation outcome]
      ∧ (∀ s ∈ d.steps, (Event.divisionStep s).severity = .debug)
      ∧ IsCourse p q d.steps

/-! ## Failures -/

theorem exists_of_readOperand_eq_error {operand : Operand} {text : String} {r : Rejection}
    (h : readOperand operand text = .error r) :
    ∃ fault, Expression.parse text = .error fault
      ∧ r = ⟨.invalidOperand (.polynomial operand fault),
        [.formatFault fault, .operandRejected operand text]⟩ := by
  unfold readOperand at h
  split at h
  · cases h
  · rename_i fault hparse
    cases h
    exact ⟨fault, hparse, rfl⟩

theorem of_readValue_eq_error {text : String} {r : Rejection} (h : readValue text = .error r) :
    Binary64.readNumber (Text.trim text.toList) = none ∧ r.events = [.valueRejected text] := by
  unfold readValue at h
  simp only at h
  split at h
  · cases h
  · rename_i hvalue
    cases h
    exact ⟨hvalue, rfl⟩

variable {operation : Operation} {first second : String}

theorem rejects_of_second {p : Poly Float} {r : Rejection} (hop : operation ≠ .evaluate)
    (hfirst : Expression.parse first = .ok p) (h : readOperand .second second = .error r) :
    Rejects operation first second (r.events.map Event.record) := by
  obtain ⟨fault, hsecond, rfl⟩ := exists_of_readOperand_eq_error h
  exact .second p fault hop hfirst hsecond

/-- Each failure has the warnings of its cause. -/
theorem rejects_of_calculate {r : Rejection} (h : calculate operation first second = .error r) :
    Rejects operation first second (r.events.map Event.record) := by
  rcases bind_eq_error_iff.1 h with hread | ⟨p, hread, h⟩
  · obtain ⟨fault, hfirst, rfl⟩ := exists_of_readOperand_eq_error hread
    exact .first fault hfirst
  have hfirst := parse_of_readOperand hread
  -- From here on the first operand is a polynomial, and the operation decides what can fail.
  cases operation with
  | add | subtract | multiply =>
      rcases bind_eq_error_iff.1 h with hsecond | ⟨q, -, h⟩
      · exact rejects_of_second nofun hfirst hsecond
      · cases h
  | divide =>
      rcases bind_eq_error_iff.1 h with hsecond | ⟨q, hsecond, h⟩
      · exact rejects_of_second nofun hfirst hsecond
      · split at h
        · rename_i hdivide
          cases h
          exact .divisor p q hfirst (parse_of_readOperand hsecond)
            ⟨rfl, Poly.divide_eq_none_iff.1 hdivide⟩
        · cases h
  | evaluate =>
      rcases bind_eq_error_iff.1 h with hvalue | ⟨x, -, h⟩
      · obtain ⟨hnone, hevents⟩ := of_readValue_eq_error hvalue
        rw [hevents]
        exact .value p rfl hfirst hnone
      · cases h

theorem Rejects.eq_warn {records : List (Severity × String)}
    (h : Rejects operation first second records) : ∀ r ∈ records, r.1 = .warn := by
  cases h with
  | first | second | value | divisor => simp

/-! ## Successes -/

/-- Only a division has steps to tell of. -/
theorem calculate_eq_ok {outcome : Outcome} {events : List Event}
    (h : calculate operation first second = .ok (outcome, events)) :
    operation ≠ .divide ∧ events = []
      ∨ operation = .divide ∧ ∃ p q d, Expression.parse first = .ok p
        ∧ Expression.parse second = .ok q ∧ p.divide q = some d ∧ outcome = .division d
        ∧ events = d.steps.map .divisionStep := by
  obtain ⟨p, hfirst, h⟩ := exists_of_bind_eq_ok h
  cases operation with
  | add | subtract | multiply | evaluate =>
      obtain ⟨q, -, h⟩ := exists_of_bind_eq_ok h
      cases h
      exact .inl ⟨nofun, rfl⟩
  | divide =>
      obtain ⟨q, hsecond, h⟩ := exists_of_bind_eq_ok h
      split at h
      · cases h
      · rename_i d hdivide
        cases h
        exact .inr ⟨rfl, p, q, d, parse_of_readOperand hfirst, parse_of_readOperand hsecond,
          hdivide, rfl, rfl⟩

/-- The events before the last one are steps, in either case. -/
theorem exists_steps_of_calculate {outcome : Outcome} {events : List Event}
    (h : calculate operation first second = .ok (outcome, events)) :
    ∃ steps : List (DivisionStep Float), events = steps.map .divisionStep := by
  rcases calculate_eq_ok h with ⟨-, rfl⟩ | ⟨-, p, q, d, -, -, -, -, rfl⟩
  · exact ⟨[], rfl⟩
  · exact ⟨d.steps, rfl⟩

theorem isCourse_of_divide {p q : Poly Float} {d : Division Float} (h : p.divide q = some d) :
    IsCourse p q d.steps := by
  obtain ⟨lead, hlead, hrun⟩ := Poly.reduction_of_divide h
  have haccount := hrun.isAccount hlead
  -- A run knows the divisor by its leading term, a course by its degree.
  rw [← Poly.degree_of_leadingTerm? hlead] at haccount
  refine ⟨haccount.steps_eq_nil_iff, haccount.first, haccount.linked, fun s hs => ?_⟩
  cases hafter : s.degreeAfter with
  | none => exact .inl rfl
  | some e => exact .inr ⟨e, (haccount.last s hs).2 e hafter, rfl⟩

/-! ## Calculators -/

namespace Calculator

theorem exists_of_answer_eq_error {c : Calculator} {fault : Fault}
    (h : (c.run operation first second).answer = .error fault) :
    ∃ r, PolyCalc.calculate operation first second = .error r
      ∧ (c.run operation first second).events = r.events := by
  cases hcalculate : PolyCalc.calculate operation first second with
  | error r => exact ⟨r, rfl, by rw [run, hcalculate]⟩
  | ok result =>
      rw [run, hcalculate] at h
      cases h

theorem exists_of_answer_eq_ok {c : Calculator} {outcome : Outcome}
    (h : (c.run operation first second).answer = .ok outcome) :
    ∃ events, PolyCalc.calculate operation first second = .ok (outcome, events)
      ∧ (c.run operation first second).events = events ++ [.calculated operation outcome] := by
  cases hcalculate : PolyCalc.calculate operation first second with
  | error r =>
      rw [run, hcalculate] at h
      cases h
  | ok result =>
      rw [run, hcalculate] at h
      cases h
      exact ⟨result.2, rfl, by rw [run, hcalculate]⟩

theorem exists_events_eq {c : Calculator} {outcome : Outcome}
    (h : (c.run operation first second).answer = .ok outcome) :
    ∃ steps : List (DivisionStep Float), (c.run operation first second).events
      = steps.map .divisionStep ++ [.calculated operation outcome] := by
  obtain ⟨events, hcalculate, hevents⟩ := exists_of_answer_eq_ok h
  obtain ⟨steps, rfl⟩ := exists_steps_of_calculate hcalculate
  exact ⟨steps, hevents⟩

/-- The records of a calculation tell its outcome. A failure is told by warnings alone: by two
    for a faulty polynomial, the fault and then the operand with its text, and by one for a
    faulty value or a zero divisor. A success is told by one information, which comes last,
    without any warning. Before it stand the steps of a division, linked from the degree of the
    pruned dividend down to one below that of the pruned divisor, and none if it lies there
    from the start. For no other operation stands anything before it. -/
theorem log_tells_outcome (c : Calculator) (operation : Operation) (first second : String) :
    TellsOutcome operation first second (c.run operation first second) := by
  constructor
  case failure =>
    intro fault hfault
    obtain ⟨r, hcalculate, hevents⟩ := exists_of_answer_eq_error hfault
    rw [hevents]
    exact rejects_of_calculate hcalculate
  case onlyWarnings =>
    intro fault hfault event hevent
    obtain ⟨r, hcalculate, hevents⟩ := exists_of_answer_eq_error hfault
    rw [hevents] at hevent
    exact (rejects_of_calculate hcalculate).eq_warn _ (List.mem_map_of_mem hevent)
  case noWarning =>
    intro outcome houtcome event hevent
    obtain ⟨steps, hevents⟩ := exists_events_eq houtcome
    rw [hevents, List.mem_append, List.mem_singleton, List.mem_map] at hevent
    rcases hevent with ⟨s, -, rfl⟩ | rfl
    · exact nofun
    · exact nofun
  case information =>
    intro outcome houtcome
    obtain ⟨steps, hevents⟩ := exists_events_eq houtcome
    -- Steps are told for analysis only, so no information is among them.
    have hsteps : ((steps.map Event.divisionStep).map Event.record).filter
        (fun r => r.1 = .info) = [] := by
      simp [Event.record, Event.severity]
    rw [hevents, List.map_append, List.filter_append, hsteps]
    rfl
  case last =>
    intro outcome houtcome
    obtain ⟨steps, hevents⟩ := exists_events_eq houtcome
    rw [hevents, List.map_append, List.map_singleton, List.getLast?_concat]
    rfl
  case undivided =>
    intro outcome houtcome hop
    obtain ⟨events, hcalculate, hevents⟩ := exists_of_answer_eq_ok houtcome
    rcases calculate_eq_ok hcalculate with ⟨-, rfl⟩ | ⟨hdivide, -⟩
    · exact hevents
    · exact absurd hdivide hop
  case divided =>
    intro outcome houtcome hop
    obtain ⟨events, hcalculate, hevents⟩ := exists_of_answer_eq_ok houtcome
    rcases calculate_eq_ok hcalculate with ⟨hother, -⟩ | ⟨-, p, q, d, hp, hq, hd, rfl, rfl⟩
    · exact absurd hop hother
    · exact ⟨p, q, d, hp, hq, hd, rfl, hevents, fun _ _ => rfl, isCourse_of_divide hd⟩

/-- A division in two steps, whose remainder is a constant. -/
example : ((⟨"results.txt", none⟩ : Calculator).run .divide "x^2+1" "x-1").events.map Event.record
    = [(.debug, "division step: quotient term 1x^1, remainder degree 2 -> Some(1)"),
      (.debug, "division step: quotient term 1x^0, remainder degree 1 -> Some(0)"),
      (.info, "Divide: Polynomials do not divide evenly. Remainder: 2")] := by
  decide +kernel

end Calculator

end PolyCalc
