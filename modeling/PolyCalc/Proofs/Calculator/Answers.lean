import PolyCalc.Calculator.Basic
import PolyCalc.Proofs.Poly.Reduction

/-!
# The Answers of a Calculator

A calculation can be wrong in several ways at once: either text can be faulty, and
a divisor can be zero. The answer tells of one fault only. The first operand comes
first, whatever the second is, then the second, and a zero divisor comes last,
where both texts are polynomials. A divisor is zero if its coefficients are, not if
it has no terms: `3-3` and `0x^3` have one.

`Answers` lists what can be answered, each with what is known of the operands, and
`answers_run` says that what a calculator answers is among it. The conditions leave
room for one answer only, so each of them decides in both directions.

A calculator remembers the outcome of a calculation that succeeds. When it fails,
the calculator is what it was.

## Main definitions

* `IsInvalidOperand`: An answer that an operand is faulty, with its cause.
* `Computes`: What the operations make of two polynomials.
* `Answers`: What can be answered.
* `IsExactReply`: A reply that answers what it must, and leaves the calculator that
  it must.

## Theorems

* `Computes.exists_of_not_zero`: Only a zero divisor is in the way of an outcome.
* `answers_run`: What a calculator answers.
* `after_run`: What a calculation leaves.
* `run_fails_exactly`: A calculator replies exactly.
-/

namespace PolyCalc

/-- The answer is that an operand is faulty, for the given cause. -/
def IsInvalidOperand (answer : Except Fault Outcome) (cause : String) : Prop :=
  ∃ fault, answer = .error (.invalidOperand fault) ∧ fault.cause = cause

/-- A divisor that nothing can be divided by: all its coefficients are zero. -/
def IsZeroDivisor (operation : Operation) (q : Poly Float) : Prop :=
  operation = .divide ∧ ∀ t ∈ q.terms, Coefficient.isZero t.coefficient = true

/-- What the operations make of two polynomials. -/
inductive Computes (p q : Poly Float) : Operation → Outcome → Prop where
  | add : Computes p q .add (.polynomial (p.add q))
  | subtract : Computes p q .subtract (.polynomial (p.subtract q))
  | multiply : Computes p q .multiply (.polynomial (p.multiply q))
  | divide (d : Division Float) (hd : p.divide q = some d) :
      Computes p q .divide (.division d)

/-- What can be answered to a calculation. -/
inductive Answers (operation : Operation) (first second : String) :
    Except Fault Outcome → Prop where
  /-- The first operand is faulty. -/
  | first (fault : FormatFault) (hfirst : Expression.parse first = .error fault) :
      Answers operation first second (.error (.invalidOperand (.polynomial .first fault)))
  /-- The second operand is no number and should be one. -/
  | value (p : Poly Float) (hop : operation = .evaluate)
      (hfirst : Expression.parse first = .ok p)
      (hvalue : Binary64.readNumber (Text.trim second.toList) = none) :
      Answers operation first second
        (.error (.invalidOperand (.value (String.ofList (Text.trim second.toList)))))
  /-- The polynomial has a value. -/
  | evaluated (p : Poly Float) (x : Float) (hop : operation = .evaluate)
      (hfirst : Expression.parse first = .ok p)
      (hvalue : Binary64.readNumber (Text.trim second.toList) = some x) :
      Answers operation first second (.ok (.value (p.evaluate x)))
  /-- The second polynomial is faulty. -/
  | second (p : Poly Float) (fault : FormatFault) (hop : operation ≠ .evaluate)
      (hfirst : Expression.parse first = .ok p)
      (hsecond : Expression.parse second = .error fault) :
      Answers operation first second (.error (.invalidOperand (.polynomial .second fault)))
  /-- The divisor is zero. -/
  | divisor (p q : Poly Float) (hfirst : Expression.parse first = .ok p)
      (hsecond : Expression.parse second = .ok q) (hzero : IsZeroDivisor operation q) :
      Answers operation first second (.error .divisionByZero)
  /-- The operation has an outcome. -/
  | computed (p q : Poly Float) (outcome : Outcome) (hfirst : Expression.parse first = .ok p)
      (hsecond : Expression.parse second = .ok q) (hzero : ¬IsZeroDivisor operation q)
      (houtcome : Computes p q operation outcome) :
      Answers operation first second (.ok outcome)

/-! ## Operands -/

theorem readOperand_of_ok {operand : Operand} {text : String} {p : Poly Float}
    (h : Expression.parse text = .ok p) : readOperand operand text = .ok p := by
  rw [readOperand, h]
  rfl

theorem parse_of_readOperand {operand : Operand} {text : String} {p : Poly Float}
    (h : readOperand operand text = .ok p) : Expression.parse text = .ok p := by
  unfold readOperand at h
  split at h
  · rename_i hparse
    cases h
    exact hparse
  · cases h

theorem exists_readOperand_of_error (operand : Operand) {text : String} {fault : FormatFault}
    (h : Expression.parse text = .error fault) :
    ∃ events, readOperand operand text
      = .error ⟨.invalidOperand (.polynomial operand fault), events⟩ := by
  rw [readOperand, h]
  exact ⟨_, rfl⟩

theorem readValue_of_some {text : String} {x : Float}
    (h : Binary64.readNumber (Text.trim text.toList) = some x) : readValue text = .ok x := by
  simp only [readValue, h]
  rfl

theorem exists_readValue_of_none {text : String}
    (h : Binary64.readNumber (Text.trim text.toList) = none) :
    ∃ events, readValue text
      = .error ⟨.invalidOperand (.value (String.ofList (Text.trim text.toList))), events⟩ := by
  simp only [readValue, h]
  exact ⟨_, rfl⟩

/-! ## Outcomes -/

/-- Only a zero divisor is in the way of an outcome. -/
theorem Computes.exists_of_not_zero {operation : Operation} (p : Poly Float) {q : Poly Float}
    (hop : operation ≠ .evaluate) (hzero : ¬IsZeroDivisor operation q) :
    ∃ outcome, Computes p q operation outcome := by
  cases operation with
  | add => exact ⟨_, .add⟩
  | subtract => exact ⟨_, .subtract⟩
  | multiply => exact ⟨_, .multiply⟩
  | divide =>
      cases hd : p.divide q with
      | none => exact absurd ⟨rfl, Poly.divide_eq_none_iff.1 hd⟩ hzero
      | some d => exact ⟨_, .divide d hd⟩
  | evaluate => exact absurd rfl hop

/-! ## Calculations -/

section

variable {operation : Operation} {first second : String} {p q : Poly Float}

theorem exists_calculate_of_first {fault : FormatFault}
    (hfirst : Expression.parse first = .error fault) :
    ∃ events, calculate operation first second
      = .error ⟨.invalidOperand (.polynomial .first fault), events⟩ := by
  rcases exists_readOperand_of_error .first hfirst with ⟨events, hread⟩
  refine ⟨events, ?_⟩
  rw [calculate, hread]
  rfl

theorem exists_calculate_of_value (hfirst : Expression.parse first = .ok p)
    (hvalue : Binary64.readNumber (Text.trim second.toList) = none) :
    ∃ events, calculate .evaluate first second
      = .error ⟨.invalidOperand (.value (String.ofList (Text.trim second.toList))), events⟩ := by
  rcases exists_readValue_of_none hvalue with ⟨events, hread⟩
  refine ⟨events, ?_⟩
  rw [calculate, readOperand_of_ok hfirst, hread]
  rfl

theorem calculate_of_evaluated (hfirst : Expression.parse first = .ok p) {x : Float}
    (hvalue : Binary64.readNumber (Text.trim second.toList) = some x) :
    calculate .evaluate first second = .ok (.value (p.evaluate x), []) := by
  rw [calculate, readOperand_of_ok hfirst, readValue_of_some hvalue]
  rfl

theorem exists_calculate_of_second (hop : operation ≠ .evaluate)
    (hfirst : Expression.parse first = .ok p) {fault : FormatFault}
    (hsecond : Expression.parse second = .error fault) :
    ∃ events, calculate operation first second
      = .error ⟨.invalidOperand (.polynomial .second fault), events⟩ := by
  rcases exists_readOperand_of_error .second hsecond with ⟨events, hread⟩
  refine ⟨events, ?_⟩
  rw [calculate, readOperand_of_ok hfirst, hread]
  cases operation with
  | add | subtract | multiply | divide => rfl
  | evaluate => exact absurd rfl hop

theorem exists_calculate_of_divisor (hfirst : Expression.parse first = .ok p)
    (hsecond : Expression.parse second = .ok q) (hzero : IsZeroDivisor operation q) :
    ∃ events, calculate operation first second = .error ⟨.divisionByZero, events⟩ := by
  rcases hzero with ⟨rfl, hzero⟩
  refine ⟨[.divisorRejected second], ?_⟩
  rw [calculate, readOperand_of_ok hfirst, readOperand_of_ok hsecond]
  simp only [bind, Except.bind, Poly.divide_eq_none_iff.2 hzero]
  rfl

theorem exists_calculate_of_computes (hfirst : Expression.parse first = .ok p)
    (hsecond : Expression.parse second = .ok q) {outcome : Outcome}
    (houtcome : Computes p q operation outcome) :
    ∃ events, calculate operation first second = .ok (outcome, events) := by
  rw [calculate, readOperand_of_ok hfirst, readOperand_of_ok hsecond]
  cases houtcome with
  | add | subtract | multiply => exact ⟨_, rfl⟩
  | divide d hd =>
      simp only [bind, Except.bind, hd]
      exact ⟨_, rfl⟩

end

/-! ## Replies -/

namespace Calculator

variable (c : Calculator) (operation : Operation) (first second : String)

theorem answer_of_error {operation : Operation} {first second : String} {fault : Fault}
    (h : ∃ events, PolyCalc.calculate operation first second = .error ⟨fault, events⟩) :
    (c.run operation first second).answer = .error fault := by
  rcases h with ⟨events, h⟩
  rw [run, h]

theorem answer_of_ok {operation : Operation} {first second : String} {outcome : Outcome}
    (h : ∃ events, PolyCalc.calculate operation first second = .ok (outcome, events)) :
    (c.run operation first second).answer = .ok outcome := by
  rcases h with ⟨events, h⟩
  rw [run, h]

/-- What a calculator answers is among what can be answered. -/
theorem answers_run : Answers operation first second (c.run operation first second).answer := by
  cases hfirst : Expression.parse first with
  | error fault =>
      rw [answer_of_error c (exists_calculate_of_first hfirst)]
      exact .first fault hfirst
  | ok p =>
      -- The second text is a value or a polynomial, as the operation has it.
      by_cases hop : operation = .evaluate
      · subst hop
        cases hvalue : Binary64.readNumber (Text.trim second.toList) with
        | none =>
            rw [answer_of_error c (exists_calculate_of_value hfirst hvalue)]
            exact .value p rfl hfirst hvalue
        | some x =>
            rw [answer_of_ok c ⟨_, calculate_of_evaluated hfirst hvalue⟩]
            exact .evaluated p x rfl hfirst hvalue
      · cases hsecond : Expression.parse second with
        | error fault =>
            rw [answer_of_error c (exists_calculate_of_second hop hfirst hsecond)]
            exact .second p fault hop hfirst hsecond
        | ok q =>
            by_cases hzero : IsZeroDivisor operation q
            · rw [answer_of_error c (exists_calculate_of_divisor hfirst hsecond hzero)]
              exact .divisor p q hfirst hsecond hzero
            · rcases Computes.exists_of_not_zero p hop hzero with ⟨outcome, houtcome⟩
              rw [answer_of_ok c (exists_calculate_of_computes hfirst hsecond houtcome)]
              exact .computed p q outcome hfirst hsecond hzero houtcome

/-- A calculation leaves the calculator with its outcome, or as it was if it has
    none. -/
theorem after_run :
    (c.run operation first second).after
      = match (c.run operation first second).answer with
        | .error _ => c
        | .ok outcome => { c with lastResult := some outcome.resultLine } := by
  cases h : PolyCalc.calculate operation first second with
  | error rejection => simp only [run, h]
  | ok result => simp only [run, h]

end Calculator

/-! ## What an answer tells -/

theorem isInvalidOperand_iff {fault : OperandFault} {cause : String} :
    IsInvalidOperand (.error (.invalidOperand fault)) cause ↔ cause = fault.cause := by
  constructor
  · rintro ⟨other, hother, rfl⟩
    cases hother
    rfl
  · rintro rfl
    exact ⟨fault, rfl, rfl⟩

theorem not_isInvalidOperand_ok (outcome : Outcome) (cause : String) :
    ¬IsInvalidOperand (.ok outcome) cause := by
  rintro ⟨fault, hfault, -⟩
  cases hfault

theorem not_isInvalidOperand_divisionByZero (cause : String) :
    ¬IsInvalidOperand (.error .divisionByZero) cause := by
  rintro ⟨fault, hfault, -⟩
  cases hfault

namespace Answers

variable {operation : Operation} {first second : String} {answer : Except Fault Outcome}
  {p q : Poly Float}

theorem isInvalidOperand_of_first (h : Answers operation first second answer)
    {fault : FormatFault} (hfirst : Expression.parse first = .error fault) :
    IsInvalidOperand answer ("Polynomial 1: " ++ fault.cause) := by
  cases h with
  | first other hother =>
      cases hfirst.symm.trans hother
      exact isInvalidOperand_iff.2 rfl
  | value p _ hother | evaluated p _ _ hother | second p _ _ hother | divisor p _ hother
  | computed p _ _ hother => cases hfirst.symm.trans hother

theorem of_evaluate (h : Answers .evaluate first second answer)
    (hfirst : Expression.parse first = .ok p) :
    match Binary64.readNumber (Text.trim second.toList) with
    | none => answer = .error (.invalidOperand (.value (String.ofList (Text.trim second.toList))))
    | some x => answer = .ok (.value (p.evaluate x)) := by
  cases h with
  | first fault hother => cases hfirst.symm.trans hother
  | value other _ hother hvalue =>
      rw [hvalue]
  | evaluated other x _ hother hvalue =>
      cases hfirst.symm.trans hother
      rw [hvalue]
  | second _ _ hop => exact absurd rfl hop
  | divisor _ _ _ _ hzero => cases hzero.1
  | computed _ _ _ _ _ _ houtcome => cases houtcome

theorem of_ne_evaluate (h : Answers operation first second answer) (hop : operation ≠ .evaluate)
    (hfirst : Expression.parse first = .ok p) :
    match Expression.parse second with
    | .error fault => answer = .error (.invalidOperand (.polynomial .second fault))
    | .ok q => IsZeroDivisor operation q ∧ answer = .error .divisionByZero
        ∨ ¬IsZeroDivisor operation q
          ∧ ∃ outcome, Computes p q operation outcome ∧ answer = .ok outcome := by
  cases h with
  | first fault hother => cases hfirst.symm.trans hother
  | value _ hevaluate => exact absurd hevaluate hop
  | evaluated _ _ hevaluate => exact absurd hevaluate hop
  | second other fault _ hother hsecond =>
      rw [hsecond]
  | divisor other q hother hsecond hzero =>
      rw [hsecond]
      exact .inl ⟨hzero, rfl⟩
  | computed other q outcome hother hsecond hzero houtcome =>
      cases hfirst.symm.trans hother
      rw [hsecond]
      exact .inr ⟨hzero, outcome, houtcome, rfl⟩

theorem isInvalidOperand_value_iff (h : Answers .evaluate first second answer)
    (hfirst : Expression.parse first = .ok p) (cause : String) :
    IsInvalidOperand answer cause
      ↔ Binary64.readNumber (Text.trim second.toList) = none
        ∧ cause = "value: '" ++ String.ofList (Text.trim second.toList) ++ "' is not a number" := by
  have hanswer := h.of_evaluate hfirst
  cases hvalue : Binary64.readNumber (Text.trim second.toList) with
  | none =>
      rw [hvalue] at hanswer
      rw [hanswer, isInvalidOperand_iff, and_iff_right rfl]
      rfl
  | some x =>
      rw [hvalue] at hanswer
      rw [hanswer]
      exact iff_of_false (not_isInvalidOperand_ok _ _) (fun h => nomatch h.1)

theorem isInvalidOperand_second_iff (h : Answers operation first second answer)
    (hop : operation ≠ .evaluate) (hfirst : Expression.parse first = .ok p) (cause : String) :
    IsInvalidOperand answer cause
      ↔ ∃ fault, Expression.parse second = .error fault
        ∧ cause = "Polynomial 2: " ++ fault.cause := by
  have hanswer := h.of_ne_evaluate hop hfirst
  cases hsecond : Expression.parse second with
  | error fault =>
      rw [hsecond] at hanswer
      rw [hanswer, isInvalidOperand_iff]
      refine ⟨fun hcause => ⟨fault, rfl, hcause⟩, ?_⟩
      rintro ⟨other, hother, rfl⟩
      cases hother
      rfl
  | ok q =>
      rw [hsecond] at hanswer
      refine iff_of_false ?_ (fun ⟨_, hfault, _⟩ => nomatch hfault)
      rcases hanswer with ⟨-, hanswer⟩ | ⟨-, outcome, -, hanswer⟩
      · rw [hanswer]
        exact not_isInvalidOperand_divisionByZero _
      · rw [hanswer]
        exact not_isInvalidOperand_ok _ _

theorem eq_divisionByZero_iff (h : Answers operation first second answer)
    (hop : operation ≠ .evaluate) (hfirst : Expression.parse first = .ok p)
    (hsecond : Expression.parse second = .ok q) :
    answer = .error .divisionByZero ↔ IsZeroDivisor operation q := by
  have hanswer := h.of_ne_evaluate hop hfirst
  rw [hsecond] at hanswer
  rcases hanswer with ⟨hzero, hanswer⟩ | ⟨hzero, outcome, -, hanswer⟩
  · exact iff_of_true hanswer hzero
  · rw [hanswer]
    exact iff_of_false nofun hzero

/-- The fault of a text is always told as the fault of an operand. -/
theorem ne_format (h : Answers operation first second answer) (fault : FormatFault) :
    answer ≠ .error (.format fault) := by
  -- No constructor of `Answers` has such a fault.
  intro heq
  cases h with
  | first | value | evaluated | second | divisor | computed => cases heq

end Answers

/-! ## The reply -/

/-- A reply answers what it must, and leaves the calculator that it must. -/
structure IsExactReply (c : Calculator) (operation : Operation) (first second : String)
    (reply : Reply) : Prop where
  /-- A fault of the first operand comes before all others. -/
  firstFault : ∀ fault, Expression.parse first = .error fault →
    IsInvalidOperand reply.answer ("Polynomial 1: " ++ fault.cause)
  /-- A value is faulty if it is no number. -/
  valueFault : ∀ p, Expression.parse first = .ok p → operation = .evaluate → ∀ cause,
    (IsInvalidOperand reply.answer cause
      ↔ Binary64.readNumber (Text.trim second.toList) = none
        ∧ cause = "value: '" ++ String.ofList (Text.trim second.toList) ++ "' is not a number")
  /-- Any other second operand is faulty if it is no polynomial. -/
  secondFault : ∀ p, Expression.parse first = .ok p → operation ≠ .evaluate → ∀ cause,
    (IsInvalidOperand reply.answer cause
      ↔ ∃ fault, Expression.parse second = .error fault
        ∧ cause = "Polynomial 2: " ++ fault.cause)
  /-- A divisor is refused if all its coefficients are zero. -/
  zeroDivisor : ∀ p q, Expression.parse first = .ok p → Expression.parse second = .ok q →
    operation = .divide →
    (reply.answer = .error .divisionByZero
      ↔ ∀ t ∈ q.terms, Coefficient.isZero t.coefficient = true)
  /-- Otherwise a polynomial is evaluated, -/
  evaluated : ∀ p x, Expression.parse first = .ok p → operation = .evaluate →
    Binary64.readNumber (Text.trim second.toList) = some x →
    reply.answer = .ok (.value (p.evaluate x))
  /-- and two polynomials have the outcome of the operation. -/
  computed : ∀ p q, Expression.parse first = .ok p → Expression.parse second = .ok q →
    operation ≠ .evaluate → ¬IsZeroDivisor operation q →
    ∃ outcome, Computes p q operation outcome ∧ reply.answer = .ok outcome
  /-- No fault is told as that of a text. -/
  notFormat : ∀ fault, reply.answer ≠ .error (.format fault)
  /-- A calculation that fails leaves the calculator as it was. -/
  failure : ∀ fault, reply.answer = .error fault → reply.after = c
  /-- The outcome of any other is remembered. -/
  success : ∀ outcome, reply.answer = .ok outcome →
    reply.after = { c with lastResult := some outcome.resultLine }

/-- A calculator fails exactly when it must, tells of the right operand, and is changed
    by nothing but success. -/
theorem Calculator.run_fails_exactly (c : Calculator) (operation : Operation)
    (first second : String) :
    IsExactReply c operation first second (c.run operation first second) := by
  have hanswers := c.answers_run operation first second
  have hafter := c.after_run operation first second
  exact
    { firstFault := fun fault => hanswers.isInvalidOperand_of_first
      valueFault := by
        rintro p hfirst rfl
        exact hanswers.isInvalidOperand_value_iff hfirst
      secondFault := fun p hfirst hop => hanswers.isInvalidOperand_second_iff hop hfirst
      zeroDivisor := by
        rintro p q hfirst hsecond rfl
        rw [hanswers.eq_divisionByZero_iff nofun hfirst hsecond]
        exact and_iff_right rfl
      evaluated := by
        rintro p x hfirst rfl hvalue
        have hanswer := hanswers.of_evaluate hfirst
        rw [hvalue] at hanswer
        exact hanswer
      computed := by
        intro p q hfirst hsecond hop hzero
        have hanswer := hanswers.of_ne_evaluate hop hfirst
        rw [hsecond] at hanswer
        exact (hanswer.resolve_left fun h => hzero h.1).2
      notFormat := hanswers.ne_format
      failure := by
        intro fault hfault
        rw [hafter, hfault]
      success := by
        intro outcome houtcome
        rw [hafter, houtcome] }

end PolyCalc
