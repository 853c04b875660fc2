import Blockwork.CommandLine.TestFile

/-!
# When a test passes

A test says how the run should end, what should be printed and what should be returned, each of them
if it cares. It passes when all of that holds, but for one combination: a test that expects an error
does not look at whether it expects a stop as well. No run can do both, so such a test should never
pass; it passes when the run fails with the error.

## Main statements

* `containsText_iff`: a text contains the texts that stand somewhere in it.
* `Expectations.compare_eq_ok_iff`: which runs a test passes with.
* `Expectations.holds_iff`: all that is expected holds just when the test passes and does not expect
  both an error and a stop.
-/

namespace Blockwork

/-! ## Parts of texts -/

theorem hasPart_iff {part cs : List Char} : hasPart part cs ↔ part <:+: cs := by
  induction cs with
  | nil => rw [hasPart, List.isEmpty_iff, List.infix_nil]
  | cons c rest ih =>
    rw [hasPart, Bool.or_eq_true, ih, List.isPrefixOf_iff_prefix, List.infix_cons_iff]

/-- A text contains the texts that stand somewhere in it. -/
theorem containsText_iff {whole part : String} :
    containsText whole part ↔ part.toList <:+: whole.toList :=
  hasPart_iff

/-- The run has failed. -/
def Outcome.Fails (outcome : Outcome) : Prop := ∃ failure, outcome = .failed failure

namespace Expectations

variable {e : Expectations} {outcome : Outcome} {output : String}

/-! ## What is expected -/

/-- If an error is expected, the run fails with a message that contains the text. -/
structure EndsInError (e : Expectations) (outcome : Outcome) : Prop where
  fails : outcome.Fails ↔ e.error.isSome
  message (failure : Failure) (text : String) : outcome = .failed failure → e.error = some text →
    text.toList <:+: failure.error.message.toList

/-- If an output is expected, it is the one that has been printed, but for white space around it. -/
def Prints (e : Expectations) (output : String) : Prop :=
  ∀ text, e.output = some text → trimBlank output = trimBlank text

/-- If a value is expected, the run is completed and has returned an equal one. -/
def Returns (e : Expectations) (outcome : Outcome) : Prop :=
  ∀ value, e.value = some value → ∃ actual, outcome = .completed (some actual) ∧ actual == value

/-- All that a test expects holds of a run and its output. -/
structure Holds (e : Expectations) (outcome : Outcome) (output : String) : Prop where
  error : e.EndsInError outcome
  cancelled : outcome = .cancelled ↔ e.cancelled
  output : e.Prints output
  value : e.Returns outcome

/-! ## What is checked -/

theorem endsInError_failed {failure : Failure} :
    e.EndsInError (.failed failure) ↔
      ∃ text, e.error = some text ∧ containsText failure.error.message text := by
  constructor
  · rintro ⟨fails, message⟩
    obtain ⟨text, expected⟩ := Option.isSome_iff_exists.mp (fails.mp ⟨failure, rfl⟩)
    exact ⟨text, expected, containsText_iff.mpr (message failure text rfl expected)⟩
  · rintro ⟨text, expected, contains⟩
    refine ⟨⟨fun _ => Option.isSome_of_eq_some expected, fun _ => ⟨failure, rfl⟩⟩, ?_⟩
    rintro _ text' ⟨⟩ expected'
    rw [expected] at expected'
    cases expected'
    exact containsText_iff.mp contains

theorem endsInError_of_not_fails (h : ¬outcome.Fails) :
    e.EndsInError outcome ↔ e.error = none := by
  constructor
  · rintro ⟨fails, -⟩
    exact Option.not_isSome_iff_eq_none.mp fun expected => h (fails.mpr expected)
  · intro none
    refine ⟨⟨fun fails => absurd fails h, fun expected => ?_⟩, fun failure _ fails => ?_⟩
    · rw [none] at expected
      cases expected
    · exact absurd ⟨failure, fails⟩ h

/-- The end of a run is checked for the error that is expected; whether it was stopped is checked
only if no error is. -/
theorem checkEnd_eq_ok_iff :
    e.checkEnd outcome = .ok () ↔
      e.EndsInError outcome ∧ (e.error = none → (outcome = .cancelled ↔ e.cancelled)) := by
  cases outcome with
  | failed failure =>
    rw [endsInError_failed]
    cases expected : e.error with
    | none => simp [checkEnd, expected]
    | some text => simp [checkEnd, expected]
  | cancelled =>
    rw [endsInError_of_not_fails (by rintro ⟨failure, ⟨⟩⟩)]
    cases expected : e.error with
    | none => simp [checkEnd, expected]
    | some text => simp [checkEnd, expected]
  | completed value =>
    rw [endsInError_of_not_fails (by rintro ⟨failure, ⟨⟩⟩)]
    cases expected : e.error with
    | none => simp [checkEnd, expected]
    | some text => simp [checkEnd, expected]

theorem checkOutput_eq_ok_iff : e.checkOutput output = .ok () ↔ e.Prints output := by
  unfold Prints
  cases expected : e.output with
  | none => simp [checkOutput, expected]
  | some text => simp [checkOutput, expected]

theorem checkValue_eq_ok_iff : e.checkValue outcome = .ok () ↔ e.Returns outcome := by
  unfold Returns
  cases expected : e.value with
  | none => simp [checkValue, expected]
  | some value =>
    rcases outcome with ⟨_ | actual⟩ | _ | failure <;> simp [checkValue, expected]

/-- One check after another passes if both do. -/
theorem seq_eq_ok_iff {x y : Except TestFailure Unit} :
    (do x; y) = .ok () ↔ x = .ok () ∧ y = .ok () := by
  cases x with
  | error failure => simp [bind, Except.bind]
  | ok u => simp [bind, Except.bind]

/-! ## When a test passes -/

/-- **Which runs a test passes with.** -/
theorem compare_eq_ok_iff :
    e.compare outcome output = .ok () ↔
      e.EndsInError outcome ∧ (e.error = none → (outcome = .cancelled ↔ e.cancelled)) ∧
        e.Prints output ∧ e.Returns outcome := by
  rw [compare, seq_eq_ok_iff, seq_eq_ok_iff, checkEnd_eq_ok_iff, checkOutput_eq_ok_iff,
    checkValue_eq_ok_iff, and_assoc]

/-- **All that is expected holds just when the test passes, and does not expect both an error and a
stop.** -/
theorem holds_iff :
    e.Holds outcome output ↔
      e.compare outcome output = .ok () ∧ ¬(e.error.isSome ∧ e.cancelled) := by
  rw [compare_eq_ok_iff]
  constructor
  · rintro ⟨error, cancelled, output, value⟩
    refine ⟨⟨error, fun _ => cancelled, output, value⟩, ?_⟩
    rintro ⟨expected, stops⟩
    -- a run that was stopped has not failed
    obtain ⟨failure, failed⟩ := error.fails.mpr expected
    rw [cancelled.mpr stops] at failed
    cases failed
  · rintro ⟨⟨error, cancelled, output, value⟩, apart⟩
    refine ⟨error, ?_, output, value⟩
    cases expected : e.error with
    | none => exact cancelled expected
    | some text =>
      obtain ⟨failure, failed⟩ := error.fails.mpr (by rw [expected]; rfl)
      have goesOn : ¬e.cancelled := fun stops => apart ⟨by rw [expected]; rfl, stops⟩
      rw [failed]
      simp [goesOn]

/-- A test that expects both an error and a stop passes with the error alone, although no run does
what it expects. -/
theorem compare_of_both (error : e.error.isSome) (stops : e.cancelled) :
    ¬e.Holds outcome output ∧
      (e.compare outcome output = .ok () ↔
        e.EndsInError outcome ∧ e.Prints output ∧ e.Returns outcome) := by
  constructor
  · rw [holds_iff]
    exact fun h => h.2 ⟨error, stops⟩
  · rw [compare_eq_ok_iff]
    refine and_congr_right fun _ => and_iff_right fun none => ?_
    rw [none] at error
    cases error

/-- A run that fails passes a test that it be stopped. -/
example :
    let e : Expectations :=
      { description := none, chain := none, output := none, error := some "zero", value := none,
        cancelled := true, stopAfter := none, violation := none }
    e.compare (.failed ⟨.arithmetic "division by zero", none⟩) "" = .ok () := by
  rfl

end Expectations

end Blockwork
