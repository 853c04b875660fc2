import Blockwork.Proofs.Cancellation

/-!
# What the end of a run leaves behind

A run that ends gives up all that it holds, whichever way it ends. A run that breaks off in a native
function gives up nothing.

## Main statements

* `Machine.closes_move`: how a move may close a run, and with which failures.
* `Machine.leaves_move`: what a machine gives up when it ends.
* `Machine.holdsNothing_of_reaches`: a run that has ended holds nothing.

Nothing is assumed of native functions here.
-/

namespace Blockwork

namespace Machine

/-! ## Ends -/

/-- A machine has given up all that a run holds. -/
structure HoldsNothing (m : Machine) : Prop where
  frames : m.frames = []
  suspended : m.suspended = []
  depth : m.depth = 0
  scopes : m.env.scopes = []
  gauge : m.gauge = ⟨0, 0⟩

/-- A machine that has ended holds nothing, and one that breaks off what it held before. -/
structure Leaves (m n : Machine) : Prop where
  ended : ∀ outcome, n.outcome? = some outcome → n.HoldsNothing
  panicked : ∀ message, n.activity = .panicked message → n.gauge = m.gauge

section

variable {m n : Machine} {around : Evaluation}

/-- A run that goes on leaves nothing yet. -/
theorem Leaves.of_going_on (h : n.isOver = false) : Leaves m n := by
  refine ⟨fun outcome ended => ?_, fun message panicked => ?_⟩
  · rw [isOver_of_outcome ended] at h
    cases h
  · rw [isOver, panicked] at h
    cases h

theorem holdsNothing_finish (outcome : Outcome) : (n.finish outcome).HoldsNothing :=
  ⟨rfl, rfl, rfl, rfl, rfl⟩

theorem leaves_finish (outcome : Outcome) : Leaves m (n.finish outcome) :=
  ⟨fun _ _ => holdsNothing_finish outcome, nofun⟩

theorem isOver_gather (callee : Callee) (values : List Value) (purpose : Purpose)
    (outer : List PendingCall) (arguments : List Expr) :
    (m.gather callee values purpose outer arguments).isOver = false := by
  cases arguments <;> rfl

/-! ## How a move closes a run -/

/-- A machine is about to call a procedure, and calls are nested as deep as they may be. -/
def Overflows (m : Machine) : Prop :=
  m.depthLimit ≤ m.depth ∧ ∃ definition body parameters arguments around,
    m.activity = .calling (.procedure definition body parameters) arguments around

/-- An error that a machine raises at the block that is being run. -/
inductive Raises (m : Machine) : RunError → Prop where
  | typeMismatch {expected found : String} (works : m.activity.around?.isSome) :
      Raises m (.typeMismatch expected found)
  | noValue {definition : String} (works : m.activity.around?.isSome) :
      Raises m (.noValue definition)
  | missingReturn {s : Suspension} {outer : List Suspension} (activity : m.activity = .scheduling)
      (suspended : m.suspended = s :: outer) (floor : m.frames.length ≤ s.floor) :
      Raises m (.missingReturn s.procedure)
  | stackOverflow (overflows : m.Overflows) : Raises m (.stackOverflow m.depthLimit)
  /-- A native function may answer with any error. -/
  | native {definition : String} {function : Native} {arguments : List Value}
      {around : Evaluation} {e : RunError}
      (activity : m.activity = .calling (.native definition function) arguments around)
      (answer : (function m.surroundings arguments).1 = .failed e) : Raises m e

/-- A failure with which a machine may end. -/
inductive FailsWith (m : Machine) : Failure → Prop where
  | raised {e : RunError} (raises : m.Raises e) : FailsWith m ⟨e, m.location⟩
  /-- The body of a procedure that is called has no plan. -/
  | unplanned {id : ChainId} {failure : Failure} (works : m.activity.around?.isSome)
      (missing : m.plan id = .error failure) : FailsWith m failure

/-- How a move leaves a machine. -/
inductive Closes (m : Machine) : Machine → Prop where
  | goes {n : Machine} (on : n.isOver = false) : Closes m n
  | breaks {s : Surroundings} {message : String} :
      Closes m { m.within s with activity := .panicked message }
  | ends {n : Machine} {outcome : Outcome}
      (fails : ∀ failure, outcome = .failed failure → m.FailsWith failure) :
      Closes m (n.finish outcome)

theorem Closes.raise {e : RunError} (raises : m.Raises e) (same : n.location = m.location) :
    Closes m (n.fail e) := by
  refine .ends ?_
  rintro _ ⟨⟩
  rw [same]
  exact .raised raises

theorem closes_giveBack (value : Value) : Closes m (n.giveBack value) := by
  unfold giveBack
  simp only
  split
  · exact .goes rfl
  · split
    · exact .ends nofun
    · exact .goes rfl

theorem closes_conclude (works : m.activity.around?.isSome) (value : Value) (purpose : Purpose) :
    Closes m (m.conclude value purpose) := by
  cases purpose with
  | statement => exact .goes rfl
  | times opener close =>
    cases number : value.expectNumber with
    | error e =>
      rw [conclude_times_error number]
      refine .raise ?_ rfl
      unfold Value.expectNumber at number
      split at number
      · cases number
      · cases number
        exact .typeMismatch works
    | ok x =>
      rw [conclude_times number]
      split <;> exact .goes rfl
  | firstTest opener close =>
    rw [conclude_firstTest]
    split <;> exact .goes rfl
  | retest =>
    rw [conclude_retest]
    split <;> exact .goes rfl
  | branch opener otherwise close =>
    rw [conclude_branch]
    split <;> exact .goes rfl
  | giveBack => exact closes_giveBack value

theorem closes_returned (works : m.activity.around?.isSome) (same : n.location = m.location)
    (definition : String) (value : Option Value) :
    Closes m (n.returned definition value around) := by
  cases value with
  | some value => exact .goes rfl
  | none =>
    rw [returned_none]
    split
    · exact .raise (.noValue works) same
    · exact .goes rfl

theorem closes_dispatch (activity : m.activity = .scheduling) : Closes m m.dispatch := by
  unfold dispatch
  split
  · next floor =>
    split
    · exact .ends nofun
    · next s outer suspended =>
      refine .raise (.missingReturn activity suspended ?_) rfl
      rwa [show m.floor = floorOf m.suspended from rfl, suspended] at floor
  · split
    · exact .ends nofun
    · split
      · exact .ends nofun
      · split
        · exact .goes (isOver_endOfFrame _)
        · exact .goes (isOver_performNext _)

theorem closes_call {callee : Callee} {arguments : List Value}
    (activity : m.activity = .calling callee arguments around) :
    Closes m (m.call arguments around callee) := by
  have works : m.activity.around?.isSome := by rw [activity]; rfl
  cases callee with
  | native definition function =>
    rw [call_native]
    cases answer : (function m.surroundings arguments).1 with
    | returned value => exact closes_returned (n := m.within _) works rfl definition value
    | failed error => exact .raise (.native activity answer) rfl
    | panicked message => exact .breaks
    | waiting wait value => exact .goes rfl
  | procedure definition body parameters =>
    rw [call_procedure]
    unfold enterProcedure
    split
    · next full =>
      exact .raise
        (.stackOverflow ⟨full, definition, body, parameters, arguments, around, activity⟩)
        rfl
    · split
      · next failure missing =>
        refine .ends ?_
        rintro _ ⟨⟩
        exact .unplanned works missing
      · exact .goes rfl

/-- **How a move closes a run:** what it ends with, if it does. -/
theorem closes_move (runs : m.isOver = false) : Closes m m.move := by
  have moves := m.moves
  generalize m.move = n at moves ⊢
  cases moves with
  | idle activity => exact .goes runs
  | halts halted =>
    rw [runs] at halted
    cases halted
  | dispatches activity => exact closes_dispatch activity
  | gives activity => exact .goes rfl
  | applies activity => exact .goes (isOver_gather _ _ _ _ _)
  | concludes activity => exact closes_conclude (by rw [activity]; rfl) _ _
  | delivers activity => exact .goes (isOver_gather _ _ _ _ _)
  | calls activity => exact closes_call activity
  | resumes activity => exact closes_returned (by rw [activity]; rfl) rfl _ _

/-- What a move of a run that goes on fails with. -/
theorem failsWith_of_move (runs : m.isOver = false) {failure : Failure}
    (ended : m.move.outcome? = some (.failed failure)) : m.FailsWith failure := by
  have closes := closes_move runs
  generalize m.move = n at closes ended
  cases closes with
  | goes on =>
    rw [isOver_of_outcome ended] at on
    cases on
  | breaks => cases ended
  | ends fails => exact fails failure (Option.some.inj ended)

/-- **A machine ends by giving up all that it holds, or it breaks off and gives up nothing.** -/
theorem leaves_move (runs : m.isOver = false) : Leaves m m.move := by
  have closes := closes_move runs
  generalize m.move = n at closes
  cases closes with
  | goes on => exact .of_going_on on
  | breaks => exact ⟨nofun, fun _ _ => rfl⟩
  | ends fails => exact leaves_finish _

end

/-! ## Runs -/

/-- **A run that has ended holds nothing,** whatever native functions there are. -/
theorem holdsNothing_of_reaches {m n : Machine} {chain : ChainId} {outcome : Outcome}
    (reaches : Reaches (m.start chain) n) (ended : n.outcome? = some outcome) :
    n.HoldsNothing := by
  refine reaches.keeps (P := fun n => ∀ outcome, n.outcome? = some outcome → n.HoldsNothing) ?_
    (fun n held => ?_) (fun n held outcome ended => ?_) outcome ended
  · unfold start
    split
    · exact fun _ _ => holdsNothing_finish _
    · exact nofun
  · cases runs : n.isOver with
    | true =>
      rw [move_of_isOver runs]
      exact held
    | false => exact (leaves_move runs).ended
  · obtain ⟨frames, suspended, depth, scopes, gauge⟩ := held outcome ended
    exact ⟨frames, suspended, depth, scopes, gauge⟩

theorem gauge_of_reaches {p : Program} {natives : NativeTable} {limit : Nat} {output : Output}
    {chain : ChainId} {m : Machine} {outcome : Outcome}
    (reaches : Reaches ((ofProgram p natives limit output).start chain) m)
    (ended : m.outcome? = some outcome) : m.gauge = ⟨0, 0⟩ :=
  (holdsNothing_of_reaches reaches ended).gauge

end Machine

end Blockwork
