import Blockwork.Proofs.Runs

/-!
# What a machine does not look at

Only at one place does a machine look whether a stop has been requested, and nowhere does it look at
the snapshots that it has published. It looks for a plan, and at how deep calls may be nested, only
when it calls a procedure. So it does the same if these are otherwise, as long as it does not look,
except that a native function may be told of a request to stop.

## Main statements

* `Machine.move_aside`: a machine goes on in the same way beside what it does not look at.
* `Machine.move_withTaken`: a machine whose snapshots have been taken goes on in the same way.
-/

namespace Blockwork

/-- What may be otherwise beside a run. -/
structure Aside where
  /-- Whether a stop has been requested. -/
  stop : Bool
  /-- Older snapshots that have not been taken. -/
  taken : List Snapshot
  /-- The plans in the place of those that there are. -/
  plans : List (ChainId × Except Failure Plan) → List (ChainId × Except Failure Plan)
  /-- The depth of calls in the place of the one that is allowed. -/
  limit : Nat → Nat

/-- Only a request to stop and older snapshots are otherwise. -/
def Aside.past (stop : Bool) (taken : List Snapshot) : Aside := ⟨stop, taken, id, id⟩

namespace Machine

/-- The machine with what is otherwise. -/
def aside (m : Machine) (u : Aside) : Machine :=
  { m with
    plans := u.plans m.plans
    depthLimit := u.limit m.depthLimit
    stop := u.stop || m.stop
    snapshots := m.snapshots ++ u.taken }

/-- The machine with a request to stop, if there is one, and with older snapshots. -/
def beside (m : Machine) (stop : Bool) (taken : List Snapshot) : Machine :=
  { m with stop := stop || m.stop, snapshots := m.snapshots ++ taken }

/-- The machine with the snapshots that have been taken from it. -/
def withTaken (m : Machine) (taken : List Snapshot) : Machine := m.beside false taken

theorem requestStop_eq (m : Machine) : m.requestStop = m.aside (.past true []) := by
  simp [requestStop, aside, Aside.past]

/-- What the machine looks at when it calls a procedure is not otherwise. -/
inductive Alike (m : Machine) (u : Aside) (body : ChainId) : Prop where
  /-- Calls are nested as deep as they may be. -/
  | full (full : m.depthLimit ≤ m.depth) (same : u.limit m.depthLimit = m.depthLimit)
  /-- The body may be entered. -/
  | room (room : m.depth < m.depthLimit) (other : m.depth < u.limit m.depthLimit)
      (same : (m.aside u).plan body = m.plan body)

variable {m : Machine} {around : Evaluation} {u : Aside} {taken : List Snapshot}

theorem alike_past (m : Machine) (stop : Bool) (taken : List Snapshot) (body : ChainId) :
    m.Alike (.past stop taken) body := by
  by_cases full : m.depthLimit ≤ m.depth
  · exact .full full rfl
  · exact .room (Nat.lt_of_not_le full) (Nat.lt_of_not_le full) rfl

/-! ## Operations -/

theorem frames_aside : (m.aside u).frames = m.frames := rfl

@[simp] theorem schedule_aside :
    (m.aside u).schedule = m.schedule.aside u := rfl

@[simp] theorem publish_aside : (m.aside u).publish = m.publish.aside u := by
  unfold publish
  rw [frames_aside]
  split <;> rfl

@[simp] theorem push_aside (f : Frame) :
    (m.aside u).push f = (m.push f).aside u := rfl

@[simp] theorem pop_aside : (m.aside u).pop = m.pop.aside u := by
  cases frames : m.frames with
  | nil => simp only [pop, frames_aside, frames]
  | cons f rest =>
    have frames' : (m.aside u).frames = f :: rest := frames
    by_cases kind : f.kind = .procedure
    · rw [pop_procedure frames kind, pop_procedure frames' kind, ← publish_aside]
      rfl
    · rw [pop_inner frames kind, pop_inner frames' kind, ← publish_aside]
      rfl

@[simp] theorem leave_aside (frames : List Frame) :
    (m.aside u).leave frames = (m.leave frames).aside u := by
  induction frames generalizing m with
  | nil => rfl
  | cons f rest ih =>
    unfold leave
    split
    · exact pop_aside
    · rw [pop_aside, ih]

@[simp] theorem updateTop_aside (change : Frame → Frame) :
    (m.aside u).updateTop change = (m.updateTop change).aside u := by
  unfold updateTop
  rw [frames_aside]
  split <;> rfl

@[simp] theorem jumpPast_aside (close : Nat) :
    (m.aside u).jumpPast close = (m.jumpPast close).aside u :=
  updateTop_aside _

@[simp] theorem pushBody_aside (first last : Nat) (kind : FrameKind) :
    (m.aside u).pushBody first last kind =
      (m.pushBody first last kind).aside u := by
  unfold pushBody
  rw [frames_aside]
  split
  · rfl
  · exact push_aside _

@[simp] theorem again_aside : (m.aside u).again = m.again.aside u := by
  simp only [again, updateTop_aside, schedule_aside]

/-! ## Moves -/

/-- A procedure is called in the same way if what is looked at is not otherwise. -/
theorem enterProcedure_aside {body : ChainId} (alike : m.Alike u body) (definition : String)
    (parameters : List String) (arguments : List Value) (wanted : Option Evaluation) :
    (m.aside u).enterProcedure definition body parameters arguments wanted =
      (m.enterProcedure definition body parameters arguments wanted).aside u := by
  have limit : (m.aside u).depthLimit = u.limit m.depthLimit := rfl
  have depth : (m.aside u).depth = m.depth := rfl
  unfold enterProcedure
  rw [limit, depth]
  cases alike with
  | full full same =>
    rw [same, if_pos full, if_pos full]
    rfl
  | room room other same =>
    rw [if_neg (Nat.not_le.mpr other), if_neg (Nat.not_le.mpr room), same]
    cases m.plan body <;> rfl

theorem start_aside {chain : ChainId} (same : (m.aside u).plan chain = m.plan chain) :
    (m.aside u).start chain = (m.start chain).aside u := by
  unfold start
  rw [same]
  split
  · rfl
  · rw [push_aside, schedule_aside]

theorem giveBack_aside (value : Value) :
    (m.aside u).giveBack value = (m.giveBack value).aside u := by
  unfold giveBack
  simp only [frames_aside, leave_aside]
  generalize m.leave m.frames = n
  have same : (n.aside u).floor = n.floor := rfl
  rw [same]
  by_cases above : n.floor < n.frames.length
  · rw [if_pos above, if_pos above, schedule_aside]
  · rw [if_neg above, if_neg above]
    have same : (n.aside u).suspended = n.suspended := rfl
    rw [same]
    cases n.suspended <;> rfl

theorem conclude_aside (value : Value) (purpose : Purpose) :
    (m.aside u).conclude value purpose =
      (m.conclude value purpose).aside u := by
  cases purpose with
  | statement => rfl
  | times opener close =>
    cases number : value.expectNumber with
    | error e =>
      rw [conclude_times_error number, conclude_times_error number]
      rfl
    | ok x =>
      rw [conclude_times number, conclude_times number]
      split <;> simp only [jumpPast_aside, pushBody_aside, schedule_aside]
  | firstTest opener close =>
    rw [conclude_firstTest, conclude_firstTest]
    split <;> simp only [jumpPast_aside, pushBody_aside, schedule_aside]
  | retest =>
    rw [conclude_retest, conclude_retest]
    split
    · rw [pop_aside, schedule_aside]
    · exact again_aside
  | branch opener middle close =>
    rw [conclude_branch, conclude_branch]
    split <;> simp only [jumpPast_aside, pushBody_aside, schedule_aside]
  | giveBack => exact giveBack_aside value

theorem returned_aside (definition : String) (value : Option Value) :
    (m.aside u).returned definition value around =
      (m.returned definition value around).aside u := by
  cases value with
  | some value => rfl
  | none =>
    rw [returned_none, returned_none]
    split <;> rfl

theorem gather_aside (callee : Callee) (values : List Value) (purpose : Purpose)
    (outer : List PendingCall) (arguments : List Expr) :
    (m.aside u).gather callee values purpose outer arguments =
      (m.gather callee values purpose outer arguments).aside u := by
  cases arguments <;> rfl

theorem perform_aside (index : Nat) (op : Op) :
    (m.aside u).perform index op = (m.perform index op).aside u := by
  cases op with
  | forever close => simp only [perform, jumpPast_aside, pushBody_aside, schedule_aside]
  | _ => rfl

theorem performNext_aside (f : Frame) :
    (m.aside u).performNext f = (m.performNext f).aside u := by
  unfold performNext
  simp only [updateTop_aside, publish_aside]
  split
  · exact perform_aside _ _
  · rfl

theorem endOfFrame_aside (f : Frame) :
    (m.aside u).endOfFrame f = (m.endOfFrame f).aside u := by
  unfold endOfFrame
  split
  · rw [pop_aside, schedule_aside]
  · rw [pop_aside, schedule_aside]
  · rw [pop_aside, schedule_aside]
  · exact again_aside
  · split
    · rw [updateTop_aside, again_aside]
    · rw [pop_aside, schedule_aside]
  · simp only [updateTop_aside]
    split
    · rfl
    · rw [pop_aside, schedule_aside]

theorem react_aside (definition : String) (reaction : Reaction) :
    (m.aside u).react definition around reaction =
      (m.react definition around reaction).aside u := by
  cases reaction with
  | returned value => exact returned_aside _ _
  | _ => rfl

/-- A request to stop is looked at here, so there must not be one beside the machine. -/
theorem dispatch_aside (quiet : u.stop = false) : (m.aside u).dispatch = m.dispatch.aside u := by
  have floor : (m.aside u).floor = m.floor := rfl
  have suspended : (m.aside u).suspended = m.suspended := rfl
  have stop : (m.aside u).stop = m.stop := by
    show (u.stop || m.stop) = m.stop
    rw [quiet, Bool.false_or]
  unfold dispatch
  rw [floor, suspended, stop, frames_aside]
  split
  · split <;> rfl
  · split
    · rfl
    · split
      · rfl
      · split
        · exact endOfFrame_aside _
        · exact performNext_aside _

/-- A native function sees the same if no stop is requested beside the machine. -/
theorem call_native_aside (quiet : u.stop = false) (definition : String) (function : Native)
    (arguments : List Value) :
    (m.aside u).call arguments around (.native definition function) =
      (m.call arguments around (.native definition function)).aside u := by
  have sees : (m.aside u).surroundings = m.surroundings := by
    simp [surroundings, aside, quiet]
  rw [call_native, call_native, sees]
  generalize function m.surroundings arguments = answer
  have leaves : (m.aside u).within answer.2 = (m.within answer.2).aside u := by
    simp [within, aside, quiet]
  rw [leaves]
  exact react_aside _ _

/-- **A machine goes on in the same way beside what it does not look at.** -/
theorem move_aside
    (quiet : u.stop = false ∨ m.activity ≠ .scheduling ∧ ∀ definition function arguments around,
      m.activity ≠ .calling (.native definition function) arguments around)
    (alike : ∀ definition body parameters arguments around,
      m.activity = .calling (.procedure definition body parameters) arguments around →
        m.Alike u body) :
    (m.aside u).move = m.move.aside u := by
  have same : (m.aside u).activity = m.activity := rfl
  cases activity : m.activity with
  | scheduling =>
    rw [activity] at same
    rw [move_scheduling activity, move_scheduling same]
    exact dispatch_aside (quiet.resolve_right fun looks => looks.1 activity)
  | evaluating e around =>
    rw [activity] at same
    cases e with
    | literal value => rw [move_literal activity, move_literal same]; rfl
    | native definition function arguments =>
      rw [move_native activity, move_native same, gather_aside]
    | call definition body parameters arguments =>
      rw [move_call activity, move_call same, gather_aside]
  | delivering value around =>
    rw [activity] at same
    obtain ⟨purpose, calls⟩ := around
    cases calls with
    | nil => rw [move_conclude activity, move_conclude same, conclude_aside]
    | cons c outer => rw [move_deliver activity, move_deliver same, gather_aside]
  | calling callee arguments around =>
    rw [activity] at same
    rw [move_calling activity, move_calling same]
    cases callee with
    | native definition function =>
      exact call_native_aside (quiet.resolve_right fun looks => looks.2 _ _ _ _ activity) _ _ _
    | procedure definition body parameters =>
      rw [call_procedure, call_procedure, enterProcedure_aside (alike _ _ _ _ _ activity)]
  | waiting wait definition value around =>
    rw [activity] at same
    rw [move_waiting activity, move_waiting same, returned_aside]
  | idle | ended _ | panicked _ =>
    rw [activity] at same
    simp only [move, step, activity, same]

/-- **A machine whose snapshots have been taken goes on in the same way.** -/
theorem move_withTaken : (m.withTaken taken).move = m.move.withTaken taken :=
  move_aside (u := .past false taken) (.inl rfl) fun _ _ _ _ _ _ => alike_past _ _ _ _

end Machine

end Blockwork
