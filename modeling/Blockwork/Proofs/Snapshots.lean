import Blockwork.Proofs.Evaluations

/-!
# What a run shows of itself

A snapshot is published whenever a block is begun, and whenever a frame is entered or left for
another one. So the latest one tells where the run is: the chain and the block of the innermost
frame, and how many frames there are. There is one exception. A loop that tests its condition after
a pass goes back to its opener without a snapshot, so as long as nothing is called in the condition,
the block that is shown is still one of the body.

## Main statements

* `Machine.Shows.move`: what is shown stays in step with the frames.
* `Machine.latest_of_calling`: what is shown when a native function is called.

Nothing is assumed of native functions here. They see neither the frames nor the snapshots.
-/

namespace Blockwork

namespace Machine

/-- What a snapshot would tell now. -/
def view (m : Machine) : Option Snapshot :=
  m.frames.head?.map fun f => ⟨f.plan.chain, f.current, m.frames.length⟩

/-- The latest snapshot tells where the run is. -/
def InStep (m : Machine) : Prop := ∀ s, m.view = some s → m.snapshots.head? = some s

/-- The latest snapshot tells where the run is, but perhaps for the block. -/
def Aligned (m : Machine) : Prop :=
  ∀ s, m.view = some s → ∃ block, m.snapshots.head? = some { s with block := block }

/-- What is shown of a machine. While an expression is evaluated it is exact, unless the expression
is the condition of a loop that is tested again. -/
structure Shows (m : Machine) : Prop where
  aligned : m.Aligned
  exact : ∀ around, m.activity.around? = some around → around.purpose ≠ .retest → m.InStep

variable {m n : Machine}

/-! ## Operations -/

theorem InStep.aligned (h : m.InStep) : m.Aligned :=
  fun s view => ⟨s.block, h s view⟩

theorem InStep.shows (h : m.InStep) : m.Shows := ⟨h.aligned, fun _ _ _ => h⟩

/-- What is shown depends on the frames and the snapshots alone. -/
theorem InStep.of_same (h : m.InStep) (frames : n.frames = m.frames)
    (snapshots : n.snapshots = m.snapshots) : n.InStep := by
  unfold InStep view at h ⊢
  rwa [frames, snapshots]

theorem Aligned.of_same (h : m.Aligned) (frames : n.frames = m.frames)
    (snapshots : n.snapshots = m.snapshots) : n.Aligned := by
  unfold Aligned view at h ⊢
  rwa [frames, snapshots]

theorem Shows.of_same (h : m.Shows) (activity : n.activity = m.activity)
    (frames : n.frames = m.frames) (snapshots : n.snapshots = m.snapshots) : n.Shows := by
  refine ⟨h.aligned.of_same frames snapshots, fun around works other => ?_⟩
  rw [activity] at works
  exact (h.exact around works other).of_same frames snapshots

/-- Without frames there is nothing to tell. -/
theorem inStep_of_nil (frames : m.frames = []) : m.InStep := by
  intro s view
  simp [Machine.view, frames] at view

theorem inStep_publish : m.publish.InStep := by
  intro s view
  cases frames : m.frames with
  | nil => simp [Machine.view, publish, frames] at view
  | cons f rest =>
    simp only [publish, frames, Machine.view, List.head?_cons, Option.map_some,
      Option.some.injEq] at view ⊢
    exact view

theorem inStep_push (f : Frame) : (m.push f).InStep := inStep_publish

theorem inStep_pushBody (first stop : Nat) (kind : FrameKind) :
    (m.pushBody first stop kind).InStep := by
  cases frames : m.frames with
  | nil =>
    rw [pushBody, frames]
    exact inStep_of_nil frames
  | cons f rest =>
    rw [pushBody_eq frames]
    exact inStep_push _

theorem inStep_pop : m.pop.InStep := by
  cases frames : m.frames with
  | nil =>
    rw [pop, frames]
    exact inStep_of_nil frames
  | cons f rest =>
    by_cases kind : f.kind = .procedure
    · rw [pop_procedure frames kind]
      exact inStep_publish
    · rw [pop_inner frames kind]
      exact inStep_publish

theorem inStep_leave {frames : List Frame} (is : m.frames = frames) :
    (m.leave frames).InStep := by
  induction frames generalizing m with
  | nil => exact inStep_of_nil is
  | cons f rest ih =>
    unfold leave
    split
    · exact inStep_pop
    · exact ih (frames_pop is)

theorem inStep_finish (outcome : Outcome) : (m.finish outcome).InStep := inStep_of_nil rfl

theorem inStep_beginNext : m.beginNext.InStep := inStep_publish

/-- Where a frame goes on does not matter, as long as it stays at its block. -/
theorem InStep.updateTop (h : m.InStep) (change : Frame → Frame)
    (plan : ∀ f, (change f).plan = f.plan) (current : ∀ f, (change f).current = f.current) :
    (m.updateTop change).InStep := by
  cases frames : m.frames with
  | nil =>
    rw [Machine.updateTop, frames]
    exact h
  | cons f rest =>
    unfold InStep view at h ⊢
    simp only [Machine.updateTop, frames, List.head?_cons, Option.map_some, plan, current,
      List.length_cons] at h ⊢
    exact h

/-- A frame may even go to another block of its chain. -/
theorem Aligned.updateTop (h : m.Aligned) (change : Frame → Frame)
    (plan : ∀ f, (change f).plan = f.plan) : (m.updateTop change).Aligned := by
  cases frames : m.frames with
  | nil =>
    rw [Machine.updateTop, frames]
    exact h
  | cons f rest =>
    unfold Aligned view at h ⊢
    simp only [Machine.updateTop, frames, List.head?_cons, Option.map_some, plan, List.length_cons,
      Option.some.injEq, forall_eq'] at h ⊢
    exact h

theorem InStep.jumpPast (h : m.InStep) (close : Nat) : (m.jumpPast close).InStep :=
  h.updateTop _ (fun _ => rfl) fun _ => rfl

/-- A machine that goes on among its frames works on no expression. -/
theorem Aligned.schedule (h : m.Aligned) : m.schedule.Shows :=
  ⟨h.of_same rfl rfl, nofun⟩

theorem InStep.schedule (h : m.InStep) : m.schedule.Shows := h.aligned.schedule

theorem Aligned.again (h : m.Aligned) : m.again.Shows :=
  (h.updateTop (fun f => { f with next := f.first }) fun _ => rfl).schedule

/-- A machine goes on with a value that is wanted for the same. -/
theorem Shows.wait (h : m.Shows) {around around' : Evaluation}
    (works : m.activity.around? = some around) {activity : Activity}
    (is : activity.around? = some around') (same : around'.purpose = around.purpose) :
    ({ m with activity := activity } : Machine).Shows := by
  refine ⟨h.aligned.of_same rfl rfl, fun around'' works' other => ?_⟩
  obtain rfl : around' = around'' := Option.some.inj (is.symm.trans works')
  exact (h.exact around works (same ▸ other)).of_same rfl rfl

/-! ## Moves -/

theorem inStep_giveBack (value : Value) : (m.giveBack value).InStep := by
  have left : (m.leave m.frames).InStep := inStep_leave rfl
  unfold giveBack
  simp only
  split
  · exact left.of_same rfl rfl
  · split
    · exact inStep_finish _
    · exact left.of_same rfl rfl

theorem inStep_enterProcedure (definition : String) (body : ChainId) (parameters : List String)
    (arguments : List Value) (around : Option Evaluation) :
    (m.enterProcedure definition body parameters arguments around).InStep := by
  unfold enterProcedure
  split
  · exact inStep_finish _
  · split
    · exact inStep_finish _
    · exact (inStep_push _).of_same rfl rfl

theorem Shows.conclude {purpose : Purpose} (h : m.Shows)
    (works : m.activity.around? = some ⟨purpose, []⟩) (value : Value) :
    (m.conclude value purpose).Shows := by
  have exact (other : purpose ≠ .retest) : m.InStep := h.exact _ works other
  cases purpose with
  | statement => exact (exact nofun).schedule
  | times opener close =>
    cases number : value.expectNumber with
    | error e =>
      rw [conclude_times_error number]
      exact (inStep_finish _).shows
    | ok x =>
      rw [conclude_times number]
      split
      · exact ((exact nofun).jumpPast close).schedule
      · exact (inStep_pushBody _ _ _).schedule
  | firstTest opener close =>
    rw [conclude_firstTest]
    split
    · exact ((exact nofun).jumpPast close).schedule
    · exact (inStep_pushBody _ _ _).schedule
  | retest =>
    rw [conclude_retest]
    split
    · exact inStep_pop.schedule
    · -- the blocks are run once more, and there is no snapshot before the first of them is begun
      exact h.aligned.again
  | branch opener otherwise close =>
    rw [conclude_branch]
    split
    · exact (inStep_pushBody _ _ _).schedule
    · exact ((exact nofun).jumpPast close).schedule
  | giveBack => exact (inStep_giveBack value).shows

theorem inStep_perform (h : m.InStep) (index : Nat) (op : Op) :
    (m.perform index op).InStep := by
  cases op with
  | forever close => exact (inStep_pushBody _ _ _).of_same rfl rfl
  | _ => exact h.of_same rfl rfl

theorem inStep_performNext (f : Frame) : (m.performNext f).InStep := by
  cases op : f.plan.ops[f.next]? with
  | some op =>
    rw [performNext_some op]
    exact inStep_perform inStep_beginNext _ _
  | none =>
    rw [performNext_none op]
    exact inStep_beginNext.of_same rfl rfl

/-- At the end of a frame there is no snapshot when its blocks are run once more. -/
theorem Aligned.endOfFrame (h : m.Aligned) (f : Frame) : (m.endOfFrame f).Shows := by
  unfold Machine.endOfFrame
  split
  · exact inStep_pop.schedule
  · exact inStep_pop.schedule
  · exact inStep_pop.schedule
  · exact h.again
  · split
    · refine (h.updateTop _ ?_).again
      intro f
      rfl
    · exact inStep_pop.schedule
  · simp only
    split
    · -- the frame is at the opener now, and the block that is shown is still the one before
      refine ⟨(h.updateTop _ ?_).of_same rfl rfl, fun around works other => ?_⟩
      · intro f
        rfl
      · cases works
        exact absurd rfl other
    · exact inStep_pop.schedule

theorem Aligned.dispatch (h : m.Aligned) : m.dispatch.Shows := by
  unfold Machine.dispatch
  split
  · split <;> exact (inStep_finish _).shows
  · split
    · exact (inStep_finish _).shows
    · split
      · exact (inStep_finish _).shows
      · split
        · exact h.endOfFrame _
        · exact (inStep_performNext _).shows

theorem Shows.gather {around : Evaluation} (h : m.Shows)
    (works : m.activity.around? = some around) (callee : Callee) (values : List Value)
    (outer : List PendingCall) (arguments : List Expr) :
    (m.gather callee values around.purpose outer arguments).Shows := by
  cases arguments with
  | nil => exact h.wait works rfl rfl
  | cons e rest => exact h.wait works rfl rfl

theorem Shows.returned {around : Evaluation} (h : m.Shows)
    (works : m.activity.around? = some around) (definition : String) (value : Option Value) :
    (m.returned definition value around).Shows := by
  cases value with
  | some value => exact h.wait works rfl rfl
  | none =>
    rw [returned_none]
    split
    · exact (inStep_finish _).shows
    · exact h.aligned.schedule

/-- Native functions change nothing of what is shown. -/
theorem Shows.within (h : m.Shows) (s : Surroundings) : (m.within s).Shows := h.of_same rfl rfl rfl

theorem Shows.react {around : Evaluation} (h : m.Shows)
    (works : m.activity.around? = some around) (definition : String) (reaction : Reaction) :
    (m.react definition around reaction).Shows := by
  cases reaction with
  | returned value => exact h.returned works definition value
  | failed error => exact (inStep_finish _).shows
  | panicked message => exact ⟨h.aligned.of_same rfl rfl, nofun⟩
  | waiting wait value => exact h.wait works rfl rfl

/-- **A move keeps what is shown in step with the frames.** -/
theorem Shows.move (h : m.Shows) : m.move.Shows := by
  have moves := m.moves
  generalize m.move = n at moves ⊢
  cases moves with
  | idle activity => exact h
  | halts halted => exact h
  | dispatches activity => exact h.aligned.dispatch
  | gives activity => exact h.wait (by rw [activity]; rfl) rfl rfl
  | @applies callee arguments around activity =>
    have works : m.activity.around? = some around := by rw [activity]; rfl
    exact h.gather works _ _ _ _
  | concludes activity => exact h.conclude (by rw [activity]; rfl) _
  | @delivers value purpose c outer activity =>
    have works : m.activity.around? = some ⟨purpose, c :: outer⟩ := by rw [activity]; rfl
    exact h.gather works _ _ _ _
  | @calls callee arguments around activity =>
    have works : m.activity.around? = some around := by rw [activity]; rfl
    cases callee with
    | native definition function =>
      rw [call_native]
      exact (h.within _).react works _ _
    | procedure definition body parameters =>
      rw [call_procedure]
      exact (inStep_enterProcedure _ _ _ _ _).shows
  | resumes activity => exact h.returned (by rw [activity]; rfl) _ _

theorem Shows.requestStop (h : m.Shows) : m.requestStop.Shows := h.of_same rfl rfl rfl

/-! ## Runs -/

/-- A run shows where it is from its start on. -/
theorem shows_of_reaches {p : Program} {natives : NativeTable} {limit : Nat} {output : Output}
    {chain : ChainId} (reaches : Reaches ((ofProgram p natives limit output).start chain) m) :
    m.Shows := by
  refine reaches.keeps (P := fun n => n.Shows) ?_ (fun _ h => h.move) fun _ h => h.requestStop
  unfold start
  split
  · exact (inStep_finish _).shows
  · exact (inStep_push _).schedule

/-- **When a native function is called, the latest snapshot tells the chain of the innermost frame
and the number of frames,** and the block of the frame as well, unless the function is called for
the condition of a loop that is tested again. -/
theorem latest_of_calling {p : Program} {natives : NativeTable} {limit : Nat} {output : Output}
    {chain : ChainId} (reaches : Reaches ((ofProgram p natives limit output).start chain) m)
    {definition : String} {function : Native} {arguments : List Value} {around : Evaluation}
    (calls : m.activity = .calling (.native definition function) arguments around) {f : Frame}
    {rest : List Frame} (frames : m.frames = f :: rest) :
    ∃ block, m.snapshots.head? = some ⟨f.plan.chain, block, m.frames.length⟩ ∧
      (around.purpose ≠ .retest → block = f.current) := by
  have shows := shows_of_reaches reaches
  have view : m.view = some ⟨f.plan.chain, f.current, m.frames.length⟩ := by
    rw [Machine.view, frames]
    rfl
  by_cases retest : around.purpose = .retest
  · obtain ⟨block, shown⟩ := shows.aligned _ view
    exact ⟨block, shown, fun other => absurd retest other⟩
  · have shown := shows.exact around (by rw [calls]; rfl) retest _ view
    exact ⟨f.current, shown, fun _ => rfl⟩

end Machine

/-- A loop that tests whether two texts are the same. -/
def Program.testing : Program where
  definitions := .builtins
  globals := .empty
  chains :=
    [⟨0, Chain.origin, [⟨"on_start", []⟩,
      ⟨"repeat_until", [.block "eq" [.literal (.text "a"), .literal (.text "b")]]⟩,
      ⟨"print", [.literal (.text "again")]⟩, ⟨"end", []⟩]⟩]

/-- The test is called once more from the opener, and what is shown is the last block of the
body. -/
example :
    let m := Machine.move^[20]
      ((Machine.ofProgram Program.testing Native.standard 64 .unlimited).start 0)
    m.activity.around?.map Evaluation.purpose = some .retest ∧
      m.frames.head?.map Frame.current = some 1 ∧ m.snapshots.head? = some ⟨0, 2, 2⟩ := by
  decide +kernel

end Blockwork
