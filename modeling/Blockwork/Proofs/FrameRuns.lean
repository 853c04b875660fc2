import Blockwork.Proofs.Calls
import Blockwork.Proofs.Frames
import Blockwork.Proofs.Natives

/-!
# The frames of a run

Whatever a program does, and whether or not it passes the check, the frames of its runs lie on each
other as its bodies do. The scopes are those of the procedures that are called as long as native
functions leave them alone.

## Main statements

* `Machine.InOrder.move`: a move keeps the frames in order.
* `Machine.Tidy.move`: a move keeps the counts in order if native functions leave the scopes alone.
* `Machine.inOrder_of_reaches`: the frames of a run are in order at every point.
* `Program.nested_of_reaches`: what that means for the frames, the scopes and the blocks of a run.

The invariant has a part for the frames alone (`Stacked`), which depends on what the run does next,
and a part for what is counted along with them (`Machine.Tidy`), which does not.
-/

namespace Blockwork

namespace Machine

/-! ## Counts -/

/-- The scopes are those of the procedures that are called, and both the gauge and the limit go by
them. -/
structure Tidy (m : Machine) : Prop where
  scopes : m.env.scopes.length = m.depth
  gauge : m.gauge = ⟨m.frames.length, m.depth⟩
  limit : m.depth ≤ m.depthLimit

namespace Tidy

variable {m : Machine}

theorem activity (h : m.Tidy) (activity : Activity) :
    ({ m with activity := activity } : Machine).Tidy :=
  ⟨h.scopes, h.gauge, h.limit⟩

theorem schedule (h : m.Tidy) : m.schedule.Tidy := h.activity _

theorem publish (h : m.Tidy) : m.publish.Tidy := by
  unfold Machine.publish
  split <;> exact ⟨h.scopes, h.gauge, h.limit⟩

theorem updateTop (h : m.Tidy) (change : Frame → Frame) : (m.updateTop change).Tidy := by
  unfold Machine.updateTop
  split
  · exact h
  · next f rest frames => exact ⟨h.scopes, by simpa [frames] using h.gauge, h.limit⟩

/-- What is recorded is tidy. -/
theorem record (scopes : m.env.scopes.length = m.depth) (limit : m.depth ≤ m.depthLimit) :
    m.record.Tidy :=
  ⟨scopes, congrArg (Gauge.mk m.frames.length) scopes, limit⟩

/-- A frame is entered, and with the body of a procedure its scope. -/
theorem entered (scopes : m.env.scopes.length = m.depth) (limit : m.depth ≤ m.depthLimit)
    (f : Frame) : (m.push f).Tidy :=
  (Tidy.record (m := { m with frames := f :: m.frames }) scopes limit).publish

theorem push (h : m.Tidy) (f : Frame) : (m.push f).Tidy := entered h.scopes h.limit f

theorem pushBody (h : m.Tidy) (first stop : Nat) (kind : FrameKind) :
    (m.pushBody first stop kind).Tidy := by
  unfold Machine.pushBody
  split
  · exact h
  · exact h.push _

theorem pop (h : m.Tidy) : m.pop.Tidy := by
  cases frames : m.frames with
  | nil => simpa only [Machine.pop, frames] using h
  | cons f rest =>
    by_cases kind : f.kind = .procedure
    · rw [pop_procedure frames kind]
      refine (Tidy.record ?_ ?_).publish
      · show m.env.scopes.tail.length = m.depth - 1
        rw [List.length_tail, h.scopes]
      · exact Nat.le_trans (Nat.sub_le _ _) h.limit
    · rw [pop_inner frames kind]
      exact (Tidy.record (m := { m with frames := rest }) h.scopes h.limit).publish

theorem leave (h : m.Tidy) (frames : List Frame) : (m.leave frames).Tidy := by
  induction frames generalizing m with
  | nil => exact h
  | cons f rest ih =>
    unfold Machine.leave
    split
    · exact h.pop
    · exact ih h.pop

theorem finish (m : Machine) (outcome : Outcome) : (m.finish outcome).Tidy :=
  Tidy.record rfl (Nat.zero_le _)

/-- A native function that leaves the scopes alone. -/
theorem within (h : m.Tidy) {s : Surroundings} (same : s.env.scopes.length = m.env.scopes.length) :
    (m.within s).Tidy :=
  ⟨same.trans h.scopes, h.gauge, h.limit⟩

theorem giveBack (h : m.Tidy) (value : Value) : (m.giveBack value).Tidy := by
  have left := h.leave m.frames
  unfold Machine.giveBack
  simp only
  split
  · exact left.schedule
  · split
    · exact .finish _ _
    · exact ⟨left.scopes, left.gauge, left.limit⟩

theorem conclude (h : m.Tidy) (value : Value) (purpose : Purpose) :
    (m.conclude value purpose).Tidy := by
  have past (close : Nat) : (m.jumpPast close).Tidy := h.updateTop _
  cases purpose with
  | statement => exact h.schedule
  | times opener close =>
    cases number : value.expectNumber with
    | error e =>
      rw [conclude_times_error number]
      exact .finish _ _
    | ok x =>
      rw [conclude_times number]
      split
      · exact (past close).schedule
      · exact ((past close).pushBody _ _ _).schedule
  | firstTest opener close =>
    rw [conclude_firstTest]
    split
    · exact (past close).schedule
    · exact ((past close).pushBody _ _ _).schedule
  | retest =>
    rw [conclude_retest]
    split
    · exact h.pop.schedule
    · exact (h.updateTop _).schedule
  | branch opener middle close =>
    rw [conclude_branch]
    split
    · exact ((past close).pushBody _ _ _).schedule
    · exact (past close).schedule
  | giveBack => exact h.giveBack value

theorem performNext (h : m.Tidy) (f : Frame) : (m.performNext f).Tidy := by
  have begun : m.beginNext.Tidy := (h.updateTop _).publish
  cases op : f.plan.ops[f.next]? with
  | none =>
    rw [performNext_none op]
    exact begun.schedule
  | some op' =>
    rw [performNext_some op]
    cases op' with
    | forever close => exact ((begun.updateTop _).pushBody _ _ _).schedule
    | _ => exact begun.activity _

theorem endOfFrame (h : m.Tidy) (f : Frame) : (m.endOfFrame f).Tidy := by
  unfold Machine.endOfFrame
  split
  · exact h.pop.schedule
  · exact h.pop.schedule
  · exact h.pop.schedule
  · exact (h.updateTop _).schedule
  · split
    · exact ((h.updateTop _).updateTop _).schedule
    · exact h.pop.schedule
  · simp only
    split
    · exact (h.updateTop _).activity _
    · exact (h.updateTop _).pop.schedule

theorem dispatch (h : m.Tidy) : m.dispatch.Tidy := by
  unfold Machine.dispatch
  split
  · split <;> exact .finish _ _
  · split
    · exact .finish _ _
    · split
      · exact .finish _ _
      · split
        · exact h.endOfFrame _
        · exact h.performNext _

theorem enterProcedure (h : m.Tidy) (definition : String) (body : ChainId)
    (parameters : List String) (arguments : List Value) (around : Option Evaluation) :
    (m.enterProcedure definition body parameters arguments around).Tidy := by
  unfold Machine.enterProcedure
  split
  · exact .finish _ _
  · next room =>
    split
    · exact .finish _ _
    · refine Tidy.schedule (Tidy.entered ?_ ?_ _)
      · exact congrArg (· + 1) h.scopes
      · exact Nat.lt_of_not_le room

theorem returned (h : m.Tidy) (definition : String) (value : Option Value) (around : Evaluation) :
    (m.returned definition value around).Tidy := by
  cases value with
  | some value => exact h.activity _
  | none =>
    rw [returned_none]
    split
    · exact .finish _ _
    · exact h.schedule

theorem gather (h : m.Tidy) (callee : Callee) (values : List Value) (purpose : Purpose)
    (outer : List PendingCall) (arguments : List Expr) :
    (m.gather callee values purpose outer arguments).Tidy := by
  cases arguments with
  | nil => exact h.activity _
  | cons e rest => exact h.activity _

/-- A native function that leaves the scopes alone leaves the counts in order. -/
theorem call (h : m.Tidy) {callee : Callee} {arguments : List Value} {around : Evaluation}
    (keeps : ∀ definition function, callee = .native definition function → function.KeepsScopes) :
    (m.call arguments around callee).Tidy := by
  cases callee with
  | native definition function =>
    rw [call_native]
    have within := h.within (keeps definition function rfl m.surroundings arguments)
    cases (function m.surroundings arguments).1 with
    | returned value => exact within.returned _ _ _
    | failed error => exact .finish _ _
    | panicked message => exact within.activity _
    | waiting wait value => exact within.activity _
  | procedure definition body parameters =>
    rw [call_procedure]
    exact h.enterProcedure _ _ _ _ _

/-- **A move keeps the counts in order.** -/
theorem move (h : m.Tidy) (keeps : ∀ definition function arguments around,
      m.activity = .calling (.native definition function) arguments around →
        function.KeepsScopes) : m.move.Tidy := by
  have moves := m.moves
  generalize m.move = n at moves ⊢
  cases moves with
  | idle activity => exact h
  | halts halted => exact h
  | dispatches activity => exact h.dispatch
  | gives activity => exact h.activity _
  | applies activity => exact h.gather _ _ _ _ _
  | concludes activity => exact h.conclude _ _
  | delivers activity => exact h.gather _ _ _ _ _
  | @calls callee arguments around activity =>
    refine h.call ?_
    rintro definition function rfl
    exact keeps definition function arguments around activity
  | resumes activity => exact h.returned _ _ _

end Tidy

/-! ## The invariant -/

section

variable (S : ChainId → List Shape)

/-- The frames are where they belong while a value is wanted, or when none is. -/
def Stands (wanted : Option Purpose) (m : Machine) : Prop :=
  Stacked S wanted m.frames m.depth m.suspended

/-- The frames are where they belong, whatever the machine does. -/
def InOrder (m : Machine) : Prop :=
  match m.activity with
  | .idle => False
  | .scheduling => Left S m.frames m.depth m.suspended
  | .evaluating _ around | .delivering _ around | .calling _ _ around | .waiting _ _ _ around =>
    m.Stands S (some around.purpose)
  | .ended _ => m.frames = [] ∧ m.depth = 0
  | .panicked _ => ∃ wanted, m.Stands S wanted

/-- All plans follow the shapes of their chains. -/
def Planned (m : Machine) : Prop :=
  ∀ (id : ChainId) (plan : Plan), m.plan id = .ok plan → plan.Bracketed (S plan.chain)

/-- The frames of a machine are in order, and so is what is counted along with them. -/
structure Framed (m : Machine) : Prop where
  tidy : m.Tidy
  order : m.InOrder S

end

section

variable {S : ChainId → List Shape} {m : Machine} {wanted : Option Purpose}

theorem Stands.cons (h : m.Stands S wanted) : ∃ f rest, m.frames = f :: rest := by
  cases frames : m.frames with
  | nil => exact absurd frames (Stacked.ne_nil h)
  | cons f rest => exact ⟨f, rest, rfl⟩

/-- The machine goes on among its frames. -/
theorem Stands.inOrder (h : m.Stands S none) : m.schedule.InOrder S := Left.inside h

/-- A statement has no use for a value. -/
theorem Stands.settle (h : m.Stands S (some .statement)) : m.Stands S none := by
  obtain ⟨f, rest, frames⟩ := h.cons
  unfold Stands at h ⊢
  rw [frames] at h ⊢
  exact h.change ⟨rfl, rfl, rfl, rfl⟩ h.fits.sits

/-- The machine goes on with a value. -/
theorem Stands.wait (around : Evaluation) (h : m.Stands S (some around.purpose))
    {activity : Activity} (is : (∃ e, activity = .evaluating e around) ∨
      (∃ value, activity = .delivering value around) ∨
      (∃ callee arguments, activity = .calling callee arguments around) ∨
      ∃ wait definition value, activity = .waiting wait definition value around) :
    ({ m with activity := activity } : Machine).InOrder S := by
  rcases is with ⟨_, rfl⟩ | ⟨_, rfl⟩ | ⟨_, _, rfl⟩ | ⟨_, _, _, rfl⟩
  · exact h
  · exact h
  · exact h
  · exact h

theorem inOrder_finish (m : Machine) (outcome : Outcome) : (m.finish outcome).InOrder S :=
  ⟨rfl, rfl⟩

/-! ## Leaving frames -/

theorem Stands.pop (h : m.Stands S wanted) : Left S m.pop.frames m.pop.depth m.pop.suspended := by
  obtain ⟨f, rest, frames⟩ := h.cons
  unfold Stands at h
  rw [frames] at h
  rw [frames_pop frames, depth_pop frames, suspended_pop]
  exact Stacked.pop h

/-- The frame that a body lies on stays. -/
theorem Stands.pop_inner {f : Frame} {rest : List Frame} (h : m.Stands S wanted)
    (is : m.frames = f :: rest) (inner : f.kind.isBoundary = false) : m.pop.Stands S none := by
  have notProcedure : f.kind ≠ .procedure := by
    intro kind
    rw [kind] at inner
    cases inner
  unfold Stands at h ⊢
  rw [is] at h
  rw [frames_pop is, depth_pop is, suspended_pop, if_neg notProcedure]
  exact Stacked.pop_inner h inner

theorem Stands.leave (h : m.Stands S wanted) {frames : List Frame} (is : m.frames = frames) :
    Left S (m.leave frames).frames (m.leave frames).depth (m.leave frames).suspended := by
  induction frames generalizing m wanted with
  | nil => exact absurd is (Stacked.ne_nil h)
  | cons f rest ih =>
    by_cases boundary : f.kind.isBoundary
    · rw [leave_boundary boundary]
      exact h.pop
    · have inner : f.kind.isBoundary = false := by simpa using boundary
      rw [leave_inner inner]
      exact ih (h.pop_inner is inner) (frames_pop is)

/-- A value is handed over to whoever waits for it, or it ends the run. -/
theorem Stands.giveBack (h : m.Stands S wanted) (value : Value) :
    (m.giveBack value).InOrder S := by
  have left := h.leave rfl
  unfold Machine.giveBack
  generalize m.leave m.frames = n at left
  have floor_eq : n.floor = floorOf n.suspended := rfl
  simp only [floor_eq]
  rcases left.split with ⟨frames, -, suspended⟩ | stack | ⟨s, outer, suspended, floor, stack⟩
  · rw [if_neg (by simp [frames]), suspended]
    exact inOrder_finish n _
  · rw [if_pos (Stacked.floor_lt stack)]
    exact Stands.inOrder stack
  · rw [if_neg (by simp [suspended, floorOf, floor]), suspended]
    exact Stands.wait (m := { n with suspended := outer }) s.evaluation stack
      (Or.inr (Or.inl ⟨value, rfl⟩))

/-! ## Using a value -/

/-- The block that opens a body is done. -/
theorem Stands.jumpPast {f g : Frame} {rest : List Frame}
    (h : Stacked S wanted (f :: rest) m.depth m.suspended) (frames : m.frames = g :: rest)
    (same : g.plan = f.plan ∧ g.first = f.first ∧ g.stop = f.stop ∧ g.kind = f.kind) {flow : Flow}
    {middle : Option Nat} {opener close : Nat}
    (opens : g.Opens (S g.plan.chain) flow middle opener close) :
    (m.jumpPast close).Stands S none := by
  unfold Stands Machine.jumpPast
  rw [frames_updateTop frames, depth_updateTop, suspended_updateTop]
  exact h.skip same opens

/-- The body of the block is entered. -/
theorem Stands.pushBody {f g : Frame} {rest : List Frame}
    (h : Stacked S wanted (f :: rest) m.depth m.suspended) (frames : m.frames = g :: rest)
    (same : g.plan = f.plan ∧ g.first = f.first ∧ g.stop = f.stop ∧ g.kind = f.kind) {flow : Flow}
    {middle : Option Nat} {opener close first stop : Nat}
    (opens : g.Opens (S g.plan.chain) flow middle opener close) (kind : FrameKind)
    (runs : kind.Runs flow opener)
    (body : IsBody opener middle close first stop) :
    ((m.jumpPast close).pushBody first stop kind).Stands S none := by
  have past : (m.jumpPast close).frames = { g with next := close + 1 } :: rest :=
    frames_updateTop frames _
  rw [pushBody_eq past]
  unfold Stands
  rw [frames_push, depth_push, suspended_push, past, Machine.jumpPast, depth_updateTop,
    suspended_updateTop]
  exact h.enter same opens runs body

/-- The value of an expression is used where its block stands. -/
theorem Stands.conclude {purpose : Purpose} (h : m.Stands S (some purpose)) (value : Value) :
    (m.conclude value purpose).InOrder S := by
  obtain ⟨f, rest, frames⟩ := h.cons
  have stack : Stacked S (some purpose) (f :: rest) m.depth m.suspended := frames ▸ h
  have same : f.plan = f.plan ∧ f.first = f.first ∧ f.stop = f.stop ∧ f.kind = f.kind :=
    ⟨rfl, rfl, rfl, rfl⟩
  cases purpose with
  | statement => exact h.settle.inOrder
  | times opener close =>
    have opens : f.Opens (S f.plan.chain) .repeatTimes none opener close := stack.fits.sits
    cases number : value.expectNumber with
    | error e =>
      rw [conclude_times_error number]
      exact inOrder_finish m _
    | ok x =>
      rw [conclude_times number]
      split
      · exact (Stands.jumpPast stack frames same opens).inOrder
      · next positive =>
        exact (Stands.pushBody stack frames same opens (.repeated _)
          (Nat.one_le_iff_ne_zero.mpr positive) ⟨rfl, rfl⟩).inOrder
  | firstTest opener close =>
    have opens : f.Opens (S f.plan.chain) .repeatUntil none opener close := stack.fits.sits
    rw [conclude_firstTest]
    split
    · exact (Stands.jumpPast stack frames same opens).inOrder
    · exact (Stands.pushBody stack frames same opens (.untilHolds _) rfl
        ⟨rfl, rfl⟩).inOrder
  | retest =>
    obtain ⟨⟨before, after⟩, opener, kind⟩ := stack.fits.sits
    rw [conclude_retest]
    split
    · exact h.pop
    · refine Stands.inOrder (m := m.updateTop _) ?_
      unfold Stands
      rw [frames_updateTop frames, depth_updateTop, suspended_updateTop]
      exact stack.change ⟨rfl, rfl, rfl, rfl⟩ ⟨.nil _, before.append after⟩
  | branch opener middle close =>
    have opens : f.Opens (S f.plan.chain) .ifThen middle opener close := stack.fits.sits
    rw [conclude_branch]
    split
    · next first stop chosen =>
      exact (Stands.pushBody stack frames same opens .branch trivial
        (isBody_of_chosenBranch chosen)).inOrder
    · exact (Stands.jumpPast stack frames same opens).inOrder
  | giveBack => exact h.giveBack value

/-! ## Doing a block -/

/-- The next block of the innermost frame is begun. -/
theorem inOrder_performNext {f : Frame} {rest : List Frame} (frames : m.frames = f :: rest)
    (h : m.Stands S none) (more : f.next < f.stop) : (m.performNext f).InOrder S := by
  have stack : Stacked S none (f :: rest) m.depth m.suspended := frames ▸ h
  obtain ⟨before, after⟩ : f.Rests (S f.plan.chain) := stack.fits.sits
  obtain ⟨op, shape, hop, hshape, fits, begins⟩ := stack.next_block more
  have begun := frames_beginNext frames
  have stack' : Stacked S none (f :: rest) m.beginNext.depth m.beginNext.suspended := by
    rw [depth_beginNext, suspended_beginNext]
    exact stack
  have stands (wanted : Option Purpose)
      (sits : Frame.Sits (S f.plan.chain) { f with next := f.next + 1, current := f.next } wanted) :
      m.beginNext.Stands S wanted := by
    unfold Stands
    rw [begun]
    exact stack'.change ⟨rfl, rfl, rfl, rfl⟩ sits
  have rests (plain : shape = .plain) :
      Frame.Rests (S f.plan.chain) { f with next := f.next + 1, current := f.next } := by
    rw [plain] at hshape
    exact ⟨before.append (.single hshape), after.of_plain more hshape⟩
  have opens {flow : Flow} {middle : Option Nat} {close : Nat}
      (opener : shape = .opener flow middle close) :=
    stack.opens_next more (opener ▸ hshape)
  have evaluates (e : Expr) (purpose : Purpose) (sits : Frame.Sits (S f.plan.chain)
      { f with next := f.next + 1, current := f.next } (some purpose)) :
      (m.beginNext.evaluate e purpose).InOrder S :=
    Stands.wait ⟨purpose, []⟩ (stands (some purpose) sits) (Or.inl ⟨e, rfl⟩)
  rw [performNext_some hop]
  cases fits with
  | hat => exact (stands none (rests rfl)).inOrder
  -- a block that is begun is plain or opens a body
  | otherwise => rcases begins with plain | ⟨_, _, _, opener⟩ <;> contradiction
  | close => rcases begins with plain | ⟨_, _, _, opener⟩ <;> contradiction
  | statement => exact evaluates _ .statement (rests rfl)
  | giveBack => exact evaluates _ .giveBack (rests rfl)
  | repeatTimes => exact evaluates _ (.times f.next _) (opens rfl)
  | repeatUntil => exact evaluates _ (.firstTest f.next _) (opens rfl)
  | ifThen => exact evaluates _ (.branch f.next _ _) (opens rfl)
  | @forever close =>
    exact (Stands.pushBody stack' begun ⟨rfl, rfl, rfl, rfl⟩ (opens rfl) .forever trivial
      ⟨rfl, rfl⟩).inOrder

/-- The innermost frame has come to its end. -/
theorem inOrder_endOfFrame {f : Frame} {rest : List Frame} (frames : m.frames = f :: rest)
    (h : m.Stands S none) : (m.endOfFrame f).InOrder S := by
  have stack : Stacked S none (f :: rest) m.depth m.suspended := frames ▸ h
  obtain ⟨before, after⟩ : f.Rests (S f.plan.chain) := stack.fits.sits
  have left : m.pop.schedule.InOrder S := h.pop
  unfold endOfFrame
  cases kind : f.kind with
  | root => exact left
  | procedure => exact left
  | branch => exact left
  | forever =>
    refine Stands.inOrder (m := m.updateTop _) ?_
    unfold Stands
    rw [frames_updateTop frames, depth_updateTop, suspended_updateTop]
    exact stack.change ⟨rfl, rfl, rfl, kind.symm ▸ rfl⟩ ⟨.nil _, before.append after⟩
  | repeated remaining =>
    by_cases more : 1 < remaining
    · simp only [if_pos more]
      refine Stands.inOrder (m := Machine.updateTop (Machine.updateTop m _) _) ?_
      unfold Stands
      rw [frames_updateTop (frames_updateTop frames _), depth_updateTop, depth_updateTop,
        suspended_updateTop, suspended_updateTop]
      exact stack.countDown kind more ⟨.nil _, before.append after⟩
    · simp only [if_neg more]
      exact left
  | untilHolds opener =>
    obtain ⟨condition, close, hop⟩ := stack.condition kind
    simp only [hop]
    refine Stands.wait (m := m.updateTop _) ⟨.retest, []⟩ ?_ (Or.inl ⟨condition, rfl⟩)
    unfold Stands
    rw [frames_updateTop frames, depth_updateTop, suspended_updateTop]
    exact stack.change ⟨rfl, rfl, rfl, rfl⟩ ⟨⟨before, after⟩, opener, kind⟩

/-- The machine looks what to do next. -/
theorem inOrder_dispatch (h : Left S m.frames m.depth m.suspended) : m.dispatch.InOrder S := by
  have floor_eq : m.floor = floorOf m.suspended := rfl
  unfold dispatch
  rw [floor_eq]
  split
  · split
    · exact inOrder_finish m _
    · exact inOrder_finish m _
  · next above =>
    split
    · exact inOrder_finish m _
    · split
      · exact inOrder_finish m _
      · next f rest frames =>
        rcases h.split with ⟨none, -, -⟩ | stack | ⟨s, outer, suspended, floor, -⟩
        · rw [none] at frames; cases frames
        · split
          · exact inOrder_endOfFrame frames stack
          · next more => exact inOrder_performNext frames stack (Nat.lt_of_not_le more)
        · -- the frames of an evaluation that waits are not above the floor
          rw [suspended, floorOf] at above
          simp [floor] at above

/-! ## Calls -/

theorem Stands.enterProcedure {around : Option Evaluation} (planned : m.Planned S)
    (h : m.Stands S (some (around.elim .statement Evaluation.purpose))) (definition : String)
    (body : ChainId) (parameters : List String) (arguments : List Value) :
    (m.enterProcedure definition body parameters arguments around).InOrder S := by
  unfold Machine.enterProcedure
  split
  · exact inOrder_finish m _
  · split
    · exact inOrder_finish m _
    · next plan ok =>
      have bracketed := planned _ plan ok
      have fits : Frame.Fits S (.enter plan 0 plan.ops.size .procedure) none := by
        refine ⟨bracketed, .nil _, ?_⟩
        show Closed (S plan.chain) 0 plan.ops.size
        rw [← bracketed.length]
        exact bracketed.closed
      refine Left.inside ?_
      simp only [Machine.schedule, frames_push, depth_push, suspended_push]
      cases around with
      | none => exact .statement rfl ⟨rfl, rfl⟩ fits h.settle
      | some around => exact .value rfl ⟨rfl, rfl⟩ fits rfl h

theorem Stands.returned {around : Evaluation} (h : m.Stands S (some around.purpose))
    (definition : String) (value : Option Value) :
    (m.returned definition value around).InOrder S := by
  cases value with
  | some value => exact Stands.wait around h (Or.inr (Or.inl ⟨value, rfl⟩))
  | none =>
    rw [returned_none]
    split
    · exact inOrder_finish m _
    · next unwanted =>
      rw [Evaluation.purpose_of_unwanted unwanted] at h
      exact h.settle.inOrder

theorem Stands.gather {purpose : Purpose} (h : m.Stands S (some purpose)) (callee : Callee)
    (values : List Value) (outer : List PendingCall) (arguments : List Expr) :
    (m.gather callee values purpose outer arguments).InOrder S := by
  cases arguments with
  | nil => exact Stands.wait ⟨purpose, outer⟩ h (Or.inr (Or.inr (Or.inl ⟨_, _, rfl⟩)))
  | cons e rest => exact Stands.wait ⟨purpose, _⟩ h (Or.inl ⟨e, rfl⟩)

/-- A native function does not see the frames. -/
theorem Stands.call {around : Evaluation} (h : m.Stands S (some around.purpose))
    (planned : m.Planned S) (callee : Callee) (arguments : List Value) :
    (m.call arguments around callee).InOrder S := by
  cases callee with
  | native definition function =>
    rw [call_native]
    cases (function m.surroundings arguments).1 with
    | returned value => exact Stands.returned (m := m.within _) h definition value
    | failed error => exact inOrder_finish _ _
    | panicked message => exact ⟨some around.purpose, h⟩
    | waiting wait value =>
      exact Stands.wait (m := m.within _) around h (Or.inr (Or.inr (Or.inr ⟨_, _, _, rfl⟩)))
  | procedure definition body parameters =>
    rw [call_procedure]
    refine Stands.enterProcedure planned ?_ _ _ _ _
    split
    · exact h
    · next unwanted =>
      rw [Evaluation.purpose_of_unwanted unwanted] at h
      exact h

/-- **A move keeps the frames in order,** whatever native functions do. -/
theorem InOrder.move (h : m.InOrder S) (planned : m.Planned S) : m.move.InOrder S := by
  have order := h
  unfold InOrder at order
  have moves := m.moves
  generalize m.move = n at moves ⊢
  cases moves with
  | idle activity => exact h
  | halts halted => exact h
  | dispatches activity =>
    rw [activity] at order
    exact inOrder_dispatch order
  | @gives value around activity =>
    rw [activity] at order
    exact Stands.wait around order (Or.inr (Or.inl ⟨value, rfl⟩))
  | applies activity =>
    rw [activity] at order
    exact Stands.gather order _ _ _ _
  | concludes activity =>
    rw [activity] at order
    exact Stands.conclude order _
  | delivers activity =>
    rw [activity] at order
    exact Stands.gather order _ _ _ _
  | calls activity =>
    rw [activity] at order
    exact Stands.call order planned _ _
  | resumes activity =>
    rw [activity] at order
    exact Stands.returned order _ _

end

end Machine

/-! ## Runs of programs -/

/-- The shapes of the first chain of a number. -/
def Program.shapes (p : Program) (id : ChainId) : List Shape :=
  match p.chain? id with
  | some c =>
    match c.shapes p.definitions with
    | .ok shapes => shapes
    | .error _ => []
  | none => []

theorem Program.planned {p : Program} {natives : NativeTable} {m : Machine}
    (h : m.plans = p.plans natives) : m.Planned p.shapes := by
  intro id plan ok
  rw [Machine.plan_of_plans h] at ok
  cases found : p.chain? id with
  | none => rw [found] at ok; cases ok
  | some c =>
    rw [found] at ok
    obtain ⟨shapes, ops, hs, -, -⟩ := Plan.ofChain_ok ok
    have number : c.id = id := by simpa using List.find?_some found
    rw [Plan.chain_of_ofChain ok, number, Program.shapes, found]
    simp only [hs]
    exact Plan.bracketed_of_ofChain ok hs

theorem Program.nesting_shapes (p : Program) (id : ChainId) :
    Tree.depth (Tree.read (p.shapes id) 0 (p.shapes id).length) ≤ p.nesting := by
  have le_max (l : List Nat) (x : Nat) (mem : x ∈ l) : x ≤ l.foldr max 0 := by
    induction l with
    | nil => cases mem
    | cons y rest ih =>
      rcases List.mem_cons.mp mem with rfl | mem
      · exact Nat.le_max_left _ _
      · exact Nat.le_trans (ih mem) (Nat.le_max_right _ _)
  have empty : Tree.depth (Tree.read [] 0 0) ≤ p.nesting := by
    rw [Tree.read_self, Tree.depth]
    exact Nat.zero_le _
  unfold Program.shapes
  split
  · next c found =>
    split
    · next shapes hs =>
      refine le_max _ _ (List.mem_map.mpr ⟨c, List.mem_of_find?_eq_some found, ?_⟩)
      simp only [Chain.trees, hs]
    · exact empty
  · exact empty

namespace Machine

/-- The frames of a run of a program lie on each other as the bodies of the program do. -/
structure Nested (p : Program) (limit : Nat) (m : Machine) : Prop where
  /-- The chain that was asked for is at the bottom, and only there. -/
  root : ∀ (i : Nat) (f : Frame), m.frames[i]? = some f →
    (f.kind = .root ↔ i + 1 = m.frames.length)
  range : ∀ f ∈ m.frames, f.first ≤ f.next ∧ f.next ≤ f.stop ∧ f.stop ≤ f.plan.ops.size
  /-- A body lies on a frame that contains it and goes on behind its end. -/
  body : ∀ (i : Nat) (f : Frame), m.frames[i]? = some f → f.kind.isBoundary = false →
    ∃ g flow middle opener close, m.frames[i + 1]? = some g ∧ g.plan = f.plan ∧
      (p.shapes f.plan.chain)[opener]? = some (.opener flow middle close) ∧
      (p.shapes f.plan.chain)[close]? = some (.close opener) ∧ g.next = close + 1 ∧
      g.first ≤ opener ∧ IsBody opener middle close f.first f.stop ∧ close < g.stop
  untilHolds : ∀ f ∈ m.frames, ∀ opener, f.kind = .untilHolds opener →
    ∃ condition close, f.plan.ops[opener]? = some (.repeatUntil condition close)
  repeated : ∀ f ∈ m.frames, ∀ remaining, f.kind = .repeated remaining → 1 ≤ remaining
  procedures : m.frames.countP (fun f => f.kind = .procedure) = m.depth
  scopes : m.env.scopes.length = m.depth
  gauge : m.gauge = ⟨m.frames.length, m.depth⟩
  bounded : m.depth ≤ limit
  /-- A block that is begun next is there, and it is neither an else nor an end. -/
  block : m.activity = .scheduling → ∀ (f : Frame) (rest : List Frame), m.frames = f :: rest →
    m.floor < m.frames.length → f.next < f.stop →
      ∃ op shape, f.plan.ops[f.next]? = some op ∧ (p.shapes f.plan.chain)[f.next]? = some shape ∧
        op.Fits shape ∧
        (shape = .plain ∨ ∃ flow middle close, shape = .opener flow middle close)
  /-- What is counted down is not zero yet. -/
  counted : ∀ f ∈ m.frames, f.kind = .procedure → 1 ≤ m.depth
  height : m.frames.length ≤ (limit + 1) * (1 + p.nesting)

/-- The frames of a machine in order are nested as the bodies are. -/
theorem nested_of_stacked {p : Program} {m : Machine} {wanted : Option Purpose}
    {suspended : List Suspension} (h : Stacked p.shapes wanted m.frames m.depth suspended)
    (tidy : m.Tidy)
    (rests : m.activity = .scheduling → m.floor < m.frames.length → m.Stands p.shapes none) :
    m.Nested p m.depthLimit := by
  have each (f : Frame) (mem : f ∈ m.frames) : ∃ wanted' rest depth suspended,
      Stacked p.shapes wanted' (f :: rest) depth suspended := by
    obtain ⟨i, there⟩ := List.getElem?_of_mem mem
    obtain ⟨_, _, _, stack⟩ := Stacked.drop h there
    exact ⟨_, _, _, _, stack⟩
  refine ⟨fun i f there => ?_, Stacked.in_range h, fun i f there inner => ?_,
    fun f mem opener kind => ?_, fun f mem remaining kind => ?_, Stacked.count_procedures h,
    tidy.scopes, tidy.gauge, tidy.limit, fun activity f rest frames above more => ?_,
    fun f mem kind => ?_, ?_⟩
  · obtain ⟨_, _, _, stack⟩ := Stacked.drop h there
    have lt := (List.getElem?_eq_some_iff.mp there).1
    rw [stack.root_iff, List.drop_eq_nil_iff]
    omega
  · obtain ⟨_, _, _, stack⟩ := Stacked.drop h there
    obtain ⟨g, flow, middle, close, head, lies⟩ := stack.lies_on inner
    rw [List.head?_drop] at head
    obtain ⟨first, -, -, within⟩ := lies.contained
    exact ⟨g, flow, middle, g.current, close, head, lies.plan.symm, lies.shape, lies.close_shape,
      lies.next, first, lies.body, within⟩
  · obtain ⟨_, _, _, _, stack⟩ := each f mem
    exact stack.condition kind
  · obtain ⟨_, _, _, _, stack⟩ := each f mem
    exact stack.one_le_remaining kind
  · have stack := rests activity above
    unfold Stands at stack
    rw [frames] at stack
    exact stack.next_block more
  · rw [← Stacked.count_procedures h]
    exact List.one_le_countP_iff.mpr ⟨f, mem, by simpa using kind⟩
  · refine Nat.le_trans (Stacked.length_le p.nesting_shapes h) ?_
    exact Nat.mul_le_mul_right _ (Nat.succ_le_succ tidy.limit)

/-- A machine without frames. -/
theorem nested_of_nil {p : Program} {m : Machine} (frames : m.frames = []) (depth : m.depth = 0)
    (tidy : m.Tidy) : m.Nested p m.depthLimit := by
  refine ⟨?_, ?_, ?_, ?_, ?_, ?_, tidy.scopes, tidy.gauge, tidy.limit, ?_, ?_, ?_⟩
  all_goals simp [frames, depth]

theorem Framed.nested {p : Program} {m : Machine} (h : m.Framed p.shapes) :
    m.Nested p m.depthLimit := by
  have order := h.order
  unfold InOrder at order
  cases activity : m.activity with
  | idle => rw [activity] at order; exact order.elim
  | scheduling =>
    rw [activity] at order
    rcases Left.split order with ⟨frames, depth, -⟩ | stack | ⟨s, outer, suspended, floor, stack⟩
    · exact nested_of_nil frames depth h.tidy
    · exact nested_of_stacked stack h.tidy fun _ _ => stack
    · -- the value of a procedure is missing: nothing is above the floor, so no block is next
      refine nested_of_stacked stack h.tidy fun _ above => ?_
      rw [show m.floor = floorOf m.suspended from rfl, suspended, floorOf] at above
      simp [floor] at above
  | evaluating _ _ | delivering _ _ | calling _ _ _ | waiting _ _ _ _ =>
    rw [activity] at order
    exact nested_of_stacked order h.tidy fun other => absurd other (by simp [activity])
  | ended outcome =>
    rw [activity] at order
    exact nested_of_nil order.1 order.2 h.tidy
  | panicked message =>
    rw [activity] at order
    obtain ⟨wanted, stack⟩ := order
    exact nested_of_stacked stack h.tidy fun other => absurd other (by simp [activity])

/-- A run begins with its frames in order, if there are none before. -/
theorem inOrder_start {p : Program} {natives : NativeTable} {m : Machine} (frames : m.frames = [])
    (depth : m.depth = 0) (suspended : m.suspended = []) (plans : m.plans = p.plans natives)
    (chain : ChainId) : (m.start chain).InOrder p.shapes := by
  unfold start
  split
  · exact inOrder_finish _ _
  · next plan ok =>
    have bracketed := p.planned plans _ plan ok
    have fits : Frame.Fits p.shapes (.enter plan 0 plan.ops.size .root) none := by
      refine ⟨bracketed, .nil _, ?_⟩
      show Closed (p.shapes plan.chain) 0 plan.ops.size
      rw [← bracketed.length]
      exact bracketed.closed
    refine Left.inside ?_
    simp only [Machine.schedule, frames_push, depth_push, suspended_push, frames, depth, suspended]
    exact .root rfl ⟨rfl, rfl⟩ fits

theorem tidy_start {p : Program} {natives : NativeTable} {limit : Nat} {output : Output}
    {chain : ChainId} : ((ofProgram p natives limit output).start chain).Tidy := by
  unfold start
  split
  · exact .finish _ _
  · exact Tidy.schedule (Tidy.entered rfl (Nat.zero_le _) _)

theorem plans_of_reaches {p : Program} {natives : NativeTable} {limit : Nat} {output : Output}
    {chain : ChainId} {m : Machine}
    (reaches : Reaches ((ofProgram p natives limit output).start chain) m) :
    m.plans = p.plans natives :=
  reaches.plans.1.trans (kept_start _ chain).plans

/-- Frames that are in order stay so, whatever native functions there are. -/
theorem InOrder.reaches {p : Program} {natives : NativeTable} {m n : Machine}
    (h : m.InOrder p.shapes) (plans : m.plans = p.plans natives) (reaches : Reaches m n) :
    n.InOrder p.shapes := by
  induction reaches with
  | refl => exact h
  | work on ih => exact ih.move (p.planned (on.plans.1.trans plans))
  | stop on ih => exact ih

/-- **The frames of a run are in order at every point,** whatever native functions there are. -/
theorem inOrder_of_reaches {p : Program} {natives : NativeTable} {limit : Nat} {output : Output}
    {chain : ChainId} {m : Machine}
    (reaches : Reaches ((ofProgram p natives limit output).start chain) m) :
    m.InOrder p.shapes :=
  (inOrder_start rfl rfl rfl rfl chain).reaches (plans_of_reaches .refl) reaches

/-- The counts are in order as well if native functions leave the scopes alone. -/
theorem framed_of_reaches {p : Program} {natives : NativeTable}
    (keeps : ∀ name f, natives.get? name = some f → f.KeepsScopes) {limit : Nat} {output : Output}
    {chain : ChainId} {m : Machine}
    (reaches : Reaches ((ofProgram p natives limit output).start chain) m) :
    m.Framed p.shapes := by
  refine ⟨?_, inOrder_of_reaches reaches⟩
  induction reaches with
  | refl => exact tidy_start
  | work on ih => exact ih.move fun _ _ _ _ activity => called_of_reaches keeps on activity
  | stop on ih => exact ⟨ih.scopes, ih.gauge, ih.limit⟩

end Machine

/-- **The frames of a run lie on each other as the bodies of the program do,** whether or not the
program passes the check, as long as native functions leave the scopes alone. -/
theorem Program.nested_of_reaches {p : Program} {natives : NativeTable}
    (keeps : ∀ name f, natives.get? name = some f → f.KeepsScopes) (limit : Nat) (output : Output)
    (chain : ChainId) (m : Machine)
    (reaches : Machine.Reaches ((Machine.ofProgram p natives limit output).start chain) m) :
    m.Nested p limit := by
  have nested := (Machine.framed_of_reaches keeps reaches).nested
  have bound : m.depthLimit = limit :=
    reaches.plans.2.trans (Machine.kept_start _ chain).depthLimit
  rwa [bound] at nested

/-- A program that runs for ever. Its only loop calls a procedure, and the procedure a loop that is
not left. -/
def Program.ticking : Program where
  definitions := Registry.builtins.insert (.procedure "tick" [])
  globals := .empty
  chains :=
    [⟨0, Chain.origin, [⟨"on_start", []⟩, ⟨"forever", []⟩, ⟨"tick", []⟩, ⟨"end", []⟩]⟩,
      ⟨1, Chain.origin, [⟨"define", [.definition (.procedure "tick" [])]⟩,
        ⟨"repeat_until", [.literal (.boolean false)]⟩, ⟨"end", []⟩]⟩]

/-- A run that has four frames from some point on. -/
theorem Program.nested_of_reaches_ticking :
    (∀ name f, Native.standard.get? name = some f → f.KeepsScopes) ∧
      ∀ k, (Machine.move^[k]
        ((Machine.ofProgram ticking Native.standard 64 .unlimited).start 0)).Nested ticking 64 :=
  have keeps (name : String) (f : Native) (h : Native.standard.get? name = some f) :
      f.KeepsScopes := (Native.harmless_standard h).scopes
  ⟨keeps, fun k => nested_of_reaches keeps 64 .unlimited 0 _ (Machine.reaches_iterate _ k)⟩

example : (Machine.move^[12]
    ((Machine.ofProgram Program.ticking Native.standard 64 .unlimited).start 0)).frames.length =
      4 := by
  decide +kernel

end Blockwork
