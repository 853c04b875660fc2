import Blockwork.Proofs.Evaluations

/-!
# Where the calls of a run come from

Whatever a machine evaluates is a part of the expression of one block: the one that is being run in
the innermost frame. An evaluation that waits for a procedure is a part of the block that is being
run in the frame below the procedure. So a call is always made by the block at which the run is
located.

## Main statements

* `Machine.Traced.move`: a move keeps evaluations in the blocks that they belong to.
* `Machine.Traced.calling`: which block makes a call.

Frames below the innermost one stay at their blocks. This is why what is said of an evaluation that
waits stays true until the procedure is left.
-/

namespace Blockwork

/-! ## Parts of an expression -/

/-- An expression is a part of another one. -/
inductive Expr.Contains (e : Expr) : Expr → Prop where
  | self : Contains e e
  | argument {callee : Callee} {arguments : List Expr} {a : Expr}
      (call : Contains e (callee.applied arguments)) (among : a ∈ arguments) : Contains e a

/-- A call whose arguments are being evaluated is a part of an expression. -/
def PendingCall.StandsIn (e : Expr) (c : PendingCall) : Prop :=
  ∃ first, e.Contains (c.callee.applied (first ++ c.rest))

/-- The calls around an expression are parts of another one. -/
def Evaluation.StandsIn (e : Expr) (around : Evaluation) : Prop :=
  ∀ c ∈ around.calls, c.StandsIn e

/-- What is under way is a part of an expression. -/
def Activity.StandsIn (e : Expr) : Activity → Prop
  | .evaluating x around => e.Contains x ∧ around.StandsIn e
  | .delivering _ around | .waiting _ _ _ around => around.StandsIn e
  | .calling callee _ around =>
    (∃ arguments, e.Contains (callee.applied arguments)) ∧ around.StandsIn e
  | .idle | .scheduling | .ended _ | .panicked _ => True

/-- The expression of the block that is being run. -/
def Frame.expr? (f : Frame) : Option Expr := (f.plan.ops[f.current]?).bind Op.expr?

/-- The block that is being run in the innermost frame has an expression that is as `P` says. -/
def Works (frames : List Frame) (P : Expr → Prop) : Prop :=
  ∃ f rest e, frames = f :: rest ∧ f.expr? = some e ∧ P e

theorem Works.mono {frames : List Frame} {P Q : Expr → Prop} (h : Works frames P)
    (imp : ∀ e, P e → Q e) : Works frames Q := by
  obtain ⟨f, rest, e, is, expr, holds⟩ := h
  exact ⟨f, rest, e, is, expr, imp e holds⟩

namespace Machine

/-! ## The invariant -/

section

variable (K : Plan → Prop)

/-- The frames have plans that are as `K` says, calls are not nested deeper than is allowed, and
each evaluation that waits is a part of the block that is being run in the frame it waits on. -/
structure Rooted (m : Machine) : Prop where
  plans : ∀ f ∈ m.frames, K f.plan
  limit : m.depth ≤ m.depthLimit
  suspended : ∀ s ∈ m.suspended, ∃ below, below <:+ m.frames ∧ below.length = s.floor ∧
    Works below fun e => s.evaluation.StandsIn e

/-- What the machine works on is a part of the block that is being run. -/
structure Traced (m : Machine) : Prop where
  rooted : m.Rooted K
  works : m.activity.around?.isSome → Works m.frames fun e => m.activity.StandsIn e

end

/-- The frames that evaluations wait on are below the innermost one. -/
def Covered (m : Machine) : Prop := ∀ s ∈ m.suspended, s.floor < m.frames.length

theorem Stands.covered {S : ChainId → List Shape} {wanted : Option Purpose} {m : Machine}
    (h : m.Stands S wanted) : m.Covered := by
  unfold Stands at h
  unfold Covered
  revert h
  generalize m.frames = frames, m.depth = depth, m.suspended = suspended
  intro h
  induction h with
  | root => exact nofun
  | body _ _ _ ih => exact fun s among => Nat.lt_succ_of_lt (ih s among)
  | statement _ _ _ _ ih => exact fun s among => Nat.lt_succ_of_lt (ih s among)
  | value _ _ _ floor _ ih =>
    intro s among
    rcases List.mem_cons.mp among with rfl | among
    · exact floor ▸ Nat.lt_succ_self _
    · exact Nat.lt_succ_of_lt (ih s among)

section

variable {K : Plan → Prop} {S : ChainId → List Shape} {m n : Machine} {wanted : Option Purpose}

/-! ## Operations -/

namespace Rooted

theorem of_same (h : m.Rooted K) (frames : n.frames = m.frames) (depth : n.depth = m.depth)
    (limit : n.depthLimit = m.depthLimit) (suspended : n.suspended = m.suspended) : n.Rooted K := by
  refine ⟨?_, ?_, ?_⟩
  · rw [frames]
    exact h.plans
  · rw [depth, limit]
    exact h.limit
  · rw [suspended, frames]
    exact h.suspended

theorem schedule (h : m.Rooted K) : m.schedule.Rooted K := h.of_same rfl rfl rfl rfl

theorem publish (h : m.Rooted K) : m.publish.Rooted K :=
  h.of_same frames_publish depth_publish (kept_publish m).depthLimit suspended_publish

/-- A frame is entered. -/
theorem push (h : m.Rooted K) {f : Frame} (known : K f.plan) : (m.push f).Rooted K := by
  refine ⟨?_, ?_, ?_⟩
  · rw [frames_push]
    intro g among
    rcases List.mem_cons.mp among with rfl | among
    · exact known
    · exact h.plans g among
  · rw [depth_push, (kept_push m f).depthLimit]
    exact h.limit
  · rw [suspended_push, frames_push]
    intro s among
    obtain ⟨below, suffix, rest⟩ := h.suspended s among
    exact ⟨below, suffix.trans (List.suffix_cons f _), rest⟩

theorem pushBody (h : m.Rooted K) (first stop : Nat) (kind : FrameKind) :
    (m.pushBody first stop kind).Rooted K := by
  cases frames : m.frames with
  | nil =>
    rw [Machine.pushBody, frames]
    exact h
  | cons f rest =>
    rw [pushBody_eq frames]
    exact h.push (h.plans f (frames ▸ List.mem_cons_self))

/-- What lies below the innermost frame. -/
theorem below_top (h : m.Rooted K) (covered : m.Covered) {f : Frame} {rest : List Frame}
    (frames : m.frames = f :: rest) (s : Suspension) (among : s ∈ m.suspended) :
    ∃ below, below <:+ rest ∧ below.length = s.floor ∧
      Works below fun e => s.evaluation.StandsIn e := by
  obtain ⟨below, suffix, length, works⟩ := h.suspended s among
  refine ⟨below, ?_, length, works⟩
  rw [frames] at suffix
  -- the innermost frame is not waited on, for the floor is lower than that
  rcases List.suffix_cons_iff.mp suffix with rfl | suffix
  · have lt := covered s among
    rw [frames, ← length] at lt
    exact absurd lt (Nat.lt_irrefl _)
  · exact suffix

theorem updateTop (h : m.Rooted K) (covered : m.Covered) (change : Frame → Frame)
    (same : ∀ f, (change f).plan = f.plan) : (m.updateTop change).Rooted K := by
  cases frames : m.frames with
  | nil =>
    rw [Machine.updateTop, frames]
    exact h
  | cons f rest =>
    refine ⟨?_, ?_, ?_⟩
    · rw [frames_updateTop frames]
      intro g among
      rcases List.mem_cons.mp among with rfl | among
      · rw [same]
        exact h.plans f (frames ▸ List.mem_cons_self)
      · exact h.plans g (frames ▸ List.mem_cons_of_mem _ among)
    · rw [depth_updateTop, (kept_updateTop m change).depthLimit]
      exact h.limit
    · rw [suspended_updateTop, frames_updateTop frames]
      intro s among
      obtain ⟨below, suffix, rest⟩ := h.below_top covered frames s among
      exact ⟨below, suffix.trans (List.suffix_cons _ _), rest⟩

theorem pop (h : m.Rooted K) (covered : m.Covered) : m.pop.Rooted K := by
  cases frames : m.frames with
  | nil =>
    rw [Machine.pop, frames]
    exact h
  | cons f rest =>
    refine ⟨?_, ?_, ?_⟩
    · rw [frames_pop frames]
      exact fun g among => h.plans g (frames ▸ List.mem_cons_of_mem _ among)
    · rw [depth_pop frames, (kept_pop m).depthLimit]
      have := h.limit
      split <;> omega
    · rw [suspended_pop, frames_pop frames]
      exact h.below_top covered frames

/-- A procedure is called. Its frame is still to come. -/
theorem calls (h : m.Rooted K) (room : m.depth < m.depthLimit) (env : Environment)
    {fresh : List Suspension} (waits : ∀ s ∈ fresh, s.floor = m.frames.length ∧
      Works m.frames fun e => s.evaluation.StandsIn e) :
    ({ m with env := env, depth := m.depth + 1, suspended := fresh ++ m.suspended } :
      Machine).Rooted K := by
  refine ⟨h.plans, room, fun s among => ?_⟩
  rcases List.mem_append.mp among with new | old
  · obtain ⟨floor, works⟩ := waits s new
    exact ⟨m.frames, List.suffix_rfl, floor.symm, works⟩
  · exact h.suspended s old

theorem finish (m : Machine) (outcome : Outcome) : (m.finish outcome).Rooted K :=
  ⟨nofun, Nat.zero_le _, nofun⟩

end Rooted

/-- A body that is left uncovers the frame that it lies on. -/
theorem Stands.rooted_leave (h : m.Stands S wanted) (rooted : m.Rooted K) {frames : List Frame}
    (is : m.frames = frames) : (m.leave frames).Rooted K := by
  induction frames generalizing m wanted with
  | nil => exact rooted
  | cons f rest ih =>
    by_cases boundary : f.kind.isBoundary
    · rw [leave_boundary boundary]
      exact rooted.pop h.covered
    · have inner : f.kind.isBoundary = false := by simpa using boundary
      rw [leave_inner inner]
      exact ih (h.pop_inner is inner) (rooted.pop h.covered) (frames_pop is)

/-- Nothing is worked on. -/
theorem Rooted.traced (h : m.Rooted K) (rests : m.activity.around? = none) : m.Traced K :=
  ⟨h, fun works => by rw [rests] at works; cases works⟩

theorem Rooted.scheduled (h : m.Rooted K) : m.schedule.Traced K := h.schedule.traced rfl

theorem traced_finish (m : Machine) (outcome : Outcome) : (m.finish outcome).Traced K :=
  (Rooted.finish m outcome).traced rfl

/-- The machine goes on in the same block. -/
theorem Rooted.wait (h : m.Rooted K) (activity : Activity)
    (works : Works m.frames fun e => activity.StandsIn e) :
    ({ m with activity := activity } : Machine).Traced K :=
  ⟨h.of_same rfl rfl rfl rfl, fun _ => works⟩

/-! ## Moves -/

/-- A value is handed over to the block that waits for it. -/
theorem Stands.traced_giveBack (h : m.Stands S wanted) (rooted : m.Rooted K) (value : Value) :
    (m.giveBack value).Traced K := by
  have left := h.leave rfl
  have rooted' := h.rooted_leave rooted rfl
  unfold Machine.giveBack
  generalize m.leave m.frames = n at left rooted'
  simp only [show n.floor = floorOf n.suspended from rfl]
  rcases left.split with ⟨frames, -, suspended⟩ | stack | ⟨s, outer, suspended, floor, stack⟩
  · rw [if_neg (by simp [frames]), suspended]
    exact traced_finish n _
  · rw [if_pos (Stacked.floor_lt stack)]
    exact rooted'.scheduled
  · rw [if_neg (by simp [suspended, floorOf, floor]), suspended]
    -- all frames that are left are those that the evaluation waited on
    obtain ⟨below, suffix, length, works⟩ :=
      rooted'.suspended s (suspended ▸ List.mem_cons_self)
    obtain rfl := suffix.eq_of_length (length.trans floor)
    refine ⟨⟨rooted'.plans, rooted'.limit, fun s' among => ?_⟩, fun _ => works⟩
    exact rooted'.suspended s' (suspended ▸ List.mem_cons_of_mem _ among)

theorem Stands.traced_conclude {purpose : Purpose} (h : m.Stands S (some purpose))
    (rooted : m.Rooted K) (value : Value) : (m.conclude value purpose).Traced K := by
  have past (close : Nat) : (m.jumpPast close).Rooted K :=
    rooted.updateTop h.covered _ fun _ => rfl
  cases purpose with
  | statement => exact rooted.scheduled
  | times opener close =>
    cases number : value.expectNumber with
    | error e =>
      rw [conclude_times_error number]
      exact traced_finish m _
    | ok x =>
      rw [conclude_times number]
      split
      · exact (past close).scheduled
      · exact ((past close).pushBody _ _ _).scheduled
  | firstTest opener close =>
    rw [conclude_firstTest]
    split
    · exact (past close).scheduled
    · exact ((past close).pushBody _ _ _).scheduled
  | retest =>
    rw [conclude_retest]
    split
    · exact (rooted.pop h.covered).scheduled
    · exact Rooted.scheduled (m := m.updateTop _)
        (rooted.updateTop h.covered (fun f => { f with next := f.first }) fun _ => rfl)
  | branch opener middle close =>
    rw [conclude_branch]
    split
    · exact ((past close).pushBody _ _ _).scheduled
    · exact (past close).scheduled
  | giveBack => exact h.traced_giveBack rooted value

/-- A block that is begun is the one that is being run. -/
theorem Stands.traced_performNext {f : Frame} {rest : List Frame} (frames : m.frames = f :: rest)
    (h : m.Stands S none) (rooted : m.Rooted K) : (m.performNext f).Traced K := by
  have begun : m.beginNext.Rooted K :=
    (rooted.updateTop h.covered (fun f => { f with next := f.next + 1, current := f.next })
      fun _ => rfl).publish
  cases op : f.plan.ops[f.next]? with
  | none =>
    rw [performNext_none op]
    exact begun.scheduled
  | some op' =>
    rw [performNext_some op]
    have evaluates (e : Expr) (purpose : Purpose) (expr : op'.expr? = some e) :
        (m.beginNext.evaluate e purpose).Traced K := by
      refine begun.wait _ ⟨_, rest, e, frames_beginNext frames, ?_, .self, nofun⟩
      show (f.plan.ops[f.next]?).bind Op.expr? = some e
      rw [op]
      exact expr
    cases op' with
    | marker => exact begun.scheduled
    | statement e => exact evaluates e _ rfl
    | repeatTimes e close => exact evaluates e _ rfl
    | repeatUntil e close => exact evaluates e _ rfl
    | ifThen e middle close => exact evaluates e _ rfl
    | giveBack e => exact evaluates e _ rfl
    | forever close =>
      -- there is nothing to evaluate: the body is entered at once
      have stands : m.beginNext.Covered := by
        intro s among
        rw [suspended_beginNext] at among
        have lt := h.covered s among
        rw [frames] at lt
        rwa [frames_beginNext frames]
      have past : (m.beginNext.jumpPast close).Rooted K := begun.updateTop stands _ fun _ => rfl
      exact (past.pushBody _ _ _).scheduled

/-- A loop that tests its condition goes back to its opener. -/
theorem Stands.traced_endOfFrame {f : Frame} {rest : List Frame} (frames : m.frames = f :: rest)
    (h : m.Stands S none) (rooted : m.Rooted K) : (m.endOfFrame f).Traced K := by
  have left : m.pop.schedule.Traced K := (rooted.pop h.covered).scheduled
  have changed (change : Frame → Frame) (same : ∀ f, (change f).plan = f.plan) :
      (m.updateTop change).Rooted K ∧ (m.updateTop change).Covered := by
    refine ⟨rooted.updateTop h.covered change same, fun s among => ?_⟩
    rw [suspended_updateTop] at among
    have lt := h.covered s among
    rw [frames] at lt
    rwa [frames_updateTop frames]
  unfold Machine.endOfFrame
  cases f.kind with
  | root => exact left
  | procedure => exact left
  | branch => exact left
  | forever =>
    exact Rooted.scheduled (m := m.updateTop _)
      (changed (fun f => { f with next := f.first }) fun _ => rfl).1
  | repeated remaining =>
    simp only
    split
    · obtain ⟨counted, covered⟩ := changed
        (fun g => { g with kind := .repeated (remaining - 1) }) fun _ => rfl
      exact Rooted.scheduled (m := Machine.updateTop (Machine.updateTop m _) _)
        (counted.updateTop covered (fun f => { f with next := f.first }) fun _ => rfl)
    · exact left
  | untilHolds opener =>
    obtain ⟨back, covered⟩ := changed (fun g => { g with current := opener }) fun _ => rfl
    simp only
    split
    · next condition close op =>
      -- the block that is being run is the opener again, and the condition is its expression
      have works : Works (m.updateTop fun g => { g with current := opener }).frames
          (· = condition) := by
        refine ⟨_, rest, condition, frames_updateTop frames _, ?_, rfl⟩
        show (f.plan.ops[opener]?).bind Op.expr? = some condition
        rw [op]
        rfl
      refine back.wait _ (works.mono ?_)
      rintro _ rfl
      exact ⟨.self, nofun⟩
    · exact (back.pop covered).scheduled

theorem traced_dispatch (h : Left S m.frames m.depth m.suspended) (rooted : m.Rooted K) :
    m.dispatch.Traced K := by
  unfold dispatch
  rw [show m.floor = floorOf m.suspended from rfl]
  split
  · split
    · exact traced_finish m _
    · exact traced_finish m _
  · next above =>
    split
    · exact traced_finish m _
    · split
      · exact traced_finish m _
      · next f rest frames =>
        rcases h.split with ⟨none, -, -⟩ | stack | ⟨s, outer, suspended, floor, -⟩
        · rw [none] at frames
          cases frames
        · split
          · exact Stands.traced_endOfFrame frames stack rooted
          · exact Stands.traced_performNext frames stack rooted
        · -- the frames of an evaluation that waits are not above the floor
          rw [suspended, floorOf] at above
          simp [floor] at above

/-- An evaluation that is suspended waits on the frame in which it is worked on. -/
theorem Rooted.traced_enterProcedure (h : m.Rooted K)
    (known : ∀ id plan, m.plan id = .ok plan → K plan) {wanted : Option Evaluation}
    (works : ∀ around, wanted = some around → Works m.frames fun e => around.StandsIn e)
    (definition : String) (body : ChainId) (parameters : List String) (arguments : List Value) :
    (m.enterProcedure definition body parameters arguments wanted).Traced K := by
  unfold enterProcedure
  split
  · exact traced_finish m _
  · next room =>
    split
    · exact traced_finish m _
    · next plan ok =>
      refine (Rooted.push (f := .enter plan 0 plan.ops.size .procedure)
        (h.calls (Nat.lt_of_not_le room) _ ?_) (known body plan ok)).scheduled
      intro s new
      obtain ⟨around, is, rfl⟩ := Option.map_eq_some_iff.mp (Option.mem_toList.mp new)
      exact ⟨rfl, works around is⟩

theorem Rooted.traced_returned (h : m.Rooted K) {around : Evaluation}
    (works : Works m.frames fun e => around.StandsIn e) (definition : String)
    (value : Option Value) : (m.returned definition value around).Traced K := by
  cases value with
  | some value => exact h.wait _ works
  | none =>
    rw [returned_none]
    split
    · exact traced_finish m _
    · exact h.scheduled

/-- The arguments of a call are parts of what the call is a part of. -/
theorem Rooted.traced_gather (h : m.Rooted K) (callee : Callee) (values : List Value)
    {purpose : Purpose} {outer : List PendingCall} {rest : List Expr}
    (works : Works m.frames fun e => (∃ first, e.Contains (callee.applied (first ++ rest))) ∧
      (Evaluation.mk purpose outer).StandsIn e) :
    (m.gather callee values purpose outer rest).Traced K := by
  cases rest with
  | nil =>
    refine h.wait _ (works.mono ?_)
    rintro e ⟨⟨first, contains⟩, stands⟩
    exact ⟨⟨_, contains⟩, stands⟩
  | cons a rest =>
    refine h.wait _ (works.mono ?_)
    rintro e ⟨⟨first, contains⟩, stands⟩
    refine ⟨contains.argument (List.mem_append_right _ List.mem_cons_self), ?_⟩
    intro c among
    rcases List.mem_cons.mp among with rfl | among
    · refine ⟨first ++ [a], ?_⟩
      rw [List.append_assoc]
      exact contains
    · exact stands c among

theorem Rooted.traced_call (h : m.Rooted K) (known : ∀ id plan, m.plan id = .ok plan → K plan)
    {around : Evaluation} (works : Works m.frames fun e => around.StandsIn e) (callee : Callee)
    (arguments : List Value) : (m.call arguments around callee).Traced K := by
  cases callee with
  | native definition function =>
    rw [call_native]
    have within : (m.within (function m.surroundings arguments).2).Rooted K :=
      h.of_same rfl rfl rfl rfl
    cases (function m.surroundings arguments).1 with
    | returned value => exact within.traced_returned works _ _
    | failed error => exact traced_finish _ _
    | panicked message => exact ⟨within.of_same rfl rfl rfl rfl, nofun⟩
    | waiting wait value => exact within.wait _ works
  | procedure definition body parameters =>
    rw [call_procedure]
    refine h.traced_enterProcedure known ?_ _ _ _ _
    intro around' is
    split at is
    · cases is
      exact works
    · cases is

/-- **A move keeps evaluations in the blocks that they belong to.** -/
theorem Traced.move (h : m.Traced K) (order : m.InOrder S)
    (known : ∀ id plan, m.plan id = .ok plan → K plan) : m.move.Traced K := by
  have rooted := h.rooted
  have works := h.works
  unfold InOrder at order
  have moves := m.moves
  generalize m.move = n at moves ⊢
  cases moves with
  | idle activity => exact h
  | halts halted => exact h
  | dispatches activity =>
    rw [activity] at order
    exact traced_dispatch order rooted
  | gives activity =>
    rw [activity] at works
    exact rooted.wait _ ((works rfl).mono fun _ => And.right)
  | applies activity =>
    rw [activity] at works
    exact rooted.traced_gather _ _ ((works rfl).mono fun _ is => ⟨⟨[], is.1⟩, is.2⟩)
  | concludes activity =>
    rw [activity] at order
    exact Stands.traced_conclude order rooted _
  | @delivers value purpose c outer activity =>
    rw [activity] at works
    refine rooted.traced_gather _ _
      ((works rfl).mono fun e stands => ⟨stands c List.mem_cons_self, ?_⟩)
    exact fun c' among => stands c' (List.mem_cons_of_mem _ among)
  | calls activity =>
    rw [activity] at works
    exact rooted.traced_call known ((works rfl).mono fun _ => And.right) _ _
  | resumes activity =>
    rw [activity] at works
    exact rooted.traced_returned (works rfl) _ _

/-- The block that makes a call is the one at which the run is located. -/
theorem Traced.calling (h : m.Traced K) {callee : Callee} {arguments : List Value}
    {around : Evaluation} (activity : m.activity = .calling callee arguments around) :
    ∃ f rest op e expressions, m.frames = f :: rest ∧ K f.plan ∧
      f.plan.ops[f.current]? = some op ∧ op.expr? = some e ∧
      e.Contains (callee.applied expressions) := by
  have works := h.works
  rw [activity] at works
  obtain ⟨f, rest, e, frames, expr, ⟨expressions, contains⟩, -⟩ := works rfl
  obtain ⟨op, block, expr⟩ := Option.bind_eq_some_iff.mp expr
  exact ⟨f, rest, op, e, expressions, frames, h.rooted.plans f (frames ▸ List.mem_cons_self),
    block, expr, contains⟩

end

end Machine

end Blockwork
