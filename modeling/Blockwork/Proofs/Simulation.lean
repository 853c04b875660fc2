import Blockwork.Proofs.Natives
import Blockwork.Proofs.Reference
import Blockwork.Proofs.Resolution
import Blockwork.Proofs.Runs

/-!
# What it means that a machine does a deed

A deed of the reference either has a result, or is broken off, or lacks fuel. A machine does the
deed when it comes to a state that fits the result, or ends its run in the same way, or is not over
after as many moves as there was fuel. This is kept by sequences of deeds, so that a machine that
does the parts of a program does the whole (`Does.bind`).

## Main statements

* `Does.bind`: deeds are done one after the other.
* `Does.move`: a move of the machine is worth one unit of fuel.

What a machine does depends neither on its snapshots nor on its gauge, so states are compared
without them (`Machine.At`).
-/

namespace Blockwork

open Reference

/-! ## States -/

/-- The part of a machine that changes as it runs, apart from what it does next. -/
structure Config where
  world : World
  frames : List Frame
  depth : Nat
  suspended : List Suspension

namespace Machine

/-- What has become of a machine. -/
def config (m : Machine) : Config := ⟨⟨m.env, m.output⟩, m.frames, m.depth, m.suspended⟩

/-- A machine that runs for the given setting has got so far, and no stop has been requested. -/
structure At (σ : Setting) (m : Machine) (c : Config) (activity : Activity) : Prop where
  plans : m.plans = σ.program.plans σ.natives
  limit : m.depthLimit = σ.limit
  stop : m.stop = false
  config : m.config = c
  activity : m.activity = activity

end Machine

/-- The innermost frame is at a place. -/
def Config.Stands (c : Config) (p : Place) : Prop :=
  c.depth = p.depth ∧ ∃ f rest, c.frames = f :: rest ∧ f.plan = p.plan ∧ f.current = p.block

/-- The same frames in another world. -/
def Config.inWorld (c : Config) (w : World) : Config := { c with world := w }

theorem Config.Stands.inWorld {c : Config} {p : Place} (h : c.Stands p) (w : World) :
    (c.inWorld w).Stands p := h

/-! ## Doing a deed -/

open Machine

/-- A machine does what has the given result. If the fuel was too little, it is not over after so
many moves. -/
def Does {α : Type} (fuel : Nat) (m : Machine) (result : EStateM.Result Halt World α)
    (P : α → World → Machine → Prop) : Prop :=
  match result with
  | .ok a w => ∃ k, P a w (move^[k] m)
  | .error (.failed failure) w =>
    ∃ k, (move^[k] m).report? = some ⟨.failed failure, w.output, w.env.globals⟩
  | .error (.panicked message) _ => ∃ k, (move^[k] m).activity = .panicked message
  | .error .exhausted _ => ∃ k, fuel ≤ k ∧ (move^[k] m).isOver = false

namespace Does

variable {α β : Type} {fuel fuel' : Nat} {m : Machine} {w : World} {x : Deed α}
  {r : EStateM.Result Halt World α} {P Q : α → World → Machine → Prop}

theorem pure {a : α} (h : P a w m) : Does fuel m ((Pure.pure a : Deed α) w) P := ⟨0, h⟩

theorem mono (h : Does fuel m r P) (enough : fuel' ≤ fuel)
    (implies : ∀ a w n, P a w n → Q a w n) : Does fuel' m r Q := by
  unfold Does at h ⊢
  split at h
  · obtain ⟨k, h⟩ := h
    exact ⟨k, implies _ _ _ h⟩
  · exact h
  · exact h
  · obtain ⟨k, le, h⟩ := h
    exact ⟨k, Nat.le_trans enough le, h⟩

/-- Less fuel does no harm. -/
theorem weaken (h : Does fuel m r P) (enough : fuel' ≤ fuel) : Does fuel' m r P :=
  h.mono enough fun _ _ _ h => h

/-- What is done after some moves is done. -/
theorem after (k : Nat) (h : Does fuel (move^[k] m) r P) : Does (fuel + k) m r P := by
  unfold Does at h ⊢
  split at h
  · obtain ⟨j, h⟩ := h
    exact ⟨j + k, by rwa [Function.iterate_add_apply]⟩
  · obtain ⟨j, h⟩ := h
    exact ⟨j + k, by rwa [Function.iterate_add_apply]⟩
  · obtain ⟨j, h⟩ := h
    exact ⟨j + k, by rwa [Function.iterate_add_apply]⟩
  · obtain ⟨j, le, h⟩ := h
    exact ⟨j + k, Nat.add_le_add_right le k, by rwa [Function.iterate_add_apply]⟩

/-- A move is worth one unit of fuel. -/
theorem move (h : Does fuel m.move r P) : Does (fuel + 1) m r P := after 1 h

/-- A move need not be counted. -/
theorem uncounted (h : Does fuel m.move r P) : Does fuel m r P := h.move.weaken (Nat.le_succ _)

/-- **Deeds are done one after the other.** -/
theorem bind {f : α → Deed β} {R : β → World → Machine → Prop} (h : Does fuel m (x w) P)
    (next : ∀ a w n, P a w n → Does fuel n (f a w) R) : Does fuel m ((x >>= f) w) R := by
  show Does fuel m (EStateM.bind x f w) R
  unfold EStateM.bind
  cases hx : x w with
  | ok a w' =>
    rw [hx] at h
    obtain ⟨k, h⟩ := h
    exact (after k (next a w' _ h)).weaken (Nat.le_add_right _ _)
  | error halt w' =>
    rw [hx] at h
    cases halt with
    | failed failure => exact h
    | panicked message => exact h
    | exhausted => exact h

theorem throw_failed {failure : Failure} (h : ∃ k, (Machine.move^[k] m).report? =
    some ⟨.failed failure, w.output, w.env.globals⟩) :
    Does fuel m ((throw (.failed failure) : Deed α) w) P := h

/-- Without fuel, it is enough that the run is not over. -/
theorem throw_exhausted (h : m.isOver = false) : Does 0 m ((throw .exhausted : Deed α) w) P :=
  ⟨0, Nat.le_refl _, h⟩

end Does

/-! ## Operations on states -/

/-- What is done next when some arguments of a call are left. -/
def Activity.gathering (callee : Callee) (values : List Value) (purpose : Purpose)
    (outer : List PendingCall) : List Expr → Activity
  | [] => .calling callee values.reverse ⟨purpose, outer⟩
  | e :: rest => .evaluating e ⟨purpose, ⟨callee, values, rest⟩ :: outer⟩

theorem Machine.gather_eq {m : Machine} {callee : Callee} {values : List Value} {purpose : Purpose}
    {outer : List PendingCall} {arguments : List Expr} :
    m.gather callee values purpose outer arguments =
      { m with activity := .gathering callee values purpose outer arguments } := by
  cases arguments <;> rfl

/-- A state after a frame has been left. -/
def Config.leave (c : Config) (f : Frame) (rest : List Frame) : Config :=
  if f.kind = .procedure then
    { c with world := ⟨c.world.env.pop, c.world.output⟩, frames := rest, depth := c.depth - 1 }
  else { c with frames := rest }

theorem Config.leave_procedure {c : Config} {f : Frame} {rest : List Frame}
    (kind : f.kind = .procedure) :
    c.leave f rest =
      ⟨⟨c.world.env.pop, c.world.output⟩, rest, c.depth - 1, c.suspended⟩ := if_pos kind

theorem Config.leave_inner {c : Config} {f : Frame} {rest : List Frame}
    (kind : f.kind ≠ .procedure) : c.leave f rest = { c with frames := rest } := if_neg kind

theorem Config.frames_leave {c : Config} {f : Frame} {rest : List Frame} :
    (c.leave f rest).frames = rest := by
  unfold leave
  split <;> rfl

theorem Config.suspended_leave {c : Config} {f : Frame} {rest : List Frame} :
    (c.leave f rest).suspended = c.suspended := by
  unfold leave
  split <;> rfl

namespace Machine

section

variable {m : Machine} {f : Frame} {rest : List Frame}

theorem config_publish : m.publish.config = m.config := by
  unfold publish
  split <;> rfl

theorem config_updateTop (h : m.frames = f :: rest) (change : Frame → Frame) :
    (m.updateTop change).config = { m.config with frames := change f :: rest } := by
  simp only [updateTop, h]
  rfl

theorem config_push : (m.push f).config = { m.config with frames := f :: m.frames } :=
  config_publish

theorem config_pop (h : m.frames = f :: rest) : m.pop.config = m.config.leave f rest := by
  unfold Config.leave
  by_cases kind : f.kind = .procedure
  · rw [pop_procedure h kind, config_publish, if_pos kind]
    rfl
  · rw [pop_inner h kind, config_publish, if_neg kind]
    rfl

theorem config_beginNext (h : m.frames = f :: rest) :
    m.beginNext.config =
      { m.config with frames := { f with next := f.next + 1, current := f.next } :: rest } := by
  rw [beginNext, config_publish, config_updateTop h]

/-- Leaving goes on up to the first boundary. -/
theorem config_leave {inner : List Frame} (bodies : ∀ g ∈ inner, g.kind.isBoundary = false)
    (boundary : f.kind.isBoundary) (h : m.frames = inner ++ f :: rest) :
    (m.leave (inner ++ f :: rest)).config = m.config.leave f rest := by
  induction inner generalizing m with
  | nil =>
    rw [List.nil_append] at h ⊢
    rw [leave_boundary boundary, config_pop h]
  | cons g inner ih =>
    have body : g.kind.isBoundary = false := bodies g List.mem_cons_self
    have notProcedure : g.kind ≠ .procedure := by
      intro kind
      rw [kind] at body
      cases body
    rw [List.cons_append] at h ⊢
    rw [leave_inner body, ih (fun g hg => bodies g (List.mem_cons_of_mem _ hg)) (frames_pop h),
      config_pop h]
    rw [Config.leave_inner notProcedure]
    simp only [Config.leave]

end

/-! ## Moves of a machine in a state -/

section

variable {σ : Setting} {m n : Machine} {c c' : Config} {activity : Activity} {around : Evaluation}
  {f : Frame} {rest : List Frame} {value : Value}

namespace At

theorem frames (h : At σ m c activity) : m.frames = c.frames := congrArg Config.frames h.config

theorem depth (h : At σ m c activity) : m.depth = c.depth := congrArg Config.depth h.config

theorem suspended (h : At σ m c activity) : m.suspended = c.suspended :=
  congrArg Config.suspended h.config

theorem surroundings (h : At σ m c activity) :
    m.surroundings = ⟨c.world.env, c.world.output, false⟩ := by
  rw [Machine.surroundings, h.stop, ← h.config]
  rfl

theorem kept (h : At σ m c activity) (kept : Kept m n) (config : n.config = c')
    {activity' : Activity} (is : n.activity = activity') : At σ n c' activity' :=
  ⟨kept.plans.trans h.plans, kept.depthLimit.trans h.limit, kept.stop.trans h.stop, config, is⟩

theorem doing (h : At σ m c activity) (activity' : Activity) :
    At σ { m with activity := activity' } c activity' :=
  ⟨h.plans, h.limit, h.stop, h.config, rfl⟩

theorem schedule (h : At σ m c activity) : At σ m.schedule c .scheduling := h.doing _

theorem isOver (h : At σ m c activity) (rests : activity.rests = false) : m.isOver = false := by
  unfold Machine.isOver
  rw [h.activity]
  cases activity with
  | ended outcome => cases rests
  | panicked message => cases rests
  | _ => rfl

theorem location {p : Place} (h : At σ m c activity) (stands : c.Stands p) :
    m.location = some p.location := by
  obtain ⟨-, f, rest, frames, plan, current⟩ := stands
  rw [Machine.location, h.frames, frames, List.head?_cons, Option.map_some, plan, current]
  rfl

/-- The report of a machine that ends its run. -/
theorem report_finish (h : At σ m c activity) (outcome : Outcome) :
    (m.finish outcome).report? = some ⟨outcome, c.world.output, c.world.env.globals⟩ := by
  rw [← h.config]
  rfl

theorem report_fail {p : Place} (h : At σ m c activity) (stands : c.Stands p) (e : RunError) :
    (m.fail e).report? =
      some ⟨.failed ⟨e, some p.location⟩, c.world.output, c.world.env.globals⟩ := by
  rw [fail, h.location stands, h.report_finish]

/-! ### Expressions -/

theorem evaluate_literal (h : At σ m c (.evaluating (.literal value) around)) :
    At σ m.move c (.delivering value around) := by
  rw [move_literal h.activity]
  exact h.doing _

theorem evaluate_native {definition : String} {function : Native} {arguments : List Expr}
    (h : At σ m c (.evaluating (.native definition function arguments) around)) :
    At σ m.move c
      (.gathering (.native definition function) [] around.purpose around.calls arguments) := by
  rw [move_native h.activity, gather_eq]
  exact h.doing _

theorem evaluate_call {definition : String} {body : ChainId} {parameters : List String}
    {arguments : List Expr}
    (h : At σ m c (.evaluating (.call definition body parameters arguments) around)) :
    At σ m.move c
      (.gathering (.procedure definition body parameters) [] around.purpose around.calls arguments)
    := by
  rw [move_call h.activity, gather_eq]
  exact h.doing _

theorem deliver {purpose : Purpose} {pending : PendingCall} {outer : List PendingCall}
    (h : At σ m c (.delivering value ⟨purpose, pending :: outer⟩)) :
    At σ m.move c
      (.gathering pending.callee (value :: pending.values) purpose outer pending.rest) := by
  rw [move_deliver h.activity, gather_eq]
  exact h.doing _

theorem conclude_statement (h : At σ m c (.delivering value ⟨.statement, []⟩)) :
    At σ m.move c .scheduling := by
  rw [move_conclude h.activity]
  exact h.schedule

/-! ### Bodies -/

theorem jumpPast (h : At σ m c activity) (frames : c.frames = f :: rest) (close : Nat) :
    At σ (m.jumpPast close).schedule { c with frames := { f with next := close + 1 } :: rest }
      .scheduling := by
  refine h.kept ((kept_updateTop m _).trans (kept_schedule _)) ?_ rfl
  show (m.updateTop _).config = _
  rw [config_updateTop (h.frames.trans frames), h.config]

theorem enter (h : At σ m c activity) (frames : c.frames = f :: rest) (close first stop : Nat)
    (kind : FrameKind) :
    At σ ((m.jumpPast close).pushBody first stop kind).schedule
      { c with
        frames := .enter f.plan first stop kind :: { f with next := close + 1 } :: rest }
      .scheduling := by
  have past : (m.jumpPast close).frames = { f with next := close + 1 } :: rest :=
    frames_updateTop (h.frames.trans frames) _
  refine h.kept (((kept_updateTop m _).trans (kept_pushBody _ _ _ _)).trans (kept_schedule _)) ?_
    rfl
  show ((m.jumpPast close).pushBody first stop kind).config = _
  rw [pushBody_eq past, config_push, past, Machine.jumpPast,
    config_updateTop (h.frames.trans frames), h.config]

theorem pop (h : At σ m c activity) (frames : c.frames = f :: rest) :
    At σ m.pop.schedule (c.leave f rest) .scheduling := by
  refine h.kept ((kept_pop m).trans (kept_schedule _)) ?_ rfl
  show m.pop.config = _
  rw [config_pop (h.frames.trans frames), h.config]

theorem updateTop (h : At σ m c activity) (frames : c.frames = f :: rest) (change : Frame → Frame) :
    At σ (m.updateTop change) { c with frames := change f :: rest } activity := by
  refine h.kept (kept_updateTop m _) ?_ ?_
  · rw [config_updateTop (h.frames.trans frames), h.config]
  · rw [← h.activity]
    unfold Machine.updateTop
    split <;> rfl

theorem again (h : At σ m c activity) (frames : c.frames = f :: rest) :
    At σ m.again { c with frames := { f with next := f.first } :: rest } .scheduling :=
  (h.updateTop frames _).schedule

/-! ### Blocks -/

theorem dispatch (h : At σ m c .scheduling) (frames : c.frames = f :: rest)
    (floor : floorOf c.suspended ≤ rest.length) :
    m.move = if f.stop ≤ f.next then m.endOfFrame f else m.performNext f := by
  have above : ¬m.frames.length ≤ m.floor := by
    rw [show m.floor = floorOf m.suspended from rfl, h.suspended, h.frames, frames,
      List.length_cons]
    omega
  rw [move_scheduling h.activity, Machine.dispatch, if_neg above, h.stop, h.frames, frames]
  rfl

theorem beginNext (h : At σ m c activity) (frames : c.frames = f :: rest) :
    At σ m.beginNext
      { c with frames := { f with next := f.next + 1, current := f.next } :: rest } activity := by
  refine h.kept (kept_beginNext m) ?_ (beginNext_activity.trans h.activity)
  rw [config_beginNext (h.frames.trans frames), h.config]

/-! ### Returns -/

/-- A return leaves all frames up to the first boundary. -/
theorem config_left {inner : List Frame} (h : At σ m c activity)
    (frames : c.frames = inner ++ f :: rest) (bodies : ∀ g ∈ inner, g.kind.isBoundary = false)
    (boundary : f.kind.isBoundary) : (m.leave m.frames).config = c.leave f rest := by
  have same := h.frames.trans frames
  rw [same, Machine.config_leave bodies boundary same, h.config]

/-- The value of a procedure that was called as a statement is dropped. -/
theorem giveBack_statement {inner : List Frame} (h : At σ m c activity) (value : Value)
    (frames : c.frames = inner ++ f :: rest) (bodies : ∀ g ∈ inner, g.kind.isBoundary = false)
    (boundary : f.kind.isBoundary) (inside : floorOf c.suspended < rest.length) :
    At σ (m.giveBack value) (c.leave f rest) .scheduling := by
  have left := h.config_left frames bodies boundary
  have above : (m.leave m.frames).floor < (m.leave m.frames).frames.length := by
    show floorOf (m.leave m.frames).config.suspended < (m.leave m.frames).config.frames.length
    rwa [left, Config.suspended_leave, Config.frames_leave]
  refine h.kept (kept_giveBack m value) ?_ ?_
  · rw [← left]
    unfold giveBack
    simp only [if_pos above]
    rfl
  · unfold giveBack
    simp only [if_pos above]
    rfl

/-- The value of a procedure is handed to the evaluation that waits for it. -/
theorem giveBack_value {inner : List Frame} {s : Suspension} {outer : List Suspension}
    (h : At σ m c activity) (value : Value) (frames : c.frames = inner ++ f :: rest)
    (bodies : ∀ g ∈ inner, g.kind.isBoundary = false) (boundary : f.kind.isBoundary)
    (suspended : c.suspended = s :: outer) (floor : s.floor = rest.length) :
    At σ (m.giveBack value) { c.leave f rest with suspended := outer }
      (.delivering value s.evaluation) := by
  have left := h.config_left frames bodies boundary
  have waits : (m.leave m.frames).suspended = s :: outer := by
    show (m.leave m.frames).config.suspended = _
    rw [left, Config.suspended_leave, suspended]
  have below : ¬(m.leave m.frames).floor < (m.leave m.frames).frames.length := by
    show ¬floorOf (m.leave m.frames).suspended < (m.leave m.frames).config.frames.length
    rw [left, waits, Config.frames_leave, ← floor]
    exact Nat.lt_irrefl _
  refine h.kept (kept_giveBack m value) ?_ ?_
  · rw [← left]
    unfold giveBack
    simp only [if_neg below, waits]
    rfl
  · unfold giveBack
    simp only [if_neg below, waits]

/-- A return from the run ends it. -/
theorem report_giveBack {inner : List Frame} (h : At σ m c activity) (value : Value)
    (frames : c.frames = inner ++ [f]) (bodies : ∀ g ∈ inner, g.kind.isBoundary = false)
    (root : f.kind = .root) (suspended : c.suspended = []) :
    (m.giveBack value).report? =
      some ⟨.completed (some value), c.world.output, c.world.env.globals⟩ := by
  have left := h.config_left frames bodies (by rw [root]; rfl)
  have notProcedure : f.kind ≠ .procedure := by rw [root]; nofun
  rw [Config.leave_inner notProcedure] at left
  have waits : (m.leave m.frames).suspended = [] := by
    show (m.leave m.frames).config.suspended = _
    rw [left, suspended]
  have below : ¬(m.leave m.frames).floor < (m.leave m.frames).frames.length := by
    show ¬_ < (m.leave m.frames).config.frames.length
    rw [left]
    exact Nat.not_lt_zero _
  unfold giveBack
  simp only [if_neg below, waits]
  show some (Report.mk _ (m.leave m.frames).config.world.output
    (m.leave m.frames).config.world.env.globals) = _
  rw [left]

/-! ### Ends -/

/-- The run ends when it has left its last frame. -/
theorem report_over (h : At σ m c .scheduling) (frames : c.frames = [])
    (suspended : c.suspended = []) :
    m.move.report? = some ⟨.completed none, c.world.output, c.world.env.globals⟩ := by
  rw [move_scheduling h.activity, Machine.dispatch, if_pos (by simp [h.frames, frames]),
    h.suspended, suspended]
  exact h.report_finish _

/-- A procedure that should have returned a value has come to its end. -/
theorem report_missing {p : Place} {s : Suspension} {outer : List Suspension}
    (h : At σ m c .scheduling) (stands : c.Stands p) (suspended : c.suspended = s :: outer)
    (floor : s.floor = c.frames.length) :
    m.move.report? = some ⟨.failed ⟨.missingReturn s.procedure, some p.location⟩, c.world.output,
      c.world.env.globals⟩ := by
  have below : m.frames.length ≤ m.floor := by
    rw [show m.floor = floorOf m.suspended from rfl, h.suspended, suspended, h.frames, floorOf]
    exact Nat.le_of_eq floor.symm
  rw [move_scheduling h.activity, Machine.dispatch, if_pos below, h.suspended, suspended]
  exact h.report_fail stands _

end At

end

end Machine

end Blockwork
