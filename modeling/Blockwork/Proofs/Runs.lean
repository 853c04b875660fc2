import Blockwork.Machine
import Blockwork.Proofs.Resolution
import Mathlib.Logic.Function.Iterate

/-!
# Runs as sequences of actions

A run goes on by moves of its worker, which are steps and ends of waits, and it may be asked to stop
between any two of them. What holds at the start and is kept by both kinds of actions holds at every
point of a run (`Reaches.keeps`).

## Main statements

* `Machine.moves`: what a move does, by what the machine is at.
* `Kept`: what no operation of the machine changes; only a native function can.
* `own_or_reacts`: a move of a machine is its own, or it is what a native function leads to.
-/

namespace Blockwork

/-- The number of frames below which the innermost suspended evaluation, or the run, is gone on
with. -/
def floorOf (suspended : List Suspension) : Nat := (suspended.head?.map Suspension.floor).getD 0

/-- The expression that calls something. -/
def Callee.applied : Callee → List Expr → Expr
  | .native definition function, arguments => .native definition function arguments
  | .procedure definition body parameters, arguments =>
    .call definition body parameters arguments

namespace Machine

/-! ## Actions -/

/-- The next action of a worker: a step, or the end of a wait. -/
def move (m : Machine) : Machine :=
  match m.activity with
  | .waiting .. => m.resume
  | _ => m.step

/-- Whether a run has ended or broken off. -/
def isOver (m : Machine) : Bool :=
  match m.activity with
  | .ended _ | .panicked _ => true
  | _ => false

/-- A machine can get from one state to another. -/
inductive Reaches (m : Machine) : Machine → Prop where
  | refl : Reaches m m
  | work {n : Machine} (h : Reaches m n) : Reaches m n.move
  | stop {n : Machine} (h : Reaches m n) : Reaches m n.requestStop

theorem Reaches.keeps {P : Machine → Prop} {m n : Machine} (h : Reaches m n) (start : P m)
    (work : ∀ m, P m → P m.move) (stop : ∀ m, P m → P m.requestStop) : P n := by
  induction h with
  | refl => exact start
  | work _ ih => exact work _ ih
  | stop _ ih => exact stop _ ih

theorem Reaches.trans {m n o : Machine} (h : Reaches m n) (next : Reaches n o) : Reaches m o := by
  induction next with
  | refl => exact h
  | work _ ih => exact .work ih
  | stop _ ih => exact .stop ih

theorem reaches_iterate (m : Machine) (k : Nat) : Reaches m (move^[k] m) := by
  induction k with
  | zero => exact .refl
  | succ k ih =>
    rw [Function.iterate_succ_apply']
    exact .work ih

theorem move_of_isOver {m : Machine} (h : m.isOver) : m.move = m := by
  unfold isOver at h
  split at h
  · next activity => simp [move, step, activity]
  · next activity => simp [move, step, activity]
  · cases h

/-- A run that is over stays as it is. -/
theorem iterate_of_isOver {m : Machine} (h : m.isOver) (k : Nat) : move^[k] m = m :=
  Function.iterate_fixed (move_of_isOver h) k

theorem isOver_of_outcome {m : Machine} {o : Outcome} (h : m.outcome? = some o) : m.isOver := by
  unfold outcome? at h
  split at h
  · next activity => simp [isOver, activity]
  · cases h

/-! ## Moves by activity -/

section

variable {m : Machine} {around : Evaluation}

theorem move_scheduling (h : m.activity = .scheduling) : m.move = m.dispatch := by
  simp only [move, step, h]

theorem move_literal {value : Value} (h : m.activity = .evaluating (.literal value) around) :
    m.move = { m with activity := .delivering value around } := by
  simp only [move, step, h]

theorem move_native {definition : String} {function : Native} {arguments : List Expr}
    (h : m.activity = .evaluating (.native definition function arguments) around) :
    m.move = m.gather (.native definition function) [] around.purpose around.calls arguments := by
  simp only [move, step, h]

theorem move_call {definition : String} {body : ChainId} {parameters : List String}
    {arguments : List Expr}
    (h : m.activity = .evaluating (.call definition body parameters arguments) around) :
    m.move =
      m.gather (.procedure definition body parameters) [] around.purpose around.calls
        arguments := by
  simp only [move, step, h]

theorem move_conclude {value : Value} {purpose : Purpose}
    (h : m.activity = .delivering value ⟨purpose, []⟩) : m.move = m.conclude value purpose := by
  simp only [move, step, h]

theorem move_deliver {value : Value} {purpose : Purpose} {c : PendingCall}
    {outer : List PendingCall} (h : m.activity = .delivering value ⟨purpose, c :: outer⟩) :
    m.move = m.gather c.callee (value :: c.values) purpose outer c.rest := by
  simp only [move, step, h]

theorem move_calling {callee : Callee} {arguments : List Value}
    (h : m.activity = .calling callee arguments around) :
    m.move = m.call arguments around callee := by
  simp only [move, step, h]

theorem move_waiting {wait : Wait} {definition : String} {value : Option Value}
    (h : m.activity = .waiting wait definition value around) :
    m.move = m.returned definition value around := by
  simp only [move, resume, h]

theorem move_applied {callee : Callee} {arguments : List Expr}
    (h : m.activity = .evaluating (callee.applied arguments) around) :
    m.move = m.gather callee [] around.purpose around.calls arguments := by
  cases callee with
  | native definition function => exact move_native h
  | procedure definition body parameters => exact move_call h

/-- What a move does, by what the machine is at. -/
inductive Moves (m : Machine) : Machine → Prop where
  | idle (activity : m.activity = .idle) : Moves m m
  | halts (halted : m.isOver) : Moves m m
  | dispatches (activity : m.activity = .scheduling) : Moves m m.dispatch
  | gives {value : Value} {around : Evaluation}
      (activity : m.activity = .evaluating (.literal value) around) :
      Moves m { m with activity := .delivering value around }
  | applies {callee : Callee} {arguments : List Expr} {around : Evaluation}
      (activity : m.activity = .evaluating (callee.applied arguments) around) :
      Moves m (m.gather callee [] around.purpose around.calls arguments)
  | concludes {value : Value} {purpose : Purpose}
      (activity : m.activity = .delivering value ⟨purpose, []⟩) : Moves m (m.conclude value purpose)
  | delivers {value : Value} {purpose : Purpose} {c : PendingCall} {outer : List PendingCall}
      (activity : m.activity = .delivering value ⟨purpose, c :: outer⟩) :
      Moves m (m.gather c.callee (value :: c.values) purpose outer c.rest)
  | calls {callee : Callee} {arguments : List Value} {around : Evaluation}
      (activity : m.activity = .calling callee arguments around) :
      Moves m (m.call arguments around callee)
  | resumes {wait : Wait} {definition : String} {value : Option Value} {around : Evaluation}
      (activity : m.activity = .waiting wait definition value around) :
      Moves m (m.returned definition value around)

/-- **What a move does.** -/
theorem moves (m : Machine) : m.Moves m.move := by
  cases activity : m.activity with
  | idle =>
    rw [show m.move = m by simp only [move, step, activity]]
    exact .idle activity
  | scheduling =>
    rw [move_scheduling activity]
    exact .dispatches activity
  | evaluating e around =>
    cases e with
    | literal value =>
      rw [move_literal activity]
      exact .gives activity
    | native definition function arguments =>
      rw [move_native activity]
      exact .applies activity
    | call definition body parameters arguments =>
      rw [move_call activity]
      exact .applies activity
  | delivering value around =>
    obtain ⟨purpose, calls⟩ := around
    cases calls with
    | nil =>
      rw [move_conclude activity]
      exact .concludes activity
    | cons c outer =>
      rw [move_deliver activity]
      exact .delivers activity
  | calling callee arguments around =>
    rw [move_calling activity]
    exact .calls activity
  | waiting wait definition value around =>
    rw [move_waiting activity]
    exact .resumes activity
  | ended outcome =>
    have halted : m.isOver := by simp [isOver, activity]
    rw [move_of_isOver halted]
    exact .halts halted
  | panicked message =>
    have halted : m.isOver := by simp [isOver, activity]
    rw [move_of_isOver halted]
    exact .halts halted

end

/-! ## Plans of a program -/

/-- A machine that has the plans of a program finds the plan of the first chain of a number. -/
theorem plan_of_plans {m : Machine} {p : Program} {natives : NativeTable}
    (h : m.plans = p.plans natives) (id : ChainId) :
    m.plan id = match p.chain? id with
      | some c => Plan.ofChain ⟨p.definitions, natives⟩ c
      | none => .error ⟨.unknownChain id, m.location⟩ := by
  unfold plan Program.chain?
  rw [h, Program.plans, List.find?_map]
  simp only [Function.comp_def]
  cases p.chains.find? fun c => c.id = id <;> rfl

/-! ## Leaving a frame -/

section

variable {m : Machine} {f : Frame} {rest : List Frame}

theorem pop_procedure (h : m.frames = f :: rest) (kind : f.kind = .procedure) :
    m.pop =
      ({ m with frames := rest, env := m.env.pop, depth := m.depth - 1 } : Machine).record.publish
    := by
  simp only [pop, h, kind, reduceIte]

theorem pop_inner (h : m.frames = f :: rest) (kind : f.kind ≠ .procedure) :
    m.pop = ({ m with frames := rest } : Machine).record.publish := by
  simp only [pop, h, kind, reduceIte]

theorem leave_boundary (kind : f.kind.isBoundary) : m.leave (f :: rest) = m.pop := by
  rw [leave, if_pos kind]

theorem leave_inner (kind : f.kind.isBoundary = false) :
    m.leave (f :: rest) = m.pop.leave rest := by
  rw [leave, if_neg (by simp [kind])]

end

/-! ## Frames after an operation -/

section

variable {m : Machine} {f : Frame} {rest : List Frame}

theorem frames_updateTop (h : m.frames = f :: rest) (change : Frame → Frame) :
    (m.updateTop change).frames = change f :: rest := by
  simp only [updateTop, h]

@[simp]
theorem frames_publish : m.publish.frames = m.frames := by
  unfold publish
  split
  · rfl
  · rfl

@[simp]
theorem depth_publish : m.publish.depth = m.depth := by
  unfold publish
  split <;> rfl

@[simp]
theorem suspended_publish : m.publish.suspended = m.suspended := by
  unfold publish
  split <;> rfl

@[simp]
theorem depth_updateTop (change : Frame → Frame) : (m.updateTop change).depth = m.depth := by
  unfold updateTop
  split <;> rfl

@[simp]
theorem suspended_updateTop (change : Frame → Frame) :
    (m.updateTop change).suspended = m.suspended := by
  unfold updateTop
  split <;> rfl

@[simp]
theorem frames_push : (m.push f).frames = f :: m.frames := frames_publish

@[simp]
theorem depth_push : (m.push f).depth = m.depth := depth_publish

@[simp]
theorem suspended_push : (m.push f).suspended = m.suspended := suspended_publish

theorem pushBody_eq (h : m.frames = f :: rest) (first stop : Nat) (kind : FrameKind) :
    m.pushBody first stop kind = m.push (.enter f.plan first stop kind) := by
  simp only [pushBody, h]

theorem frames_pop (h : m.frames = f :: rest) : m.pop.frames = rest := by
  by_cases kind : f.kind = .procedure
  · rw [pop_procedure h kind, frames_publish]
    rfl
  · rw [pop_inner h kind, frames_publish]
    rfl

theorem depth_pop (h : m.frames = f :: rest) :
    m.pop.depth = if f.kind = .procedure then m.depth - 1 else m.depth := by
  by_cases kind : f.kind = .procedure
  · rw [pop_procedure h kind, depth_publish, if_pos kind]
    rfl
  · rw [pop_inner h kind, depth_publish, if_neg kind]
    rfl

theorem suspended_pop : m.pop.suspended = m.suspended := by
  cases h : m.frames with
  | nil => simp only [pop, h]
  | cons f rest =>
    by_cases kind : f.kind = .procedure
    · rw [pop_procedure h kind, suspended_publish]
      rfl
    · rw [pop_inner h kind, suspended_publish]
      rfl

end

/-! ## Beginning a block -/

/-- The innermost frame begins its next block. -/
def beginNext (m : Machine) : Machine :=
  (m.updateTop fun f => { f with next := f.next + 1, current := f.next }).publish

section

variable {m : Machine} {f : Frame}

theorem performNext_some {op : Op} (h : f.plan.ops[f.next]? = some op) :
    m.performNext f = m.beginNext.perform f.next op := by
  simp only [performNext, h, beginNext]

theorem performNext_none (h : f.plan.ops[f.next]? = none) :
    m.performNext f = m.beginNext.schedule := by
  simp only [performNext, h, beginNext]

theorem beginNext_activity : m.beginNext.activity = m.activity := by
  unfold beginNext publish updateTop
  split <;> split <;> rfl

theorem frames_beginNext {rest : List Frame} (h : m.frames = f :: rest) :
    m.beginNext.frames = { f with next := f.next + 1, current := f.next } :: rest := by
  rw [beginNext, frames_publish, frames_updateTop h]

theorem depth_beginNext : m.beginNext.depth = m.depth := by
  rw [beginNext, depth_publish, depth_updateTop]

theorem suspended_beginNext : m.beginNext.suspended = m.suspended := by
  rw [beginNext, suspended_publish, suspended_updateTop]

end

/-! ## What is done next -/

section

variable {m : Machine}

theorem dispatch_above {f : Frame} {rest : List Frame} (above : m.floor < m.frames.length)
    (quiet : m.stop = false) (is : m.frames = f :: rest) :
    m.dispatch = if f.stop ≤ f.next then m.endOfFrame f else m.performNext f := by
  rw [dispatch, if_neg (Nat.not_le.mpr above), quiet, is]
  rfl

theorem dispatch_stopped (above : m.floor < m.frames.length) (stop : m.stop = true) :
    m.dispatch = m.finish .cancelled := by
  rw [dispatch, if_neg (Nat.not_le.mpr above), if_pos stop]

theorem dispatch_gone (frames : m.frames = []) (suspended : m.suspended = []) :
    m.dispatch = m.finish (.completed none) := by
  rw [dispatch, if_pos (by simp [frames]), suspended]

theorem dispatch_missing {s : Suspension} {outer : List Suspension}
    (suspended : m.suspended = s :: outer) (floor : s.floor = m.frames.length) :
    m.dispatch = m.fail (.missingReturn s.procedure) := by
  rw [dispatch, if_pos (by simp [Machine.floor, suspended, floor]), suspended]

end

/-! ## Calls -/

end Machine

/-- Whether what surrounds an expression wants its value. A statement does not. -/
def Evaluation.wantsValue : Evaluation → Bool
  | ⟨.statement, []⟩ => false
  | _ => true

theorem Evaluation.purpose_of_unwanted {around : Evaluation} (h : ¬around.wantsValue) :
    around.purpose = .statement := by
  obtain ⟨purpose, calls⟩ := around
  cases purpose with
  | statement => rfl
  | _ => exact absurd rfl h

namespace Machine

/-- What a native function sees. -/
def surroundings (m : Machine) : Surroundings := ⟨m.env, m.output, m.stop⟩

/-- The machine with what a native function leaves behind. -/
def within (m : Machine) (s : Surroundings) : Machine :=
  { m with env := s.env, output := s.output, stop := s.stop }

/-- Goes on with the answer of a native function. -/
def react (m : Machine) (definition : String) (around : Evaluation) : Reaction → Machine
  | .returned value => m.returned definition value around
  | .failed error => m.fail error
  | .panicked message => { m with activity := .panicked message }
  | .waiting wait value => { m with activity := .waiting wait definition value around }

section

variable {m : Machine} {around : Evaluation} {definition : String}

theorem call_procedure {body : ChainId} {parameters : List String} {arguments : List Value} :
    m.call arguments around (.procedure definition body parameters) =
      m.enterProcedure definition body parameters arguments
        (if around.wantsValue then some around else none) := by
  obtain ⟨purpose, calls⟩ := around
  cases purpose <;> cases calls <;> rfl

theorem call_native {function : Native} {arguments : List Value} :
    m.call arguments around (.native definition function) =
      (m.within (function m.surroundings arguments).2).react definition around
        (function m.surroundings arguments).1 := rfl

theorem returned_some {value : Value} :
    m.returned definition (some value) around =
      { m with activity := .delivering value around } := rfl

theorem returned_none :
    m.returned definition none around =
      if around.wantsValue then m.fail (.noValue definition) else m.schedule := by
  obtain ⟨purpose, calls⟩ := around
  cases purpose <;> cases calls <;> rfl

end

/-! ## Using a value -/

section

variable {m : Machine} {value : Value} {opener close : Nat}

theorem conclude_times_error {e : RunError} (h : value.expectNumber = .error e) :
    m.conclude value (.times opener close) = m.fail e := by
  simp only [conclude, h]

theorem conclude_times {x : Float} (h : value.expectNumber = .ok x) :
    m.conclude value (.times opener close) =
      if repeatCount x = 0 then (m.jumpPast close).schedule
      else
        ((m.jumpPast close).pushBody (opener + 1) close (.repeated (repeatCount x))).schedule := by
  simp only [conclude, h]
  cases repeatCount x <;> rfl

theorem conclude_firstTest :
    m.conclude value (.firstTest opener close) =
      if value.isTruthy then (m.jumpPast close).schedule
      else ((m.jumpPast close).pushBody (opener + 1) close (.untilHolds opener)).schedule := rfl

theorem conclude_retest :
    m.conclude value .retest = if value.isTruthy then m.pop.schedule else m.again := rfl

theorem conclude_branch {middle : Option Nat} :
    m.conclude value (.branch opener middle close) =
      match chosenBranch value.isTruthy opener middle close with
      | some (first, stop) => ((m.jumpPast close).pushBody first stop .branch).schedule
      | none => (m.jumpPast close).schedule := rfl

end

/-! ## What operations leave alone -/

/-- What no operation of the machine changes. -/
structure Kept (m n : Machine) : Prop where
  plans : n.plans = m.plans
  depthLimit : n.depthLimit = m.depthLimit
  output : n.output = m.output
  stop : n.stop = m.stop

theorem Kept.refl (m : Machine) : Kept m m := ⟨rfl, rfl, rfl, rfl⟩

theorem Kept.trans {m n o : Machine} (h : Kept m n) (next : Kept n o) : Kept m o :=
  ⟨next.plans.trans h.plans, next.depthLimit.trans h.depthLimit, next.output.trans h.output,
    next.stop.trans h.stop⟩

variable (m : Machine)

theorem kept_schedule : Kept m m.schedule := ⟨rfl, rfl, rfl, rfl⟩

theorem kept_publish : Kept m m.publish := by
  unfold publish
  split <;> exact ⟨rfl, rfl, rfl, rfl⟩

theorem kept_updateTop (change : Frame → Frame) : Kept m (m.updateTop change) := by
  unfold updateTop
  split <;> exact ⟨rfl, rfl, rfl, rfl⟩

theorem kept_push (f : Frame) : Kept m (m.push f) := ⟨rfl, rfl, rfl, rfl⟩

theorem kept_pushBody (first stop : Nat) (kind : FrameKind) :
    Kept m (m.pushBody first stop kind) := by
  unfold pushBody
  split <;> exact ⟨rfl, rfl, rfl, rfl⟩

theorem kept_pop : Kept m m.pop := by
  cases h : m.frames with
  | nil => rw [pop, h]; exact .refl m
  | cons f rest =>
    by_cases kind : f.kind = .procedure
    · rw [pop_procedure h kind]
      refine Kept.trans ?_ (kept_publish _)
      exact ⟨rfl, rfl, rfl, rfl⟩
    · rw [pop_inner h kind]
      refine Kept.trans ?_ (kept_publish _)
      exact ⟨rfl, rfl, rfl, rfl⟩

theorem kept_leave (frames : List Frame) : Kept m (m.leave frames) := by
  induction frames generalizing m with
  | nil => exact .refl m
  | cons f rest ih =>
    unfold leave
    split
    · exact kept_pop m
    · exact (kept_pop m).trans (ih m.pop)

theorem kept_finish (outcome : Outcome) : Kept m (m.finish outcome) := ⟨rfl, rfl, rfl, rfl⟩

theorem kept_enterProcedure (definition : String) (body : ChainId) (parameters : List String)
    (arguments : List Value) (around : Option Evaluation) :
    Kept m (m.enterProcedure definition body parameters arguments around) := by
  unfold enterProcedure
  split
  · exact kept_finish m _
  · split
    · exact kept_finish m _
    · exact ⟨rfl, rfl, rfl, rfl⟩

theorem kept_giveBack (value : Value) : Kept m (m.giveBack value) := by
  have left := kept_leave m m.frames
  unfold giveBack
  simp only
  split
  · exact left.trans (kept_schedule _)
  · split
    · exact left.trans (kept_finish _ _)
    · exact left.trans ⟨rfl, rfl, rfl, rfl⟩

theorem kept_conclude (value : Value) (purpose : Purpose) : Kept m (m.conclude value purpose) := by
  have past (close : Nat) : Kept m (m.jumpPast close) := kept_updateTop m _
  unfold conclude
  split
  · exact kept_schedule m
  · split
    · exact kept_finish m _
    · simp only
      split
      · exact (past _).trans (kept_schedule _)
      · exact ((past _).trans (kept_pushBody _ _ _ _)).trans (kept_schedule _)
  · simp only
    split
    · exact (past _).trans (kept_schedule _)
    · exact ((past _).trans (kept_pushBody _ _ _ _)).trans (kept_schedule _)
  · split
    · exact (kept_pop m).trans (kept_schedule _)
    · exact (kept_updateTop m _).trans (kept_schedule _)
  · simp only
    split
    · exact ((past _).trans (kept_pushBody _ _ _ _)).trans (kept_schedule _)
    · exact (past _).trans (kept_schedule _)
  · exact kept_giveBack m value

theorem kept_returned (definition : String) (value : Option Value) (around : Evaluation) :
    Kept m (m.returned definition value around) := by
  cases value with
  | some value => exact ⟨rfl, rfl, rfl, rfl⟩
  | none =>
    rw [returned_none]
    split
    · exact kept_finish m _
    · exact kept_schedule m

theorem kept_gather (callee : Callee) (values : List Value) (purpose : Purpose)
    (outer : List PendingCall) (arguments : List Expr) :
    Kept m (m.gather callee values purpose outer arguments) := by
  unfold gather
  split <;> exact ⟨rfl, rfl, rfl, rfl⟩

theorem kept_perform (index : Nat) (op : Op) : Kept m (m.perform index op) := by
  unfold perform
  split
  · exact kept_schedule m
  · exact ⟨rfl, rfl, rfl, rfl⟩
  · exact ⟨rfl, rfl, rfl, rfl⟩
  · exact ⟨rfl, rfl, rfl, rfl⟩
  · exact ((kept_updateTop m _).trans (kept_pushBody _ _ _ _)).trans (kept_schedule _)
  · exact ⟨rfl, rfl, rfl, rfl⟩
  · exact ⟨rfl, rfl, rfl, rfl⟩

theorem kept_beginNext : Kept m m.beginNext := (kept_updateTop m _).trans (kept_publish _)

theorem kept_performNext (f : Frame) : Kept m (m.performNext f) := by
  cases h : f.plan.ops[f.next]? with
  | some op => rw [performNext_some h]; exact (kept_beginNext m).trans (kept_perform _ _ _)
  | none => rw [performNext_none h]; exact (kept_beginNext m).trans (kept_schedule _)

theorem kept_endOfFrame (f : Frame) : Kept m (m.endOfFrame f) := by
  have left : Kept m m.pop.schedule := (kept_pop m).trans (kept_schedule _)
  have again : Kept m m.again := (kept_updateTop m _).trans (kept_schedule _)
  unfold endOfFrame
  split
  · exact left
  · exact left
  · exact left
  · exact again
  · split
    · exact (kept_updateTop m _).trans ((kept_updateTop _ _).trans (kept_schedule _))
    · exact left
  · simp only
    split
    · exact (kept_updateTop m _).trans ⟨rfl, rfl, rfl, rfl⟩
    · exact (kept_updateTop m _).trans ((kept_pop _).trans (kept_schedule _))

theorem kept_dispatch : Kept m m.dispatch := by
  unfold dispatch
  split
  · split <;> exact kept_finish m _
  · split
    · exact kept_finish m _
    · split
      · exact kept_finish m _
      · split
        · exact kept_endOfFrame m _
        · exact kept_performNext m _

theorem kept_start (chain : ChainId) : Kept m (m.start chain) := by
  unfold start
  split
  · exact kept_finish m _
  · exact ⟨rfl, rfl, rfl, rfl⟩

/-- Only a native function changes what operations leave alone. -/
theorem kept_move {m : Machine} (h : ∀ definition function arguments around,
    m.activity ≠ .calling (.native definition function) arguments around) : Kept m m.move := by
  have moves := m.moves
  generalize m.move = n at moves
  cases moves with
  | idle activity => exact .refl m
  | halts halted => exact .refl m
  | dispatches activity => exact kept_dispatch m
  | gives activity => exact ⟨rfl, rfl, rfl, rfl⟩
  | applies activity => exact kept_gather m _ _ _ _ _
  | concludes activity => exact kept_conclude m _ _
  | delivers activity => exact kept_gather m _ _ _ _ _
  | @calls callee arguments around activity =>
    cases callee with
    | native definition function => exact absurd activity (h _ _ _ _)
    | procedure definition body parameters =>
      rw [call_procedure]
      exact kept_enterProcedure m _ _ _ _ _
  | resumes activity => exact kept_returned m _ _ _

theorem kept_react (definition : String) (around : Evaluation) (reaction : Reaction) :
    Kept m (m.react definition around reaction) := by
  cases reaction with
  | returned value => exact kept_returned m _ _ _
  | failed error => exact kept_finish m _
  | panicked message => exact ⟨rfl, rfl, rfl, rfl⟩
  | waiting wait value => exact ⟨rfl, rfl, rfl, rfl⟩

/-- Either a machine does not call a native function, or it reacts to one. -/
theorem own_or_reacts :
    (∀ definition function arguments around,
      m.activity ≠ .calling (.native definition function) arguments around) ∨
    ∃ definition function arguments around,
    m.activity = .calling (.native definition function) arguments around ∧
      m.move = (m.within (function m.surroundings arguments).2).react definition around
        (function m.surroundings arguments).1 := by
  by_cases h : ∃ definition function arguments around,
      m.activity = .calling (.native definition function) arguments around
  · obtain ⟨definition, function, arguments, around, activity⟩ := h
    exact Or.inr ⟨definition, function, arguments, around, activity,
      by rw [move_calling activity, call_native]⟩
  · refine Or.inl fun definition function arguments around activity => h ?_
    exact ⟨definition, function, arguments, around, activity⟩

/-- The plans and the limit stay, whatever a native function does. -/
theorem plans_move : m.move.plans = m.plans ∧ m.move.depthLimit = m.depthLimit := by
  rcases own_or_reacts m with own | ⟨definition, function, arguments, around, -, moved⟩
  · exact ⟨(kept_move own).plans, (kept_move own).depthLimit⟩
  · have kept := kept_react (m.within (function m.surroundings arguments).2) definition around
      (function m.surroundings arguments).1
    rw [moved]
    exact ⟨kept.plans, kept.depthLimit⟩

theorem Reaches.plans {m n : Machine} (h : Reaches m n) :
    n.plans = m.plans ∧ n.depthLimit = m.depthLimit :=
  h.keeps (P := fun n => n.plans = m.plans ∧ n.depthLimit = m.depthLimit) ⟨rfl, rfl⟩
    (fun n h => ⟨(plans_move n).1.trans h.1, (plans_move n).2.trans h.2⟩) fun _ h => h

end Machine

end Blockwork
