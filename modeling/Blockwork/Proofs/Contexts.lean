import Blockwork.Proofs.Calls
import Blockwork.Proofs.Simulation

/-!
# Procedures on top of other frames

While a procedure is run, a machine works only on the frames that lie on the one that called it, on
the scopes of these frames, and on the evaluations that were suspended since. So it does the same
whatever lies below: it goes step by step with a machine that has nothing below.

## Main statements

* `Native.local_standard`: a standard function looks at no scope but the innermost.
* `Machine.Follows.move`: a machine with frames below goes step by step with one that has none.

The machine without anything below is never mentioned by a run. It is a means to compare two runs:
both go step by step with the same one.
-/

namespace Blockwork

/-! ## Variables with more scopes below -/

namespace Environment

/-- The variables with more scopes below. -/
def on (env : Environment) (below : List Scope) : Environment := ⟨env.globals, env.scopes ++ below⟩

variable {env : Environment} {below : List Scope}

theorem head?_on (inner : env.scopes ≠ []) : (env.on below).scopes.head? = env.scopes.head? := by
  obtain ⟨globals, scopes⟩ := env
  cases scopes with
  | nil => exact absurd rfl inner
  | cons scope outer => rfl

theorem lookup_on (inner : env.scopes ≠ []) (name : String) :
    (env.on below).lookup name = env.lookup name := by
  unfold lookup
  rw [head?_on inner]
  rfl

theorem get_on (inner : env.scopes ≠ []) (name : String) :
    (env.on below).get name = env.get name := by
  unfold get
  rw [lookup_on inner]

theorem declare_on (inner : env.scopes ≠ []) (name : String) (value : Value) :
    (env.on below).declare name value = (env.declare name value).on below := by
  obtain ⟨globals, scopes⟩ := env
  cases scopes with
  | nil => exact absurd rfl inner
  | cons scope outer => rfl

theorem set_on (inner : env.scopes ≠ []) (name : String) (value : Value) :
    (env.on below).set name value = (env.set name value).on below := by
  unfold set
  rw [head?_on inner, declare_on inner]
  simp only
  split
  · rfl
  · show (if (env.globals.get? name).isSome then _ else _) = _
    split <;> rfl

theorem pop_on (inner : env.scopes ≠ []) : (env.on below).pop = env.pop.on below := by
  obtain ⟨globals, scopes⟩ := env
  cases scopes with
  | nil => exact absurd rfl inner
  | cons scope outer => rfl

end Environment

namespace Native

/-- A function that is called within a procedure does the same whatever scopes there are below that
of the procedure, and leaves them alone. -/
def Local (f : Native) : Prop :=
  ∀ (s : Surroundings) (below : List Scope) (arguments : List Value), s.env.scopes ≠ [] →
    f { s with env := s.env.on below } arguments =
      ((f s arguments).1, { (f s arguments).2 with env := (f s arguments).2.env.on below })

theorem local_pure (f : List Value → Except RunError Value) : (Native.pure f).Local := by
  intro s below arguments _
  unfold Native.pure
  split <;> rfl

/-- A function that writes a variable is called within a procedure, and what it writes and how does
not depend on the scopes below. -/
theorem WritesLast.local {f : Native}
    {binding : Environment → List Value → Except RunError (String × Value)}
    {change : Environment → String → Value → Environment} (h : f.WritesLast binding change)
    (same : ∀ (env : Environment) (below : List Scope) (arguments : List Value),
      env.scopes ≠ [] → binding (env.on below) arguments = binding env arguments)
    (moves : ∀ (env : Environment) (below : List Scope) (name : String) (value : Value),
      env.scopes ≠ [] → change (env.on below) name value = (change env name value).on below) :
    f.Local := by
  intro s below arguments inner
  rcases h.alike s { s with env := s.env.on below } arguments (same s.env below arguments inner)
    with ⟨e, done, done'⟩ | ⟨name, value, done, done'⟩
  · rw [done, done']
  · rw [done, done', moves _ _ _ _ inner]

theorem changed_on {env : Environment} {below : List Scope} (inner : env.scopes ≠ [])
    (arguments : List Value) : changed (env.on below) arguments = changed env arguments := by
  unfold changed
  simp only [Environment.get_on inner]

theorem local_getVariable : getVariable.Local := by
  intro s below arguments inner
  unfold getVariable
  cases argument arguments 0 with
  | error e => rfl
  | ok name =>
    simp only [Environment.get_on inner]
    cases s.env.get name.display <;> rfl

theorem local_print : print.Local := by
  intro s below arguments _
  unfold print printPiece
  cases argument arguments 0 with
  | error e => rfl
  | ok value =>
    simp only
    rcases s.output.write value.display with ⟨_ | e, output⟩
    · simp only
      rcases output.write "\n" with ⟨_ | e, output⟩ <;> rfl
    · rfl

theorem local_pause : pause.Local := by
  intro s below arguments _
  unfold pause
  cases numberArgument arguments 0 with
  | error e => rfl
  | ok seconds =>
    simp only
    split <;> rfl

/-- **A standard function looks at no scope but the innermost.** -/
theorem local_standard {name : String} {f : Native} (h : standard.get? name = some f) : f.Local :=
  standard_cases local_pure
    ((writesLast_assignment _).local (fun _ _ _ _ => rfl) fun _ _ _ _ inner =>
      Environment.declare_on inner _ _)
    ((writesLast_assignment _).local (fun _ _ _ _ => rfl) fun _ _ _ _ inner =>
      Environment.set_on inner _ _)
    (writesLast_changeVariable.local (fun _ _ a inner => changed_on inner a) fun _ _ _ _ inner =>
      Environment.set_on inner _ _)
    local_getVariable local_print local_pause h

end Native

/-! ## Frames of procedures -/

/-- The frames that lie on the caller of a procedure, with the number of procedures and the
evaluations that wait for one. -/
inductive Layers : List Frame → Nat → List Suspension → Prop where
  | bottom {f : Frame} (kind : f.kind = .procedure) : Layers [f] 1 []
  | body {f g : Frame} {rest : List Frame} {depth : Nat} {suspended : List Suspension}
      (kind : f.kind.isBoundary = false) (below : Layers (g :: rest) depth suspended) :
      Layers (f :: g :: rest) depth suspended
  | statement {f : Frame} {rest : List Frame} {depth : Nat} {suspended : List Suspension}
      (kind : f.kind = .procedure) (below : Layers rest depth suspended) :
      Layers (f :: rest) (depth + 1) suspended
  | value {f : Frame} {rest : List Frame} {depth : Nat} {s : Suspension}
      {outer : List Suspension} (kind : f.kind = .procedure) (floor : s.floor = rest.length)
      (below : Layers rest depth outer) : Layers (f :: rest) (depth + 1) (s :: outer)

/-- The frames of a procedure when it is looked what to do next. -/
inductive Cleared : List Frame → Nat → List Suspension → Prop where
  /-- The procedure has been left. -/
  | gone : Cleared [] 0 []
  | inside {frames : List Frame} {depth : Nat} {suspended : List Suspension}
      (layers : Layers frames depth suspended) : Cleared frames depth suspended
  /-- A procedure that an evaluation waits for has been left. -/
  | value {frames : List Frame} {depth : Nat} {s : Suspension} {outer : List Suspension}
      (floor : s.floor = frames.length) (layers : Layers frames depth outer) :
      Cleared frames depth (s :: outer)

theorem Cleared.split {frames : List Frame} {depth : Nat} {suspended : List Suspension}
    (h : Cleared frames depth suspended) :
    (frames = [] ∧ depth = 0 ∧ suspended = []) ∨ Layers frames depth suspended ∨
      ∃ s outer, suspended = s :: outer ∧ s.floor = frames.length ∧ Layers frames depth outer := by
  cases h with
  | gone => exact Or.inl ⟨rfl, rfl, rfl⟩
  | inside layers => exact Or.inr (Or.inl layers)
  | value floor layers => exact Or.inr (Or.inr ⟨_, _, rfl, floor, layers⟩)

namespace Layers

variable {f g : Frame} {rest frames : List Frame} {depth : Nat} {suspended : List Suspension}

theorem ne_nil (h : Layers frames depth suspended) : frames ≠ [] := by
  cases h <;> exact List.cons_ne_nil _ _

theorem depth_pos (h : Layers frames depth suspended) : 0 < depth := by
  induction h with
  | bottom _ => exact Nat.one_pos
  | body _ _ ih => exact ih
  | statement _ _ _ => exact Nat.succ_pos _
  | value _ _ _ _ => exact Nat.succ_pos _

theorem floor_lt (h : Layers frames depth suspended) : floorOf suspended < frames.length := by
  induction h with
  | bottom _ => exact Nat.one_pos
  | body _ _ ih => exact Nat.lt_succ_of_lt ih
  | statement _ _ ih => exact Nat.lt_succ_of_lt ih
  | value _ floor _ _ => simp [floorOf, floor]

/-- The innermost frame may change as long as it is left in the same way. -/
theorem change (h : Layers (f :: rest) depth suspended)
    (procedure : g.kind = .procedure ↔ f.kind = .procedure)
    (boundary : g.kind.isBoundary = f.kind.isBoundary) : Layers (g :: rest) depth suspended := by
  cases h with
  | bottom kind => exact .bottom (procedure.mpr kind)
  | body kind below => exact .body (boundary.trans kind) below
  | statement kind below => exact .statement (procedure.mpr kind) below
  | value kind floor below => exact .value (procedure.mpr kind) floor below

/-- What is left when the innermost frame is left. -/
theorem pop (h : Layers (f :: rest) depth suspended) :
    Cleared rest (if f.kind = .procedure then depth - 1 else depth) suspended := by
  cases h with
  | bottom kind =>
    rw [if_pos kind]
    exact .gone
  | body kind below =>
    rw [if_neg (by intro is; rw [is] at kind; cases kind)]
    exact .inside below
  | statement kind below =>
    rw [if_pos kind]
    exact .inside below
  | value kind floor below =>
    rw [if_pos kind]
    exact .value floor below

/-- A return leaves some bodies and the procedure that they are in. -/
theorem boundary (h : Layers frames depth suspended) : ∃ inner f rest,
    frames = inner ++ f :: rest ∧ (∀ g ∈ inner, g.kind.isBoundary = false) ∧
      f.kind = .procedure ∧ Cleared rest (depth - 1) suspended := by
  induction h with
  | bottom kind => exact ⟨[], _, [], rfl, nofun, kind, .gone⟩
  | body kind _ ih =>
    obtain ⟨inner, f, rest, same, bodies, procedure, left⟩ := ih
    refine ⟨_ :: inner, f, rest, by rw [same]; rfl, fun g hg => ?_, procedure, left⟩
    rcases List.mem_cons.mp hg with rfl | hg
    · exact kind
    · exact bodies g hg
  | statement kind below _ => exact ⟨[], _, _, rfl, nofun, kind, .inside below⟩
  | value kind floor below _ => exact ⟨[], _, _, rfl, nofun, kind, .value floor below⟩

end Layers

/-! ## Machines with frames below -/

/-- What lies below a procedure. -/
structure Base where
  frames : List Frame
  scopes : List Scope
  suspended : List Suspension

/-- The evaluations that are suspended leave the frame of the caller alone. -/
def Base.Low (b : Base) : Prop := floorOf b.suspended ≤ b.frames.length

/-- An evaluation that is suspended with more frames below. -/
def Suspension.raise (s : Suspension) (count : Nat) : Suspension :=
  { s with floor := s.floor + count }

/-- A state with more below. -/
def Config.on (c : Config) (b : Base) : Config where
  world := ⟨c.world.env.on b.scopes, c.world.output⟩
  frames := c.frames ++ b.frames
  depth := c.depth
  suspended := c.suspended.map (·.raise b.frames.length) ++ b.suspended

/-- A state after a procedure has been entered. -/
def Config.enter (c : Config) (plan : Plan) (scope : Scope) (waiting : Option Suspension) :
    Config where
  world := ⟨c.world.env.push scope, c.world.output⟩
  frames := .enter plan 0 plan.ops.size .procedure :: c.frames
  depth := c.depth + 1
  suspended := waiting.toList ++ c.suspended

theorem Config.on_floor {c : Config} {b : Base} (waits : c.suspended ≠ []) :
    floorOf (c.on b).suspended = floorOf c.suspended + b.frames.length := by
  obtain ⟨world, frames, depth, suspended⟩ := c
  cases suspended with
  | nil => exact absurd rfl waits
  | cons s outer => rfl

theorem Config.on_leave {c : Config} {b : Base} {f : Frame} {rest : List Frame}
    (inner : f.kind = .procedure → c.world.env.scopes ≠ []) :
    (c.on b).leave f (rest ++ b.frames) = (c.leave f rest).on b := by
  by_cases kind : f.kind = .procedure
  · rw [Config.leave_procedure kind, Config.leave_procedure kind]
    simp only [Config.on, Environment.pop_on (inner kind)]
  · rw [Config.leave_inner kind, Config.leave_inner kind]
    rfl

namespace Machine

/-- A machine is in the state of another with more below, whatever it does next. -/
structure Bears (b : Base) (n m : Machine) : Prop where
  plans : m.plans = n.plans
  limit : m.depthLimit = n.depthLimit
  quiet : n.stop = false
  stop : m.stop = false
  config : m.config = n.config.on b

/-- The frames of a machine are those of a procedure. -/
def Layered (m : Machine) : Prop := Layers m.frames m.env.scopes.length m.suspended

/-- The same when it is looked what to do next. -/
def Clear (m : Machine) : Prop := Cleared m.frames m.env.scopes.length m.suspended

/-- The frames of a machine are as what it does next wants them. -/
def Settled (m : Machine) : Prop :=
  match m.activity with
  | .scheduling => m.Clear
  | .evaluating .. | .delivering .. | .calling .. | .waiting .. => m.Layered
  | .idle | .ended _ | .panicked _ => False

/-- Hands the value of a procedure that has been left to whom it is for. -/
def handOver (m : Machine) (value : Value) : Machine :=
  if m.floor < m.frames.length then m.schedule
  else
    match m.suspended with
    | [] => m.finish (.completed (some value))
    | s :: outer => { m with suspended := outer, activity := .delivering value s.evaluation }

theorem giveBack_eq (m : Machine) (value : Value) :
    m.giveBack value = (m.leave m.frames).handOver value := rfl

/-- How a machine with frames below compares with one that has none. -/
inductive Follows (b : Base) (n m : Machine) : Prop where
  /-- Both are at the same place of the procedure, or just behind it. -/
  | inside (bears : Bears b n m) (activity : m.activity = n.activity) (settled : n.Settled)
  /-- Both have left the procedure with a value. -/
  | returned (n' m' : Machine) (value : Value) (bears : Bears b n' m') (frames : n'.frames = [])
      (scopes : n'.env.scopes = []) (suspended : n'.suspended = []) (is : n = n'.handOver value)
      (is' : m = m'.handOver value)
  /-- Both have failed. -/
  | failed (n' m' : Machine) (failure failure' : Failure) (is : n = n'.finish (.failed failure))
      (is' : m = m'.finish (.failed failure')) (error : failure'.error = failure.error)
      (output : m'.output = n'.output) (globals : m'.env.globals = n'.env.globals)

section

variable {b : Base} {m n m' n' : Machine} {f : Frame} {rest : List Frame} {around : Evaluation}
  {value : Value}

namespace Bears

theorem frames (h : Bears b n m) : m.frames = n.frames ++ b.frames :=
  congrArg Config.frames h.config

theorem frames_cons (h : Bears b n m) (is : n.frames = f :: rest) :
    m.frames = f :: (rest ++ b.frames) := by rw [h.frames, is, List.cons_append]

theorem length_frames (h : Bears b n m) : m.frames.length = n.frames.length + b.frames.length := by
  rw [h.frames, List.length_append]

theorem scopes (h : Bears b n m) : m.env.scopes = n.env.scopes ++ b.scopes :=
  congrArg (fun c => c.world.env.scopes) h.config

theorem env (h : Bears b n m) : m.env = n.env.on b.scopes :=
  congrArg (fun c => c.world.env) h.config

theorem globals (h : Bears b n m) : m.env.globals = n.env.globals :=
  congrArg (fun c => c.world.env.globals) h.config

theorem output (h : Bears b n m) : m.output = n.output :=
  congrArg (fun c => c.world.output) h.config

theorem depth (h : Bears b n m) : m.depth = n.depth := congrArg Config.depth h.config

theorem suspended (h : Bears b n m) :
    m.suspended = n.suspended.map (·.raise b.frames.length) ++ b.suspended :=
  congrArg Config.suspended h.config

/-- What is above the floor without more below is above it with more below. -/
theorem above (h : Bears b n m) (low : b.Low) (above : n.floor < n.frames.length) :
    m.floor < m.frames.length := by
  show floorOf m.config.suspended < _
  rw [h.config, h.length_frames]
  by_cases waits : n.suspended = []
  · have same : (n.config.on b).suspended = b.suspended := by
      show n.suspended.map _ ++ b.suspended = _
      rw [waits]
      rfl
    rw [same]
    exact Nat.lt_of_le_of_lt low (Nat.lt_add_of_pos_left (Nat.zero_lt_of_lt above))
  · rw [Config.on_floor (by exact waits)]
    exact Nat.add_lt_add_right above _

/-- An evaluation that waits right below the frames waits there with more below. -/
theorem waiting (h : Bears b n m) {s : Suspension} {outer : List Suspension}
    (waits : n.suspended = s :: outer) (floor : s.floor = n.frames.length) :
    m.suspended = s.raise b.frames.length ::
        (outer.map (·.raise b.frames.length) ++ b.suspended) ∧
      (s.raise b.frames.length).floor = m.frames.length := by
  refine ⟨?_, ?_⟩
  · rw [h.suspended, waits]
    rfl
  · rw [h.length_frames, ← floor]
    rfl

/-! ### Operations -/

theorem doing (h : Bears b n m) (activity activity' : Activity) :
    Bears b { n with activity := activity } { m with activity := activity' } :=
  ⟨h.plans, h.limit, h.quiet, h.stop, h.config⟩

theorem kept (h : Bears b n m) (kept : Kept n n') (kept' : Kept m m')
    (config : m'.config = n'.config.on b) : Bears b n' m' :=
  ⟨kept'.plans.trans (h.plans.trans kept.plans.symm),
    kept'.depthLimit.trans (h.limit.trans kept.depthLimit.symm), kept.stop.trans h.quiet,
    kept'.stop.trans h.stop, config⟩

theorem updateTop (h : Bears b n m) (is : n.frames = f :: rest) (change : Frame → Frame) :
    Bears b (n.updateTop change) (m.updateTop change) := by
  refine h.kept (kept_updateTop n _) (kept_updateTop m _) ?_
  rw [config_updateTop is, config_updateTop (h.frames_cons is), h.config]
  rfl

theorem beginNext (h : Bears b n m) (is : n.frames = f :: rest) :
    Bears b n.beginNext m.beginNext := by
  refine h.kept (kept_beginNext n) (kept_beginNext m) ?_
  rw [config_beginNext is, config_beginNext (h.frames_cons is), h.config]
  rfl

theorem pushBody (h : Bears b n m) (is : n.frames = f :: rest) (first stop : Nat)
    (kind : FrameKind) : Bears b (n.pushBody first stop kind) (m.pushBody first stop kind) := by
  refine h.kept (kept_pushBody n _ _ _) (kept_pushBody m _ _ _) ?_
  rw [pushBody_eq is, pushBody_eq (h.frames_cons is), config_push, config_push, h.config, h.frames]
  rfl

theorem pop (h : Bears b n m) (is : n.frames = f :: rest) (scopes : n.env.scopes ≠ []) :
    Bears b n.pop m.pop := by
  refine h.kept (kept_pop n) (kept_pop m) ?_
  rw [config_pop is, config_pop (h.frames_cons is), h.config, Config.on_leave fun _ => scopes]

end Bears

/-! ### Frames after an operation -/

namespace Layered

theorem scopes (h : n.Layered) : n.env.scopes ≠ [] :=
  List.ne_nil_of_length_pos (Layers.depth_pos h)

theorem cons (h : n.Layered) : ∃ f rest, n.frames = f :: rest :=
  List.exists_cons_of_ne_nil (Layers.ne_nil h)

theorem clear (h : n.Layered) : n.Clear := .inside h

theorem of_config (h : Layers n.config.frames n.config.world.env.scopes.length n.config.suspended) :
    n.Layered := h

theorem updateTop (h : n.Layered) (is : n.frames = f :: rest) {change : Frame → Frame}
    (procedure : (change f).kind = .procedure ↔ f.kind = .procedure)
    (boundary : (change f).kind.isBoundary = f.kind.isBoundary) :
    (n.updateTop change).Layered := by
  refine of_config ?_
  rw [config_updateTop is]
  unfold Layered at h
  rw [is] at h
  exact h.change procedure boundary

theorem beginNext (h : n.Layered) (is : n.frames = f :: rest) : n.beginNext.Layered := by
  refine of_config ?_
  rw [config_beginNext is]
  unfold Layered at h
  rw [is] at h
  exact h.change Iff.rfl rfl

theorem pushBody (h : n.Layered) (first stop : Nat) {kind : FrameKind}
    (body : kind.isBoundary = false) : (n.pushBody first stop kind).Layered := by
  obtain ⟨f, rest, is⟩ := h.cons
  refine of_config ?_
  rw [pushBody_eq is, config_push]
  unfold Layered at h
  show Layers (_ :: n.frames) n.env.scopes.length n.suspended
  rw [is] at h ⊢
  exact .body body h

theorem pop (h : n.Layered) (is : n.frames = f :: rest) : n.pop.Clear := by
  show Cleared n.pop.config.frames n.pop.config.world.env.scopes.length n.pop.config.suspended
  unfold Layered at h
  rw [is] at h
  have left := h.pop
  rw [config_pop is]
  by_cases kind : f.kind = .procedure
  · rw [if_pos kind] at left
    rw [Config.leave_procedure kind]
    show Cleared rest n.env.scopes.tail.length n.suspended
    rwa [List.length_tail]
  · rw [if_neg kind] at left
    rw [Config.leave_inner kind]
    exact left

end Layered

theorem handOver_above (above : m.floor < m.frames.length) : m.handOver value = m.schedule :=
  if_pos above

theorem handOver_waiting {s : Suspension} {outer : List Suspension}
    (suspended : m.suspended = s :: outer) (floor : s.floor = m.frames.length) :
    m.handOver value =
      { m with suspended := outer, activity := .delivering value s.evaluation } := by
  unfold handOver
  rw [if_neg (by simp [Machine.floor, suspended, floor]), suspended]

theorem handOver_gone (frames : m.frames = []) (suspended : m.suspended = []) :
    m.handOver value = m.finish (.completed (some value)) := by
  unfold handOver
  rw [if_neg (by simp [frames]), suspended]

/-- The evaluation that is suspended when a procedure is entered. -/
def waiting (m : Machine) (definition : String) (around : Option Evaluation) : Option Suspension :=
  around.map fun around => ⟨definition, m.frames.length, around⟩

section

variable {body : ChainId} {definition : String} {parameters : List String} {arguments : List Value}
  {around : Option Evaluation}

theorem enterProcedure_full (full : m.depthLimit ≤ m.depth) :
    m.enterProcedure definition body parameters arguments around =
      m.fail (.stackOverflow m.depthLimit) := if_pos full

theorem enterProcedure_without (room : ¬m.depthLimit ≤ m.depth) {failure : Failure}
    (none : m.plan body = .error failure) :
    m.enterProcedure definition body parameters arguments around = m.finish (.failed failure) := by
  rw [Machine.enterProcedure, if_neg room, none]

theorem config_enterProcedure (room : ¬m.depthLimit ≤ m.depth) {plan : Plan}
    (is : m.plan body = .ok plan) (definition : String) (parameters : List String)
    (arguments : List Value) (around : Option Evaluation) :
    (m.enterProcedure definition body parameters arguments around).config =
        m.config.enter plan (.ofParameters parameters arguments) (m.waiting definition around) ∧
      (m.enterProcedure definition body parameters arguments around).activity = .scheduling := by
  rw [Machine.enterProcedure, if_neg room, is]
  exact ⟨rfl, rfl⟩

end

/-- Machines with the same plans have no plan of a chain for the same reason. -/
theorem plan_same (plans : m.plans = n.plans) (id : ChainId) :
    (∃ plan, n.plan id = .ok plan ∧ m.plan id = .ok plan) ∨
      ∃ failure failure', n.plan id = .error failure ∧ m.plan id = .error failure' ∧
        failure'.error = failure.error := by
  unfold Machine.plan
  rw [plans]
  cases n.plans.find? fun e => e.1 = id with
  | none => exact Or.inr ⟨_, _, rfl, rfl, rfl⟩
  | some e =>
    obtain ⟨id', plan⟩ := e
    cases plan with
    | ok plan => exact Or.inl ⟨plan, rfl, rfl⟩
    | error failure => exact Or.inr ⟨failure, failure, rfl, rfl, rfl⟩

/-! ## Moves -/

namespace Follows

theorem go_on (h : Bears b n m) (clear : n.Clear) : Follows b n.schedule m.schedule :=
  .inside (h.doing _ _) rfl clear

theorem finish (h : Bears b n m) {failure failure' : Failure}
    (same : failure'.error = failure.error) :
    Follows b (n.finish (.failed failure)) (m.finish (.failed failure')) :=
  .failed n m failure failure' rfl rfl same h.output h.globals

theorem fail (h : Bears b n m) (e : RunError) : Follows b (n.fail e) (m.fail e) := finish h rfl

/-- A value is returned from a procedure. -/
theorem giveBack (h : Bears b n m) (low : b.Low) (layered : n.Layered) (value : Value) :
    Follows b (n.giveBack value) (m.giveBack value) := by
  obtain ⟨inner, f, rest, frames, bodies, kind, left⟩ := Layers.boundary layered
  have boundary : f.kind.isBoundary := by rw [kind]; rfl
  have frames' : m.frames = inner ++ f :: (rest ++ b.frames) := by
    rw [h.frames, frames, List.append_assoc, List.cons_append]
  have config : (n.leave n.frames).config = n.config.leave f rest := by
    rw [frames]
    exact config_leave bodies boundary frames
  have bears : Bears b (n.leave n.frames) (m.leave m.frames) := by
    refine h.kept (kept_leave n _) (kept_leave m _) ?_
    rw [config, frames', config_leave bodies boundary frames', h.config,
      Config.on_leave fun _ => layered.scopes]
  rw [Config.leave_procedure kind] at config
  rw [giveBack_eq, giveBack_eq]
  revert bears config
  generalize n.leave n.frames = n'
  generalize m.leave m.frames = m'
  intro config bears
  have frames : n'.frames = rest := congrArg Config.frames config
  have scopes : n'.env.scopes.length = n.env.scopes.length - 1 := by
    rw [← List.length_tail]
    exact congrArg (fun c => c.world.env.scopes.length) config
  have suspended : n'.suspended = n.suspended := congrArg Config.suspended config
  rw [← scopes, ← suspended, ← frames] at left
  -- What was left is the procedure at the bottom, one called as a statement, or one with a value.
  rcases left.split with ⟨gone, none, nobody⟩ | layers | ⟨s, outer, waits, floor, layers⟩
  · exact .returned n' m' value bears gone (List.eq_nil_of_length_eq_zero none) nobody rfl rfl
  · rw [handOver_above layers.floor_lt, handOver_above (bears.above low layers.floor_lt)]
    exact go_on bears (.inside layers)
  · obtain ⟨waits', floor'⟩ := bears.waiting waits floor
    rw [handOver_waiting waits floor, handOver_waiting waits' floor']
    refine .inside ⟨bears.plans, bears.limit, bears.quiet, bears.stop, ?_⟩ rfl layers
    show Config.mk _ m'.config.frames m'.config.depth _ = _
    rw [bears.config]
    show Config.mk ⟨m'.env, m'.output⟩ _ _ _ = _
    rw [bears.env, bears.output]
    rfl

/-- The value of a whole expression is used. -/
theorem conclude (h : Bears b n m) (low : b.Low) (layered : n.Layered) (value : Value)
    (purpose : Purpose) : Follows b (n.conclude value purpose) (m.conclude value purpose) := by
  obtain ⟨f, rest, frames⟩ := layered.cons
  have past (close : Nat) : Bears b (n.jumpPast close) (m.jumpPast close) := h.updateTop frames _
  have stays (close : Nat) : (n.jumpPast close).Layered := layered.updateTop frames Iff.rfl rfl
  have skipped (close : Nat) : Follows b (n.jumpPast close).schedule (m.jumpPast close).schedule :=
    go_on (past close) (stays close).clear
  have entered (close first stop : Nat) (kind : FrameKind) (body : kind.isBoundary = false) :
      Follows b ((n.jumpPast close).pushBody first stop kind).schedule
        ((m.jumpPast close).pushBody first stop kind).schedule :=
    go_on ((past close).pushBody (frames_updateTop frames _) first stop kind)
      ((stays close).pushBody first stop body).clear
  cases purpose with
  | statement => exact go_on h layered.clear
  | times opener close =>
    cases number : value.expectNumber with
    | error e =>
      rw [conclude_times_error number, conclude_times_error number]
      exact fail h e
    | ok x =>
      rw [conclude_times number, conclude_times number]
      split
      · exact skipped close
      · exact entered close _ _ _ rfl
  | firstTest opener close =>
    rw [conclude_firstTest, conclude_firstTest]
    split
    · exact skipped close
    · exact entered close _ _ _ rfl
  | retest =>
    rw [conclude_retest, conclude_retest]
    split
    · exact go_on (h.pop frames layered.scopes) (layered.pop frames)
    · exact go_on (h.updateTop frames _) (layered.updateTop frames Iff.rfl rfl).clear
  | branch opener middle close =>
    rw [conclude_branch, conclude_branch]
    split
    · exact entered close _ _ _ rfl
    · exact skipped close
  | giveBack => exact giveBack h low layered value

theorem returned_native (h : Bears b n m) (layered : n.Layered) (definition : String)
    (result : Option Value) (around : Evaluation) :
    Follows b (n.returned definition result around) (m.returned definition result around) := by
  cases result with
  | some value => exact .inside (h.doing _ _) rfl layered
  | none =>
    rw [returned_none, returned_none]
    split
    · exact fail h _
    · exact go_on h layered.clear

theorem gather (h : Bears b n m) (layered : n.Layered) (callee : Callee) (values : List Value)
    (purpose : Purpose) (outer : List PendingCall) (arguments : List Expr) :
    Follows b (n.gather callee values purpose outer arguments)
      (m.gather callee values purpose outer arguments) := by
  cases arguments with
  | nil => exact .inside (h.doing _ _) rfl layered
  | cons e rest => exact .inside (h.doing _ _) rfl layered

/-- A block is begun. -/
theorem perform (h : Bears b n m) (layered : n.Layered) (index : Nat) (op : Op) :
    Follows b (n.perform index op) (m.perform index op) := by
  obtain ⟨f, rest, frames⟩ := layered.cons
  cases op with
  | marker => exact go_on h layered.clear
  | forever close =>
    exact go_on ((h.updateTop frames _).pushBody (frames_updateTop frames _) _ _ _)
      ((layered.updateTop frames Iff.rfl rfl).pushBody _ _ rfl).clear
  | statement e => exact .inside (h.doing _ _) rfl layered
  | repeatTimes times close => exact .inside (h.doing _ _) rfl layered
  | repeatUntil condition close => exact .inside (h.doing _ _) rfl layered
  | ifThen condition middle close => exact .inside (h.doing _ _) rfl layered
  | giveBack e => exact .inside (h.doing _ _) rfl layered

theorem performNext (h : Bears b n m) (layered : n.Layered) (is : n.frames = f :: rest) :
    Follows b (n.performNext f) (m.performNext f) := by
  cases hop : f.plan.ops[f.next]? with
  | some op =>
    rw [performNext_some hop, performNext_some hop]
    exact perform (h.beginNext is) (layered.beginNext is) _ _
  | none =>
    rw [performNext_none hop, performNext_none hop]
    exact go_on (h.beginNext is) (layered.beginNext is).clear

theorem endOfFrame (h : Bears b n m) (layered : n.Layered) (is : n.frames = f :: rest) :
    Follows b (n.endOfFrame f) (m.endOfFrame f) := by
  have left : Follows b n.pop.schedule m.pop.schedule :=
    go_on (h.pop is layered.scopes) (layered.pop is)
  unfold Machine.endOfFrame
  split
  · exact left
  · exact left
  · exact left
  · exact go_on (h.updateTop is _) (layered.updateTop is Iff.rfl rfl).clear
  · next remaining kind =>
    split
    · have count : (FrameKind.repeated (remaining - 1) = .procedure ↔ f.kind = .procedure) ∧
          (FrameKind.repeated (remaining - 1)).isBoundary = f.kind.isBoundary := by
        rw [kind]
        exact ⟨⟨nofun, nofun⟩, rfl⟩
      refine go_on ((h.updateTop is _).updateTop (frames_updateTop is _) _) ?_
      exact ((layered.updateTop is count.1 count.2).updateTop (frames_updateTop is _) Iff.rfl
        rfl).clear
    · exact left
  · next opener kind =>
    simp only
    have settled : (n.updateTop fun g => { g with current := opener }).Layered :=
      layered.updateTop is Iff.rfl rfl
    split
    · exact .inside ((h.updateTop is _).doing _ _) rfl settled
    · exact go_on ((h.updateTop is _).pop (frames_updateTop is _) settled.scopes)
        (settled.pop (frames_updateTop is _))

/-- It is looked what to do next, unless the procedure has been left. -/
theorem dispatch (h : Bears b n m) (low : b.Low) (clear : n.Clear) (inner : n.frames ≠ []) :
    Follows b n.dispatch m.dispatch := by
  rcases Cleared.split clear with ⟨gone, -, -⟩ | layers | ⟨s, outer, waits, floor, -⟩
  · exact absurd gone inner
  · obtain ⟨f, rest, is⟩ := List.exists_cons_of_ne_nil inner
    rw [dispatch_above layers.floor_lt h.quiet is,
      dispatch_above (h.above low layers.floor_lt) h.stop (h.frames_cons is)]
    split
    · exact endOfFrame h layers is
    · exact performNext h layers is
  · obtain ⟨waits', floor'⟩ := h.waiting waits floor
    rw [dispatch_missing waits floor, dispatch_missing waits' floor']
    exact fail h _

/-! ### Calls -/

/-- A procedure is entered. It is not, for the same reason, if it cannot be. -/
theorem enter (plans : m.plans = n.plans) (limit : m.depthLimit = n.depthLimit)
    (depth : m.depth = n.depth) (quiet : n.stop = false) (stop : m.stop = false)
    (globals : m.env.globals = n.env.globals) (output : m.output = n.output) {definition : String}
    {around around' : Option Evaluation}
    (config : ∀ plan scope, m.config.enter plan scope (m.waiting definition around') =
      (n.config.enter plan scope (n.waiting definition around)).on b)
    (layers : ∀ plan, Layers (.enter plan 0 plan.ops.size .procedure :: n.frames)
      (n.env.scopes.length + 1) ((n.waiting definition around).toList ++ n.suspended))
    (body : ChainId) (parameters : List String) (arguments : List Value) :
    Follows b (n.enterProcedure definition body parameters arguments around)
      (m.enterProcedure definition body parameters arguments around') := by
  by_cases full : n.depthLimit ≤ n.depth
  · have full' : m.depthLimit ≤ m.depth := by rwa [limit, depth]
    rw [enterProcedure_full full, enterProcedure_full full', limit]
    exact .failed n m _ _ rfl rfl rfl output globals
  · have full' : ¬m.depthLimit ≤ m.depth := by rwa [limit, depth]
    rcases plan_same plans body with ⟨plan, hn, hm⟩ | ⟨failure, failure', hn, hm, error⟩
    · have entered := config_enterProcedure full hn definition parameters arguments around
      have entered' := config_enterProcedure full' hm definition parameters arguments around'
      have kept := kept_enterProcedure n definition body parameters arguments around
      have kept' := kept_enterProcedure m definition body parameters arguments around'
      refine .inside ⟨?_, ?_, kept.stop.trans quiet, kept'.stop.trans stop, ?_⟩ ?_ ?_
      · rw [kept'.plans, kept.plans, plans]
      · rw [kept'.depthLimit, kept.depthLimit, limit]
      · rw [entered.1, entered'.1, config]
      · rw [entered.2, entered'.2]
      · unfold Settled
        rw [entered.2]
        refine Layered.clear (Layered.of_config ?_)
        rw [entered.1]
        exact layers plan
    · rw [enterProcedure_without full hn, enterProcedure_without full' hm]
      exact .failed n m _ _ rfl rfl error output globals

/-- A native function sees the same from within the procedure. -/
theorem react (h : Bears b n m) (layered : n.Layered) {function : Native} (sees : function.Local)
    (harmless : function.Harmless) (definition : String) (arguments : List Value)
    (around : Evaluation) :
    Follows b
      ((n.within (function n.surroundings arguments).2).react definition around
        (function n.surroundings arguments).1)
      ((m.within (function m.surroundings arguments).2).react definition around
        (function m.surroundings arguments).1) := by
  have same := sees n.surroundings b.scopes arguments layered.scopes
  have surroundings :
      m.surroundings = { n.surroundings with env := n.surroundings.env.on b.scopes } := by
    unfold Machine.surroundings
    rw [h.env, h.output, h.stop, h.quiet]
  rw [surroundings, same]
  have scopes := harmless.scopes n.surroundings arguments
  have stop := harmless.stop n.surroundings arguments
  have calm := harmless.cooperative.calm n.surroundings arguments
  generalize function n.surroundings arguments = answer at scopes stop calm
  obtain ⟨reaction, s⟩ := answer
  have bears : Bears b (n.within s) (m.within { s with env := s.env.on b.scopes }) := by
    refine ⟨h.plans, h.limit, stop.trans h.quiet, stop.trans h.quiet, ?_⟩
    show Config.mk _ m.config.frames m.config.depth m.config.suspended = _
    rw [h.config]
    rfl
  have layered' : (n.within s).Layered := by
    unfold Layered at layered ⊢
    rw [show (n.within s).env.scopes.length = n.env.scopes.length from scopes]
    exact layered
  cases reaction with
  | returned value => exact returned_native bears layered' definition value around
  | failed error => exact fail bears error
  | panicked message => exact absurd rfl (calm message)
  | waiting wait value => exact .inside (bears.doing _ _) rfl layered'

theorem call (h : Bears b n m) (layered : n.Layered) {callee : Callee}
    (calls : ∀ definition function, callee = .native definition function →
      function.Local ∧ function.Harmless) (arguments : List Value) (around : Evaluation) :
    Follows b (n.call arguments around callee) (m.call arguments around callee) := by
  cases callee with
  | native definition function =>
    rw [call_native, call_native]
    obtain ⟨sees, harmless⟩ := calls definition function rfl
    exact react h layered sees harmless definition arguments around
  | procedure definition body parameters =>
    rw [call_procedure, call_procedure]
    refine enter h.plans h.limit h.depth h.quiet h.stop h.globals h.output (fun plan scope => ?_)
      (fun plan => ?_) body parameters arguments
    · rw [h.config, Machine.waiting, h.length_frames]
      split <;> rfl
    · split
      · exact .value rfl rfl layered
      · exact .statement rfl layered

end Follows

/-- **A machine with frames below goes step by step with one that has none,** until that one has
left its last frame. -/
theorem Follows.move (h : Follows b n m) (low : b.Low) (inner : n.frames ≠ [])
    (calls : ∀ definition function arguments around,
      n.activity = .calling (.native definition function) arguments around →
        function.Local ∧ function.Harmless) : Follows b n.move m.move := by
  cases h with
  | returned n' m' value bears frames scopes suspended is is' =>
    refine absurd ?_ inner
    rw [is, handOver_gone frames suspended]
    rfl
  | failed n' m' failure failure' is is' error output globals =>
    refine absurd ?_ inner
    rw [is]
    rfl
  | inside bears same settled =>
    unfold Settled at settled
    cases activity : n.activity with
    | idle => rw [activity] at settled; exact settled.elim
    | scheduling =>
      rw [activity] at settled same
      rw [move_scheduling activity, move_scheduling same]
      exact dispatch bears low settled inner
    | evaluating e around =>
      rw [activity] at settled same
      cases e with
      | literal value =>
        rw [move_literal activity, move_literal same]
        exact .inside (bears.doing _ _) rfl settled
      | native definition function arguments =>
        rw [move_native activity, move_native same]
        exact gather bears settled _ _ _ _ _
      | call definition body parameters arguments =>
        rw [move_call activity, move_call same]
        exact gather bears settled _ _ _ _ _
    | delivering value around =>
      rw [activity] at settled same
      obtain ⟨purpose, calls⟩ := around
      cases calls with
      | nil =>
        rw [move_conclude activity, move_conclude same]
        exact conclude bears low settled value purpose
      | cons c outer =>
        rw [move_deliver activity, move_deliver same]
        exact gather bears settled _ _ _ _ _
    | calling callee arguments around =>
      rw [activity] at settled same
      rw [move_calling activity, move_calling same]
      refine call bears settled ?_ arguments around
      rintro definition function rfl
      exact calls _ _ _ _ activity
    | waiting wait definition value around =>
      rw [activity] at settled same
      rw [move_waiting activity, move_waiting same]
      exact returned_native bears settled definition value around
    | ended outcome => rw [activity] at settled; exact settled.elim
    | panicked message => rw [activity] at settled; exact settled.elim

/-! ## What can be seen of both machines -/

/-- As long as a machine has frames, the other has more than what lies below. -/
theorem Follows.taller (h : Follows b n m) (inner : n.frames ≠ []) :
    b.frames.length < m.frames.length := by
  cases h with
  | inside bears _ _ =>
    rw [bears.length_frames]
    exact Nat.lt_add_of_pos_left (List.length_pos_iff.mpr inner)
  | returned n' m' value bears frames scopes suspended is is' =>
    refine absurd ?_ inner
    rw [is, handOver_gone frames suspended]
    rfl
  | failed n' m' failure failure' is is' error output globals =>
    refine absurd ?_ inner
    rw [is]
    rfl

/-- A machine that has left its last frame looks what to do next. -/
theorem Settled.gone (h : n.Settled) (gone : n.frames = []) :
    n.activity = .scheduling ∧ n.env.scopes = [] ∧ n.suspended = [] := by
  have none (layered : n.Layered) : False := Layers.ne_nil layered gone
  unfold Settled at h
  split at h
  · next activity =>
    rcases Cleared.split h with ⟨-, scopes, suspended⟩ | layers | ⟨_, _, _, _, layers⟩
    · exact ⟨activity, List.eq_nil_of_length_eq_zero scopes, suspended⟩
    · exact absurd gone layers.ne_nil
    · exact absurd gone layers.ne_nil
  · exact (none h).elim
  · exact (none h).elim
  · exact (none h).elim
  · exact (none h).elim
  · exact h.elim
  · exact h.elim
  · exact h.elim

/-- What is left is what lies below. -/
theorem Bears.below (h : Bears b n m) (frames : n.frames = []) (scopes : n.env.scopes = [])
    (suspended : n.suspended = []) :
    m.frames = b.frames ∧ m.env.scopes = b.scopes ∧ m.suspended = b.suspended := by
  refine ⟨?_, ?_, ?_⟩
  · rw [h.frames, frames, List.nil_append]
  · rw [h.scopes, scopes, List.nil_append]
  · rw [h.suspended, suspended, List.map_nil, List.nil_append]

end

end Machine

end Blockwork
