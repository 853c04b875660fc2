import Blockwork.Proofs.Reuse
import Blockwork.Proofs.Shifts

/-!
# Evaluations leave the frames as they are

An expression may call procedures for their values, and these may call others. When it has its value
the frames are what they were, and so are the scopes around the innermost one. A chain or procedure
that is run leaves the frames that lie below it as they are, whichever way it is left.

## Main statements

* `Machine.Above.move`: what lies below a procedure stays until the procedure is left.
* `Machine.Underway.move`: an expression is worked on, or a procedure is run for a part of it.
* `Machine.RunsTo.hands_over`: what becomes of the value of a procedure.
* `Program.evaluation_neutral`: an evaluation changes no frame, and what is run changes none that
  lies below it.

A move looks only at the innermost frames, so what must be shown is that it never leaves more of
them than it should. A return leaves those down to the innermost procedure. That this is the one
which an evaluation waits for, or one on top of it, is known from the number of frames that the
evaluation waits on.
-/

namespace Blockwork

/-! ## Chains and procedures among the frames -/

/-- A chain or a procedure lies directly on the given frames. -/
def LiesAbove (below frames : List Frame) : Prop :=
  ∃ upper f, frames = upper ++ f :: below ∧ f.kind.isBoundary

/-- The innermost chain or procedure does. -/
def InnermostAbove (below frames : List Frame) : Prop :=
  ∃ inner f, frames = inner ++ f :: below ∧ (∀ g ∈ inner, g.kind.isBoundary = false) ∧
    f.kind.isBoundary

section

variable {below frames frames' : List Frame}

theorem InnermostAbove.liesAbove (h : InnermostAbove below frames) : LiesAbove below frames := by
  obtain ⟨inner, f, is, -, boundary⟩ := h
  exact ⟨inner, f, is, boundary⟩

theorem LiesAbove.length_lt (h : LiesAbove below frames) : below.length < frames.length := by
  obtain ⟨upper, f, rfl, -⟩ := h
  rw [List.length_append, List.length_cons]
  omega

theorem LiesAbove.suffix (h : LiesAbove below frames) : below <:+ frames := by
  obtain ⟨upper, f, rfl, -⟩ := h
  exact (List.suffix_cons f below).trans (List.suffix_append _ _)

/-- The frames below stay if only the innermost frame is worked on. -/
theorem LiesAbove.laidOn (h : LiesAbove below frames) (laid : LaidOn frames frames') :
    LiesAbove below frames' := by
  obtain ⟨upper, f, rfl, boundary⟩ := h
  have under : below <:+ frames'.tail := by
    refine List.IsSuffix.trans ?_ laid.below
    cases upper with
    | nil => exact List.suffix_rfl
    | cons g upper => exact (List.suffix_cons f below).trans (List.suffix_append _ _)
  have marked : true :: below.map (·.kind.isBoundary) <:+ frames'.map (·.kind.isBoundary) := by
    refine List.IsSuffix.trans ?_ laid.boundaries
    rw [List.map_append, List.map_cons, boundary]
    exact List.suffix_append _ _
  cases frames' with
  | nil => cases List.suffix_nil.mp marked
  | cons g rest =>
    obtain ⟨left, rfl⟩ := under
    -- the frame directly on those below is the one that is marked
    obtain ⟨upper', f', split⟩ : ∃ upper' f', g :: left = upper' ++ [f'] :=
      ⟨_, _, (List.dropLast_concat_getLast (List.cons_ne_nil g left)).symm⟩
    have whole : g :: (left ++ below) = upper' ++ f' :: below := by
      rw [← List.cons_append, split, List.append_assoc]
      rfl
    refine ⟨upper', f', whole, ?_⟩
    rw [whole, List.map_append] at marked
    have among := List.suffix_of_suffix_length_le marked (List.suffix_append _ _) (by simp)
    exact (List.cons.inj (among.eq_of_length (by simp))).1.symm

/-- The innermost chain or procedure is this one, or it lies on it. -/
theorem LiesAbove.innermost (h : LiesAbove below frames) :
    InnermostAbove below frames ∨ ∃ other, InnermostAbove other frames ∧ LiesAbove below other := by
  obtain ⟨upper, f, rfl, boundary⟩ := h
  induction upper with
  | nil => exact .inl ⟨[], f, rfl, nofun, boundary⟩
  | cons g upper ih =>
    cases kind : g.kind.isBoundary with
    | true => exact .inr ⟨_, ⟨[], g, rfl, nofun, kind⟩, upper, f, rfl, boundary⟩
    | false =>
      have deeper {other : List Frame} (inner : InnermostAbove other (upper ++ f :: below)) :
          InnermostAbove other (g :: (upper ++ f :: below)) := by
        obtain ⟨inner, f', split, bodies, boundary'⟩ := inner
        refine ⟨g :: inner, f', congrArg (g :: ·) split, fun g' among => ?_, boundary'⟩
        rcases List.mem_cons.mp among with rfl | among
        · exact kind
        · exact bodies g' among
      rcases ih with inner | ⟨other, inner, above⟩
      · exact .inl (deeper inner)
      · exact .inr ⟨other, deeper inner, above⟩

/-- A return leaves the innermost chain or procedure, and what lies on it. -/
theorem InnermostAbove.leave {m : Machine} (h : InnermostAbove below m.frames) :
    (m.leave m.frames).frames = below := by
  obtain ⟨inner, f, is, bodies, boundary⟩ := h
  have left := congrArg Config.frames (Machine.config_leave bodies boundary is)
  rw [← is] at left
  exact left.trans Config.frames_leave

end

namespace Machine

/-! ## Machines that are in order -/

/-- A machine of a run is in order, and the native functions that it may call keep to the innermost
scope. -/
structure Steady (p : Program) (natives : NativeTable) (m : Machine) : Prop where
  framed : m.Framed p.shapes
  plans : m.plans = p.plans natives
  calls : m.All (fun f _ => f.KeepsOuter) (fun _ => True) fun _ => True

section

variable {p : Program} {natives : NativeTable} {m n : Machine}

theorem Steady.keeps (h : m.Steady p natives) (definition : String) (function : Native)
    (arguments : List Value) (around : Evaluation)
    (calls : m.activity = .calling (.native definition function) arguments around) :
    function.KeepsOuter := by
  have is := h.calls.activity
  rw [calls] at is
  exact is.1

theorem Steady.shifts (h : m.Steady p natives) : Shifts m m.move :=
  shifts_move h.framed.order h.keeps

theorem Steady.move (h : m.Steady p natives) : m.move.Steady p natives := by
  refine ⟨⟨h.framed.tidy.move fun _ _ _ _ calls => (h.keeps _ _ _ _ calls).count, ?_⟩,
    (plans_move m).1.trans h.plans, h.calls.move (covers_all _)⟩
  exact h.framed.order.move (p.planned h.plans)

theorem Steady.requestStop (h : m.Steady p natives) : m.requestStop.Steady p natives :=
  ⟨⟨⟨h.framed.tidy.scopes, h.framed.tidy.gauge, h.framed.tidy.limit⟩, h.framed.order⟩, h.plans,
    h.calls.requestStop⟩

theorem Steady.reaches (h : m.Steady p natives) (reaches : Reaches m n) : n.Steady p natives :=
  reaches.keeps h (fun _ => Steady.move) fun _ => Steady.requestStop

/-- A machine that holds nothing starts in order. -/
theorem steady_start (keeps : ∀ name f, natives.get? name = some f → f.KeepsOuter)
    (holds : m.HoldsNothing) (plans : m.plans = p.plans natives) (chain : ChainId) :
    (m.start chain).Steady p natives := by
  let p' : Program := { p with globals := m.env.globals }
  have framed : ((ofProgram p' natives m.depthLimit m.output).start chain).Framed p'.shapes :=
    framed_of_reaches (fun name f known => (keeps name f known).count) .refl
  have table : ((ofProgram p' natives m.depthLimit m.output).start chain).All
      (fun f _ => f.KeepsOuter) (fun _ => True) fun _ => True := all_of_table keeps
  refine ⟨?_, (kept_start m chain).plans.trans plans, ?_⟩
  · rw [start_eq_aside holds plans]
    exact ⟨⟨framed.tidy.scopes, framed.tidy.gauge, framed.tidy.limit⟩, framed.order⟩
  · rw [start_eq_aside holds plans]
    exact table.narrow (.of_eq rfl rfl rfl) table.activity

theorem evaluating_self {e : Expr} {around : Evaluation}
    (evaluates : m.activity = .evaluating e around) :
    ({ m with activity := .evaluating e around } : Machine) = m := by
  rw [← evaluates]

/-- Where an expression is evaluated, another one might be. -/
theorem Steady.evaluating (h : m.Steady p natives) {e₀ e : Expr} {around : Evaluation}
    (evaluates : m.activity = .evaluating e₀ around)
    (keeps : e.All (fun f _ => f.KeepsOuter) fun _ => True) :
    ({ m with activity := .evaluating e around } : Machine).Steady p natives := by
  have order := h.framed.order
  have calls := h.calls.activity
  unfold InOrder at order
  rw [evaluates] at order calls
  exact ⟨⟨h.framed.tidy.activity _, order⟩, h.plans, h.calls.do _ ⟨keeps, calls.2⟩⟩

/-- More frames are more scopes. -/
theorem Steady.depth_le (h : m.Steady p natives) (h' : n.Steady p natives)
    (frames : m.frames <:+ n.frames) : m.depth ≤ n.depth := by
  rw [← h.framed.nested.procedures, ← h'.framed.nested.procedures]
  exact frames.sublist.countP_le

theorem isOver_of_move (on : m.move.isOver = false) : m.isOver = false := by
  cases halted : m.isOver with
  | false => rfl
  | true =>
    rw [move_of_isOver halted, halted] at on
    cases on

/-- The scopes around the innermost one stay while the frames do. -/
theorem Steady.outer_move (h : m.Steady p natives) (h' : n.Steady p natives)
    (on : n.move.isOver = false) (frames : m.frames <:+ n.move.frames)
    (outer : m.env.scopes.tail <:+ n.env.scopes.tail) :
    m.env.scopes.tail <:+ n.move.env.scopes.tail := by
  have nested : ScopesNest n n.move := by
    cases h'.shifts with
    | ends halts =>
      rw [on] at halts
      cases halts
    | works _ _ scopes | pops _ _ _ scopes | suspends _ _ _ _ scopes | leaves _ _ _ scopes
    | resumes _ _ _ _ scopes => exact scopes
  rcases nested with more | fewer
  · exact outer.trans more
  · refine List.suffix_of_suffix_length_le outer fewer ?_
    rw [List.length_tail, List.length_tail, h.framed.tidy.scopes, h'.move.framed.tidy.scopes]
    exact Nat.sub_le_sub_right (h.depth_le h'.move frames) 1

/-- No evaluation waits on more frames than there are. -/
theorem floor_le_of_left {S : ChainId → List Shape} (h : Left S m.frames m.depth m.suspended)
    (s : Suspension) (among : s ∈ m.suspended) : s.floor ≤ m.frames.length := by
  rcases h.split with ⟨-, -, none⟩ | stack | ⟨s', outer, waits, floor, stack⟩
  · rw [none] at among
    cases among
  · exact Nat.le_of_lt (Stands.covered stack s among)
  · rw [waits] at among
    rcases List.mem_cons.mp among with rfl | among
    · exact Nat.le_of_eq floor
    · exact Nat.le_of_lt (Stands.covered (m := { m with suspended := outer }) stack s among)

theorem InOrder.floor_le {S : ChainId → List Shape} (h : m.InOrder S) (on : m.isOver = false)
    (s : Suspension) (among : s ∈ m.suspended) : s.floor ≤ m.frames.length := by
  unfold InOrder at h
  cases activity : m.activity with
  | idle =>
    rw [activity] at h
    exact h.elim
  | scheduling =>
    rw [activity] at h
    exact floor_le_of_left h s among
  | evaluating e around | delivering value around | calling callee arguments around
  | waiting wait definition value around =>
    rw [activity] at h
    exact Nat.le_of_lt (Stands.covered h s among)
  | ended outcome =>
    rw [isOver, activity] at on
    cases on
  | panicked message =>
    rw [isOver, activity] at on
    cases on

end

/-! ## What lies below a procedure -/

/-- A chain or procedure is run that lies on the given frames, with the given evaluations waiting
since before. -/
structure Above (below : List Frame) (waiting : List Suspension) (n : Machine) : Prop where
  frames : LiesAbove below n.frames
  suspended : ∃ later, n.suspended = later ++ waiting ∧ ∀ s ∈ later, below.length < s.floor
  floor : floorOf waiting ≤ below.length

/-- It has been run to its end. -/
structure RanOut (below : List Frame) (waiting : List Suspension) (n : Machine) : Prop where
  activity : n.activity = .scheduling
  suspended : n.suspended = waiting
  frames : n.frames = below

/-- It gives back a value. -/
structure GivesBack (below : List Frame) (waiting : List Suspension) (value : Value)
    (n : Machine) : Prop where
  activity : n.activity = .delivering value ⟨.giveBack, []⟩
  suspended : n.suspended = waiting
  frames : InnermostAbove below n.frames

section

variable {S : ChainId → List Shape} {n k : Machine} {below : List Frame}
  {waiting later : List Suspension} {value : Value}

/-- No evaluation has been suspended since if only the frames below are left. -/
theorem nil_of_settled (fits : ∀ s ∈ later ++ waiting, s.floor ≤ below.length)
    (high : ∀ s ∈ later, below.length < s.floor) : later = [] := by
  cases later with
  | nil => rfl
  | cons s later =>
    have low := fits s List.mem_cons_self
    exact absurd (high s List.mem_cons_self) (Nat.not_lt.mpr low)

/-- A frame that has been run to its end is on top of the others, or it is the last one. -/
theorem Above.pops (h : n.Above below waiting)
    (fits : ∀ s ∈ k.suspended, s.floor ≤ k.frames.length) (suspended : k.suspended = n.suspended)
    (frames : k.frames = n.frames.tail) (activity : k.activity = .scheduling) :
    k.Above below waiting ∨ k.RanOut below waiting := by
  obtain ⟨later, eq, high⟩ := h.suspended
  obtain ⟨upper, f, is, boundary⟩ := h.frames
  have same := suspended.trans eq
  rw [is] at frames
  cases upper with
  | nil =>
    rw [same, frames] at fits
    obtain rfl := nil_of_settled fits high
    exact .inr ⟨activity, same, frames⟩
  | cons g upper => exact .inl ⟨⟨upper, f, frames, boundary⟩, ⟨later, same, high⟩, h.floor⟩

/-- A return belongs to a procedure on top of the others, or to the lowest one. -/
theorem Above.leaves (h : n.Above below waiting)
    (fits : ∀ s ∈ k.suspended, s.floor ≤ k.frames.length)
    (returns : n.activity = .delivering value ⟨.giveBack, []⟩)
    (suspended : k.suspended = n.suspended) (frames : k.frames = (n.leave n.frames).frames) :
    k.Above below waiting ∨ n.GivesBack below waiting value := by
  obtain ⟨later, eq, high⟩ := h.suspended
  have same := suspended.trans eq
  rcases h.frames.innermost with inner | ⟨other, inner, above⟩
  · rw [same, frames, inner.leave] at fits
    obtain rfl := nil_of_settled fits high
    exact .inr ⟨returns, eq, inner⟩
  · exact .inl ⟨frames.trans inner.leave ▸ above, ⟨later, same, high⟩, h.floor⟩

/-- So it does if an evaluation waits for the value. -/
theorem Above.resumes (h : n.Above below waiting)
    (returns : n.activity = .delivering value ⟨.giveBack, []⟩) {s : Suspension}
    (suspended : n.suspended = s :: k.suspended) (floor : s.floor = k.frames.length)
    (frames : k.frames = (n.leave n.frames).frames) :
    k.Above below waiting ∨ n.GivesBack below waiting value := by
  obtain ⟨later, eq, high⟩ := h.suspended
  rw [eq] at suspended
  rcases h.frames.innermost with inner | ⟨other, inner, above⟩
  · cases later with
    | nil => exact .inr ⟨returns, eq, inner⟩
    | cons s' later =>
      obtain ⟨rfl, -⟩ := List.cons.inj suspended
      have low := high s' List.mem_cons_self
      rw [floor, frames, inner.leave] at low
      exact absurd low (Nat.lt_irrefl _)
  · have tall : LiesAbove below k.frames := frames.trans inner.leave ▸ above
    cases later with
    | nil =>
      have low := h.floor
      rw [show waiting = s :: k.suspended from suspended] at low
      exact absurd tall.length_lt (Nat.not_lt.mpr (floor ▸ low))
    | cons s' later =>
      have high' (s : Suspension) (among : s ∈ later) : below.length < s.floor :=
        high s (List.mem_cons_of_mem _ among)
      exact .inl ⟨tall, ⟨later, (List.cons.inj suspended).2.symm, high'⟩, h.floor⟩

/-- **What lies below a procedure stays until the procedure is left,** at its end or by a return. -/
theorem Above.move (h : n.Above below waiting) (next : n.move.InOrder S)
    (shifts : Shifts n n.move) :
    n.move.isOver ∨ n.move.Above below waiting ∨ n.move.RanOut below waiting ∨
      ∃ value, n.GivesBack below waiting value := by
  cases on : n.move.isOver with
  | true => exact .inl rfl
  | false =>
    refine .inr ?_
    have fits := next.floor_le on
    obtain ⟨later, eq, high⟩ := h.suspended
    cases shifts with
    | ends halts =>
      rw [on] at halts
      cases halts
    | works suspended frames _ =>
      exact .inl ⟨h.frames.laidOn frames, ⟨later, suspended.trans eq, high⟩, h.floor⟩
    | @suspends s _ floor suspended frames _ =>
      refine .inl ⟨h.frames.laidOn frames, ⟨s :: later, ?_, fun s' among => ?_⟩, h.floor⟩
      · rw [suspended, eq]
        rfl
      · rcases List.mem_cons.mp among with rfl | among
        · exact floor ▸ h.frames.length_lt
        · exact high s' among
    | pops suspended frames activity _ =>
      exact (h.pops fits suspended frames activity).imp_right .inl
    | leaves returns suspended frames _ =>
      exact (h.leaves fits returns suspended frames).imp_right fun back => .inr ⟨_, back⟩
    | resumes returns suspended floor frames _ =>
      exact (h.resumes returns suspended floor frames).imp_right fun back => .inr ⟨_, back⟩

/-- An evaluation that waits for a value gets it, with the frames that it had. -/
theorem GivesBack.resumes {s : Suspension} {outer : List Suspension}
    (h : n.GivesBack below (s :: outer) value) (floor : s.floor = below.length) :
    n.move.activity = .delivering value s.evaluation ∧ n.move.suspended = outer ∧
      n.move.frames = below := by
  have left := h.frames.leave
  have suspended : (n.leave n.frames).suspended = s :: outer := suspended_leave.trans h.suspended
  rw [move_conclude h.activity]
  show (n.giveBack value).activity = _ ∧ (n.giveBack value).suspended = _ ∧
    (n.giveBack value).frames = _
  rw [giveBack_eq, handOver_waiting suspended (floor.trans (congrArg List.length left).symm)]
  exact ⟨rfl, rfl, left⟩

/-- It fails if there is no value. -/
theorem RanOut.missing {s : Suspension} {outer : List Suspension}
    (h : n.RanOut below (s :: outer)) (floor : s.floor = below.length) :
    n.move = n.fail (.missingReturn s.procedure) := by
  rw [move_scheduling h.activity]
  exact dispatch_missing h.suspended (floor.trans (congrArg List.length h.frames).symm)

end

/-! ## Parts of an expression -/

/-- The other machine works on a part of the expression that is evaluated here. -/
structure Pending (m : Machine) (around : Evaluation) (n : Machine) : Prop where
  frames : n.frames = m.frames
  suspended : n.suspended = m.suspended
  works : ∃ calls, n.activity.around? = some ⟨around.purpose, calls ++ around.calls⟩

/-- A part of the expression waits for a procedure. -/
structure Awaits (m : Machine) (around : Evaluation) (s : Suspension) : Prop where
  part : ∃ calls, s.evaluation = ⟨around.purpose, calls ++ around.calls⟩
  floor : s.floor = m.frames.length

/-- How far an expression has been evaluated that has no value yet, or has just got it. -/
inductive Underway (m : Machine) (around : Evaluation) (n : Machine) : Prop where
  | ended (halts : n.isOver)
  | here (pending : m.Pending around n)
  | away {s : Suspension} (awaits : m.Awaits around s)
      (above : n.Above m.frames (s :: m.suspended))
  /-- The procedure has given back no value. -/
  | missing {s : Suspension} (awaits : m.Awaits around s)
      (ran : n.RanOut m.frames (s :: m.suspended))

section

variable {p : Program} {natives : NativeTable} {m n : Machine} {around : Evaluation}
  {calls : List PendingCall}

theorem wantsValue_append (wanted : around.wantsValue) (calls : List PendingCall) :
    (Evaluation.mk around.purpose (calls ++ around.calls)).wantsValue := by
  cases calls with
  | nil => exact wanted
  | cons c calls => cases around.purpose <;> rfl

theorem Pending.gather (h : m.Pending around n) (callee : Callee) (values : List Value)
    (arguments : List Expr) :
    m.Pending around (n.gather callee values around.purpose (calls ++ around.calls) arguments) := by
  cases arguments with
  | nil => exact ⟨h.frames, h.suspended, calls, rfl⟩
  | cons e rest => exact ⟨h.frames, h.suspended, ⟨callee, values, rest⟩ :: calls, rfl⟩

/-- Where a value is wanted, there must be one. -/
theorem underway_returned (wanted : around.wantsValue) (frames : n.frames = m.frames)
    (suspended : n.suspended = m.suspended) (definition : String) (result : Option Value) :
    m.Underway around (n.returned definition result ⟨around.purpose, calls ++ around.calls⟩) := by
  cases result with
  | some value => exact .here ⟨frames, suspended, calls, rfl⟩
  | none =>
    rw [returned_none, if_pos (wantsValue_append wanted calls)]
    exact .ended rfl

/-- What is called for its value is laid on the frames. -/
theorem Pending.enterProcedure (h : m.Pending around n) (definition : String) (body : ChainId)
    (parameters : List String) (arguments : List Value) :
    m.Underway around (n.enterProcedure definition body parameters arguments
      (some ⟨around.purpose, calls ++ around.calls⟩)) := by
  rcases ends_or_entered definition body parameters arguments
    (some ⟨around.purpose, calls ++ around.calls⟩) with halts | ⟨f, entered⟩
  · exact .ended halts
  · have floor : n.frames.length = m.frames.length := congrArg List.length h.frames
    refine .away (s := ⟨definition, n.frames.length, _⟩) ⟨⟨calls, rfl⟩, floor⟩ ⟨?_, ?_, ?_⟩
    · refine ⟨[], f, entered.frames.trans (congrArg (f :: ·) h.frames), ?_⟩
      rw [entered.procedure]
      rfl
    · exact ⟨[], entered.suspended.trans (congrArg (_ :: ·) h.suspended), nofun⟩
    · exact Nat.le_of_eq floor

theorem Pending.move (h : m.Pending around n) (wanted : around.wantsValue)
    (pending : ∀ value, n.activity ≠ .delivering value around) : m.Underway around n.move := by
  obtain ⟨calls, works⟩ := h.works
  cases activity : n.activity with
  | evaluating e inner =>
    rw [activity] at works
    cases works
    cases e with
    | literal value =>
      rw [move_literal activity]
      exact .here ⟨h.frames, h.suspended, calls, rfl⟩
    | native definition function arguments =>
      rw [move_native activity]
      exact .here (h.gather _ _ _)
    | call definition body parameters arguments =>
      rw [move_call activity]
      exact .here (h.gather _ _ _)
  | delivering value inner =>
    rw [activity] at works
    cases works
    cases calls with
    | nil => exact absurd activity (pending value)
    | cons c calls =>
      rw [move_deliver activity]
      exact .here (h.gather _ _ _)
  | calling callee arguments inner =>
    rw [activity] at works
    cases works
    rw [move_calling activity]
    cases callee with
    | native definition function =>
      rw [call_native]
      cases (function n.surroundings arguments).1 with
      | returned value => exact underway_returned (n := n.within _) wanted h.frames h.suspended _ _
      | failed error => exact .ended rfl
      | panicked message => exact .ended rfl
      | waiting wait value => exact .here ⟨h.frames, h.suspended, calls, rfl⟩
    | procedure definition body parameters =>
      rw [call_procedure, if_pos (wantsValue_append wanted calls)]
      exact h.enterProcedure _ _ _ _
  | waiting wait definition value inner =>
    rw [activity] at works
    cases works
    rw [move_waiting activity]
    exact underway_returned wanted h.frames h.suspended _ _
  | idle | scheduling | ended _ | panicked _ =>
    rw [activity] at works
    cases works

/-- **An expression is worked on, or a procedure is run for a part of it,** until it has its
value. -/
theorem Underway.move (h : m.Underway around n) (steady : n.Steady p natives)
    (wanted : around.wantsValue)
    (pending : n.suspended.length = m.suspended.length →
      ∀ value, n.activity ≠ .delivering value around) : m.Underway around n.move := by
  cases h with
  | ended halts => exact .ended (by rwa [move_of_isOver halts])
  | here here => exact here.move wanted (pending (congrArg List.length here.suspended))
  | @away s awaits above =>
    rcases above.move steady.move.framed.order steady.shifts with
      halts | above | ran | ⟨value, back⟩
    · exact .ended halts
    · exact .away awaits above
    · exact .missing awaits ran
    · obtain ⟨activity, suspended, frames⟩ := back.resumes awaits.floor
      obtain ⟨calls, part⟩ := awaits.part
      exact .here ⟨frames, suspended, calls, by rw [activity, part]; rfl⟩
  | missing awaits ran =>
    rw [ran.missing awaits.floor]
    exact .ended rfl

theorem Underway.requestStop (h : m.Underway around n) : m.Underway around n.requestStop := by
  cases h with
  | ended halts => exact .ended halts
  | here here => exact .here ⟨here.frames, here.suspended, here.works⟩
  | away awaits above => exact .away awaits ⟨above.frames, above.suspended, above.floor⟩
  | missing awaits ran => exact .missing awaits ⟨ran.activity, ran.suspended, ran.frames⟩

theorem Underway.suffix (h : m.Underway around n) (on : n.isOver = false) :
    m.frames <:+ n.frames := by
  cases h with
  | ended halts =>
    rw [on] at halts
    cases halts
  | here here => exact here.frames ▸ List.suffix_rfl
  | away awaits above => exact above.frames.suffix
  | missing awaits ran => exact ran.frames ▸ List.suffix_rfl

/-- When it has its value, all that was waited for has been left. -/
theorem Underway.pending {value : Value} (h : m.Underway around n)
    (delivers : n.activity = .delivering value around)
    (level : n.suspended.length = m.suspended.length) : m.Pending around n := by
  cases h with
  | ended halts =>
    rw [isOver, delivers] at halts
    cases halts
  | here here => exact here
  | away awaits above =>
    obtain ⟨later, eq, -⟩ := above.suspended
    rw [eq, List.length_append, List.length_cons] at level
    omega
  | missing awaits ran => cases delivers.symm.trans ran.activity

end

/-! ## Ways through a run -/

/-- A machine goes from one state to another by way of those in between, the earliest first. -/
inductive Route (m : Machine) : List Machine → Machine → Prop where
  | here : Route m [] m
  | work {passed : List Machine} {n : Machine} (h : Route m passed n) :
      Route m (passed ++ [n]) n.move
  | stop {passed : List Machine} {n : Machine} (h : Route m passed n) :
      Route m (passed ++ [n]) n.requestStop

/-- The expression that is evaluated around something has its value for the first time: it is handed
over with as many evaluations waiting as there were. -/
structure Evaluates (m : Machine) (around : Evaluation) (passed : List Machine) (value : Value)
    (n : Machine) : Prop where
  route : m.Route passed n
  delivers : n.activity = .delivering value around
  level : n.suspended.length = m.suspended.length
  first : ∀ k ∈ passed, k.suspended.length = m.suspended.length →
    ∀ value, k.activity ≠ .delivering value around

/-- Neither the frames nor the scopes are others, but for what is in the innermost scope. -/
structure Unmoved (m n : Machine) : Prop where
  frames : n.frames = m.frames
  depth : n.depth = m.depth
  scopes : n.env.scopes.length = m.env.scopes.length
  outer : n.env.scopes.tail = m.env.scopes.tail
  suspended : n.suspended = m.suspended

/-- No more than so many frames are left when it is looked what to do next, or when a return has
left its procedure. There may be a value, and there are the frames that are left. -/
inductive Finishes (m : Machine) (floor : Nat) (n : Machine) :
    Option Value → List Frame → Prop where
  | ran (activity : n.activity = .scheduling) (level : n.suspended.length = m.suspended.length)
      (low : n.frames.length ≤ floor) : Finishes m floor n none n.frames
  | returned {value : Value} (activity : n.activity = .delivering value ⟨.giveBack, []⟩)
      (level : n.suspended.length = m.suspended.length)
      (low : (n.leave n.frames).frames.length ≤ floor) :
      Finishes m floor n (some value) (n.leave n.frames).frames

/-- The frames are run until no more than so many are left, for the first time. -/
structure RunsTo (m : Machine) (floor : Nat) (passed : List Machine) (n : Machine)
    (result : Option Value) (left : List Frame) : Prop where
  route : m.Route passed n
  finishes : m.Finishes floor n result left
  first : ∀ k ∈ passed, ∀ result left, ¬ m.Finishes floor k result left

/-- A return gives back a value. The innermost chain or procedure, which it belongs to, lies on so
many frames. -/
structure ReturnsFrom (n : Machine) (floor : Nat) (value : Value) : Prop where
  activity : n.activity = .delivering value ⟨.giveBack, []⟩
  frame : ∃ below, InnermostAbove below n.frames ∧ below.length = floor

section

variable {p : Program} {natives : NativeTable} {m n k : Machine} {passed : List Machine}
  {around : Evaluation} {value : Value} {below left : List Frame} {result : Option Value}

theorem Route.reaches (h : m.Route passed n) : Reaches m n := by
  induction h with
  | here => exact .refl
  | work _ ih => exact .work ih
  | stop _ ih => exact .stop ih

theorem route_iterate (m : Machine) (k : Nat) :
    m.Route ((List.range k).map fun i => move^[i] m) (move^[k] m) := by
  induction k with
  | zero => exact .here
  | succ k ih =>
    rw [Function.iterate_succ_apply', List.range_succ, List.map_append]
    exact .work ih

/-- What is passed is reached by way of what was passed before. -/
theorem Route.exists_of_mem (h : m.Route passed n) (among : k ∈ passed) :
    ∃ earlier, m.Route earlier k ∧ earlier ⊆ passed := by
  have longer {passed : List Machine} {n : Machine} (h : m.Route passed n)
      (ih : k ∈ passed → ∃ earlier, m.Route earlier k ∧ earlier ⊆ passed)
      (among : k ∈ passed ++ [n]) : ∃ earlier, m.Route earlier k ∧ earlier ⊆ passed ++ [n] := by
    rcases List.mem_append.mp among with before | last
    · obtain ⟨earlier, route, subset⟩ := ih before
      exact ⟨earlier, route, List.subset_append_of_subset_left _ subset⟩
    · obtain rfl := List.mem_singleton.mp last
      exact ⟨passed, h, List.subset_append_left _ _⟩
  induction h with
  | here => cases among
  | work h ih => exact longer h ih among
  | stop h ih => exact longer h ih among

/-! ### Evaluations -/

/-- An expression that has no value yet is underway, and the scopes around the innermost one are
there. -/
theorem Route.underway (route : m.Route passed n) (steady : m.Steady p natives) {e : Expr}
    (evaluates : m.activity = .evaluating e around) (wanted : around.wantsValue)
    (first : ∀ k ∈ passed, k.suspended.length = m.suspended.length →
      ∀ value, k.activity ≠ .delivering value around) :
    m.Underway around n ∧ (n.isOver = false → m.env.scopes.tail <:+ n.env.scopes.tail) := by
  induction route with
  | here => exact ⟨.here ⟨rfl, rfl, [], by rw [evaluates]; rfl⟩, fun _ => List.suffix_rfl⟩
  | @work passed n route ih =>
    obtain ⟨underway, outer⟩ := ih fun k among => first k (List.mem_append_left _ among)
    have steady' : n.Steady p natives := steady.reaches route.reaches
    have next := underway.move steady' wanted
      (first n (List.mem_append_right _ List.mem_cons_self))
    refine ⟨next, fun on => ?_⟩
    exact steady.outer_move steady' on (next.suffix on) (outer (isOver_of_move on))
  | @stop passed n route ih =>
    obtain ⟨underway, outer⟩ := ih fun k among => first k (List.mem_append_left _ among)
    exact ⟨underway.requestStop, outer⟩

/-- **An evaluation changes no frame,** and no scope but the innermost. -/
theorem Evaluates.unmoved (h : m.Evaluates around passed value n) (steady : m.Steady p natives)
    {e : Expr} (evaluates : m.activity = .evaluating e around) (wanted : around.wantsValue) :
    m.Unmoved n := by
  obtain ⟨underway, outer⟩ := h.route.underway steady evaluates wanted h.first
  have steady' : n.Steady p natives := steady.reaches h.route.reaches
  have pending := underway.pending h.delivers h.level
  have depth : n.depth = m.depth := by
    rw [← steady.framed.nested.procedures, ← steady'.framed.nested.procedures, pending.frames]
  have scopes : n.env.scopes.length = m.env.scopes.length := by
    rw [steady.framed.tidy.scopes, steady'.framed.tidy.scopes, depth]
  have on : n.isOver = false := by rw [isOver, h.delivers]
  refine ⟨pending.frames, depth, scopes, ((outer on).eq_of_length ?_).symm, pending.suspended⟩
  rw [List.length_tail, List.length_tail, scopes]

/-! ### Frames that are run -/

theorem RanOut.finishes (h : n.RanOut below m.suspended) :
    m.Finishes below.length n none below := by
  have low : n.frames.length ≤ below.length := Nat.le_of_eq (congrArg List.length h.frames)
  have finishes : m.Finishes below.length n none n.frames :=
    .ran h.activity (congrArg List.length h.suspended) low
  rwa [h.frames] at finishes

theorem GivesBack.finishes (h : n.GivesBack below m.suspended value) :
    m.Finishes below.length n (some value) below := by
  have left := h.frames.leave
  have low : (n.leave n.frames).frames.length ≤ below.length :=
    Nat.le_of_eq (congrArg List.length left)
  have finishes : m.Finishes below.length n (some value) (n.leave n.frames).frames :=
    .returned h.activity (congrArg List.length h.suspended) low
  rwa [left] at finishes

/-- While a chain or procedure is run, it lies on the same frames. -/
theorem Route.above (route : m.Route passed n) (steady : m.Steady p natives)
    (above : m.Above below m.suspended)
    (first : ∀ k ∈ passed, ∀ result left, ¬ m.Finishes below.length k result left) :
    n.isOver ∨ n.Above below m.suspended ∨ n.RanOut below m.suspended := by
  induction route with
  | here => exact .inr (.inl above)
  | @work passed n route ih =>
    have unfinished := first n (List.mem_append_right _ List.mem_cons_self)
    rcases ih fun k among => first k (List.mem_append_left _ among) with halts | on | ran
    · exact .inl (by rwa [move_of_isOver halts])
    · have steady' : n.Steady p natives := steady.reaches route.reaches
      rcases on.move steady'.move.framed.order steady'.shifts with
        halts | on | ran | ⟨value, back⟩
      · exact .inl halts
      · exact .inr (.inl on)
      · exact .inr (.inr ran)
      · exact absurd back.finishes (unfinished _ _)
    · exact absurd ran.finishes (unfinished _ _)
  | @stop passed n route ih =>
    rcases ih fun k among => first k (List.mem_append_left _ among) with halts | on | ran
    · exact .inl halts
    · exact .inr (.inl ⟨on.frames, on.suspended, on.floor⟩)
    · exact .inr (.inr ⟨ran.activity, ran.suspended, ran.frames⟩)

/-- A return from what is run leaves nothing of it. -/
theorem ReturnsFrom.givesBack (h : n.ReturnsFrom below.length value) (steady : n.Steady p natives)
    (above : n.Above below m.suspended) : n.GivesBack below m.suspended value := by
  obtain ⟨other, inner, length⟩ := h.frame
  obtain rfl : other = below :=
    (List.suffix_of_suffix_length_le inner.liesAbove.suffix above.frames.suffix
      (Nat.le_of_eq length)).eq_of_length length
  refine ⟨h.activity, ?_, inner⟩
  obtain ⟨later, eq, high⟩ := above.suspended
  cases later with
  | nil => exact eq
  | cons s later =>
    -- the evaluation would wait on a frame that the return leaves
    have order := steady.framed.order
    unfold InOrder at order
    rw [h.activity] at order
    have low := floor_le_of_left (Stands.leave order rfl) s (by
      rw [suspended_leave, eq]
      exact List.mem_cons_self)
    rw [inner.leave] at low
    exact absurd (high s List.mem_cons_self) (Nat.not_lt.mpr low)

/-- What is run leaves exactly what lies below. It gives a value if it is left by a return, and none
if it is run to its end. -/
theorem Finishes.done (h : m.Finishes below.length n result left)
    (state : n.isOver ∨ n.Above below m.suspended ∨ n.RanOut below m.suspended) :
    left = below ∧ ((result = none ∧ n.RanOut below m.suspended) ∨
      ∃ value, result = some value ∧ n.GivesBack below m.suspended value) := by
  rcases state with halts | above | ran
  · cases h with
    | ran activity _ _ | returned activity _ _ =>
      rw [isOver, activity] at halts
      cases halts
  · cases h with
    | ran activity level low => exact absurd above.frames.length_lt (Nat.not_lt.mpr low)
    | @returned value activity level low =>
      rcases above.frames.innermost with inner | ⟨other, inner, tall⟩
      · obtain ⟨later, eq, -⟩ := above.suspended
        rw [eq, List.length_append, Nat.add_eq_right, List.length_eq_zero_iff] at level
        rw [level, List.nil_append] at eq
        exact ⟨inner.leave, .inr ⟨value, rfl, activity, eq, inner⟩⟩
      · rw [inner.leave] at low
        exact absurd tall.length_lt (Nat.not_lt.mpr low)
  · cases h with
    | ran activity level low => exact ⟨ran.frames, .inl ⟨rfl, ran⟩⟩
    | returned activity level low => cases activity.symm.trans ran.activity

/-- **What is run leaves exactly the frames below, and it gives a value if it is left by a return**
that belongs to it. -/
theorem RunsTo.leaves (h : m.RunsTo below.length passed n result left) (steady : m.Steady p natives)
    (above : m.Above below m.suspended) :
    left = below ∧ ∀ value, result = some value ↔
      ∃ k ∈ passed ++ [n], k.ReturnsFrom below.length value := by
  have state := h.route.above steady above h.first
  obtain ⟨same, how⟩ := h.finishes.done state
  refine ⟨same, fun value => ⟨?_, ?_⟩⟩
  · rintro rfl
    rcases how with ⟨⟨⟩, -⟩ | ⟨_, ⟨⟩, back⟩
    exact ⟨n, List.mem_append_right _ List.mem_cons_self, back.activity, below, back.frames, rfl⟩
  · rintro ⟨k, among, returns⟩
    have finished {k : Machine} (steady' : k.Steady p natives)
        (state : k.isOver ∨ k.Above below m.suspended ∨ k.RanOut below m.suspended)
        (returns : k.ReturnsFrom below.length value) : k.GivesBack below m.suspended value := by
      rcases state with halts | on | ran
      · rw [isOver, returns.activity] at halts
        cases halts
      · exact returns.givesBack steady' on
      · cases returns.activity.symm.trans ran.activity
    rcases List.mem_append.mp among with before | last
    · obtain ⟨earlier, route, subset⟩ := h.route.exists_of_mem before
      have back := finished (steady.reaches route.reaches)
        (route.above steady above fun k among => h.first k (subset among)) returns
      exact absurd back.finishes (h.first k before _ _)
    · obtain rfl := List.mem_singleton.mp last
      rcases how with ⟨-, ran⟩ | ⟨value', is, back⟩
      · cases returns.activity.symm.trans ran.activity
      · cases returns.activity.symm.trans back.activity
        exact is

/-- The value goes to the evaluation that waits for it. There must be one. -/
theorem RunsTo.hands_over (h : m.RunsTo below.length passed n result left)
    (steady : m.Steady p natives) (above : m.Above below m.suspended) {s : Suspension}
    {outer : List Suspension} (waits : m.suspended = s :: outer) (floor : s.floor = below.length) :
    (∀ value, result = some value → n.move.activity = .delivering value s.evaluation ∧
        n.move.suspended = outer ∧ n.move.frames = below) ∧
      (result = none → n.move = n.fail (.missingReturn s.procedure)) := by
  obtain ⟨-, how⟩ := h.finishes.done (h.route.above steady above h.first)
  rw [waits] at how
  rcases how with ⟨rfl, ran⟩ | ⟨value, rfl, back⟩
  · exact ⟨nofun, fun _ => ran.missing floor⟩
  · exact ⟨by rintro _ ⟨⟩; exact back.resumes floor, nofun⟩

end

end Machine

namespace Program

open Machine (Reaches)

/-- **An evaluation changes no frame, and a chain or procedure that is run changes none below it,**
in each run of a machine that held nothing, if native functions enter and leave no scopes. When an
expression, or any other in its place, has the value that is wanted of it, the frames are the same
in all that they are, and so are the depth of calls and the scopes, but for what is in the innermost
one. When the frames above a floor are run, the lowest of which is that of a chain or a procedure,
those that are left are the ones below the floor. There is a value if and only if a return has been
come to that belongs to that lowest frame. No evaluation waits on more frames than the floor: its
procedure would have to be left first. -/
theorem evaluation_neutral {p : Program} {natives : NativeTable}
    (keeps : ∀ name f, natives.get? name = some f → f.KeepsOuter) {m₀ : Machine}
    (holds : m₀.HoldsNothing) (plans : m₀.plans = p.plans natives) (chain : ChainId) {m : Machine}
    (reaches : Reaches (m₀.start chain) m) :
    (∀ e₀ around, m.activity = .evaluating e₀ around → around.wantsValue →
        e₀.All (fun f _ => f.KeepsOuter) (fun _ => True) ∧
        ∀ e : Expr, e.All (fun f _ => f.KeepsOuter) (fun _ => True) → ∀ passed value n,
          ({ m with activity := .evaluating e around } : Machine).Evaluates around passed value n →
            m.Unmoved n) ∧
      ∀ below passed n result left, LiesAbove below m.frames → m.floor ≤ below.length →
        m.RunsTo below.length passed n result left →
          left = below ∧ ∀ value, result = some value ↔
            ∃ k ∈ passed ++ [n], k.ReturnsFrom below.length value := by
  have steady : m.Steady p natives :=
    (Machine.steady_start keeps holds plans chain).reaches reaches
  refine ⟨fun e₀ around evaluates wanted => ⟨?_, fun e known passed value n h => ?_⟩,
    fun below passed n result left frames floor h => ?_⟩
  · have is := steady.calls.activity
    rw [evaluates] at is
    exact is.1
  · obtain ⟨frames, depth, scopes, outer, suspended⟩ :=
      h.unmoved (steady.evaluating evaluates known) rfl wanted
    exact ⟨frames, depth, scopes, outer, suspended⟩
  · exact h.leaves steady ⟨frames, ⟨[], rfl, nofun⟩, floor⟩

/-- A program whose branch depends on a procedure that returns from within a loop. -/
def asking : Program where
  definitions := .ofList (.procedure "ask" [] :: Builtins.directing)
  globals := .empty
  chains :=
    [⟨0, Chain.origin, [⟨"on_start", []⟩, ⟨"if", [.block "ask" []]⟩, ⟨"end", []⟩]⟩,
      ⟨1, Chain.origin, [⟨"define", [.definition (.procedure "ask" [])]⟩, ⟨"forever", []⟩,
        ⟨"return", [.literal (.boolean true)]⟩, ⟨"end", []⟩]⟩]

/-- Its run. The procedure is evaluated at the second move and entered at the fourth. -/
def asked (k : Nat) : Machine := asking.after Native.standard 64 .unlimited 0 k

set_option maxRecDepth 20000 in
/-- The procedure has its value after seven moves. -/
theorem evaluates_asked : ∃ e around passed value n,
    (asked 2).activity = .evaluating e around ∧ around.wantsValue ∧
      (asked 2).Evaluates around passed value n := by
  obtain ⟨e, around, value, evaluates, wanted, ⟨_, _, _, calls⟩, delivers⟩ : ∃ e around value,
      (asked 2).activity = .evaluating e around ∧ around.wantsValue ∧
      (∃ callee arguments around',
        (Machine.move^[1] (asked 2)).activity = .calling callee arguments around') ∧
      (Machine.move^[7] (asked 2)).activity = .delivering value around :=
    ⟨_, _, _, rfl, rfl, ⟨_, _, _, rfl⟩, rfl⟩
  obtain ⟨away, before, after⟩ :
      (∀ i < 7, (Machine.move^[i] (asked 2)).suspended.length = 0 → i = 0 ∨ i = 1) ∧
      (asked 2).suspended.length = 0 ∧
      (Machine.move^[7] (asked 2)).suspended.length = 0 := by decide +kernel
  refine ⟨e, around, _, value, _, evaluates, wanted, Machine.route_iterate _ 7, delivers,
    after.trans before.symm, fun k among level value' delivers' => ?_⟩
  obtain ⟨i, lt, rfl⟩ := List.mem_map.mp among
  rcases away i (List.mem_range.mp lt) (level.trans before) with rfl | rfl
  · rw [Function.iterate_zero_apply, evaluates] at delivers'
    cases delivers'
  · rw [calls] at delivers'
    cases delivers'

set_option maxRecDepth 20000 in
/-- The value is returned four moves after the procedure has been entered. -/
theorem runsTo_asked : ∃ below passed n value left, LiesAbove below (asked 4).frames ∧
    (asked 4).floor ≤ below.length ∧
      (asked 4).RunsTo below.length passed n (some value) left := by
  obtain ⟨f, below, value, frames, boundary, ⟨_, _, evaluates⟩, returns⟩ : ∃ f below value,
      (asked 4).frames = f :: below ∧ f.kind.isBoundary ∧
      (∃ e around, (Machine.move^[3] (asked 4)).activity = .evaluating e around) ∧
      (Machine.move^[4] (asked 4)).activity = .delivering value ⟨.giveBack, []⟩ :=
    ⟨_, _, _, rfl, rfl, ⟨_, _, rfl⟩, rfl⟩
  obtain ⟨floor, height, inside, other, level, low⟩ :
      (asked 4).floor = 1 ∧ (asked 4).frames.length = 2 ∧
      (∀ i < 4, 1 < (Machine.move^[i] (asked 4)).frames.length) ∧
      (∀ i < 3, (Machine.move^[i] (asked 4)).activity.around?.map Evaluation.purpose ≠
        some .giveBack) ∧
      (Machine.move^[4] (asked 4)).suspended.length = (asked 4).suspended.length ∧
      ((Machine.move^[4] (asked 4)).leave
        (Machine.move^[4] (asked 4)).frames).frames.length ≤ 1 := by decide +kernel
  have one : below.length = 1 := by
    rw [frames] at height
    exact Nat.succ.inj height
  suffices runs : ∃ passed left, (asked 4).RunsTo below.length passed
      (Machine.move^[4] (asked 4)) (some value) left by
    obtain ⟨passed, left, runs⟩ := runs
    exact ⟨below, passed, _, value, left, ⟨[], f, frames, boundary⟩,
      Nat.le_of_eq (floor.trans one.symm), runs⟩
  rw [one]
  refine ⟨_, _, Machine.route_iterate _ 4, .returned returns level low,
    fun k among result left => ?_⟩
  obtain ⟨i, lt, rfl⟩ := List.mem_map.mp among
  rintro (⟨-, -, low⟩ | ⟨returns', -, -⟩)
  · exact absurd (inside i (List.mem_range.mp lt)) (Nat.not_lt.mpr low)
  · rcases Nat.lt_succ_iff_lt_or_eq.mp (List.mem_range.mp lt) with earlier | rfl
    · exact other i earlier (by rw [returns']; rfl)
    · rw [evaluates] at returns'
      cases returns'

/-- A procedure is evaluated, and it is run. -/
theorem evaluation_neutral_asking :
    (∀ name f, Native.standard.get? name = some f → f.KeepsOuter) ∧
      (Machine.ofProgram asking Native.standard 64 .unlimited).HoldsNothing ∧
      (∃ passed around value n, (asked 2).Evaluates around passed value n ∧ (asked 2).Unmoved n) ∧
      ∃ below passed n value left,
        (asked 4).RunsTo below.length passed n (some value) left ∧ left = below ∧
          ∃ k ∈ passed ++ [n], k.ReturnsFrom below.length value := by
  have keeps (name : String) (f : Native) (known : Native.standard.get? name = some f) :
      f.KeepsOuter := Native.keepsOuter_standard known
  have holds : (Machine.ofProgram asking Native.standard 64 .unlimited).HoldsNothing :=
    ⟨rfl, rfl, rfl, rfl, rfl⟩
  refine ⟨keeps, holds, ?_, ?_⟩
  · obtain ⟨e, around, passed, value, n, evaluates, wanted, h⟩ := evaluates_asked
    obtain ⟨known, neutral⟩ := (evaluation_neutral keeps holds rfl 0
      (Machine.reaches_iterate _ 2)).1 e around evaluates wanted
    refine ⟨passed, around, value, n, h, neutral e known passed value n ?_⟩
    show Machine.Evaluates { asked 2 with activity := .evaluating e around } _ _ _ _
    rwa [Machine.evaluating_self evaluates]
  · obtain ⟨below, passed, n, value, left, lies, low, h⟩ := runsTo_asked
    obtain ⟨same, gives⟩ := (evaluation_neutral keeps holds rfl 0
      (Machine.reaches_iterate _ 4)).2 below passed n _ left lies low h
    exact ⟨below, passed, n, value, left, h, same, (gives value).mp rfl⟩

end Program

end Blockwork
