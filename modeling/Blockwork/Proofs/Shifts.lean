import Blockwork.Proofs.Contexts
import Blockwork.Proofs.Evaluations

/-!
# What a move does to what is stacked

Frames, scopes and suspended evaluations are stacked. A move works on the innermost frame and may
lay one on it, or it leaves some: the innermost one, or those of a procedure that gives back a
value. The scopes around the innermost one are entered and left with the procedures that they belong
to.

## Main statements

* `Native.keepsOuter_standard`: a standard function changes no scope but the innermost.
* `Machine.shifts_move`: what a move does to the frames, the scopes and the suspended evaluations.
-/

namespace Blockwork

/-! ## Native functions -/

/-- A function enters and leaves no scope. As only the innermost scope can be written to, the others
are what they were. -/
structure Native.KeepsOuter (f : Native) : Prop where
  count : f.KeepsScopes
  outer : ∀ s arguments, (f s arguments).2.env.scopes.tail = s.env.scopes.tail

/-- What a function does not look at, it does not change either. -/
theorem Native.Local.keepsOuter {f : Native} (h : f.Local) (count : f.KeepsScopes) :
    f.KeepsOuter := by
  refine ⟨count, fun s arguments => ?_⟩
  have same := count s arguments
  cases scopes : s.env.scopes with
  | nil =>
    rw [scopes, List.length_nil, List.length_eq_zero_iff] at same
    rw [same]
  | cons scope below =>
    -- the function does the same with the innermost scope alone
    let s' : Surroundings := { s with env := ⟨s.env.globals, [scope]⟩ }
    have whole : s = { s' with env := s'.env.on below } := by
      obtain ⟨⟨globals, _⟩, output, stop⟩ := s
      cases scopes
      rfl
    have inner : (f s' arguments).2.env.scopes.length = 1 := count s' arguments
    obtain ⟨scope', only⟩ := List.length_eq_one_iff.mp inner
    rw [whole, h s' below arguments (List.cons_ne_nil _ _)]
    show ((f s' arguments).2.env.scopes ++ below).tail = below
    rw [only]
    rfl

theorem Native.keepsOuter_standard {name : String} {f : Native}
    (known : Native.standard.get? name = some f) : f.KeepsOuter :=
  (Native.local_standard known).keepsOuter (Native.harmless_standard known).scopes

/-- Frames lie on others, the innermost of which has been worked on. -/
structure LaidOn (frames frames' : List Frame) : Prop where
  below : frames.tail <:+ frames'.tail
  boundaries : frames.map (·.kind.isBoundary) <:+ frames'.map (·.kind.isBoundary)

theorem LaidOn.refl (frames : List Frame) : LaidOn frames frames :=
  ⟨List.suffix_rfl, List.suffix_rfl⟩

theorem LaidOn.trans {frames frames' frames'' : List Frame} (h : LaidOn frames frames')
    (next : LaidOn frames' frames'') : LaidOn frames frames'' :=
  ⟨h.below.trans next.below, h.boundaries.trans next.boundaries⟩

theorem laidOn_cons (f : Frame) (frames : List Frame) : LaidOn frames (f :: frames) :=
  ⟨List.tail_suffix _, List.suffix_cons _ _⟩

/-- Working on a frame does not make a body of a procedure. -/
theorem laidOn_of_same {f f' : Frame} {rest : List Frame}
    (kind : f'.kind.isBoundary = f.kind.isBoundary) : LaidOn (f :: rest) (f' :: rest) := by
  have same : (f' :: rest).map (·.kind.isBoundary) = (f :: rest).map (·.kind.isBoundary) := by
    rw [List.map_cons, List.map_cons, kind]
  exact ⟨List.suffix_rfl, same ▸ List.suffix_rfl⟩

namespace Machine

/-- The scopes around the innermost one are among those of the other machine, or the other way
round. -/
def ScopesNest (m n : Machine) : Prop :=
  m.env.scopes.tail <:+ n.env.scopes.tail ∨ n.env.scopes.tail <:+ m.env.scopes.tail

/-- The innermost frame is worked on, and frames may be laid on it. -/
structure Grows (m n : Machine) : Prop where
  suspended : n.suspended = m.suspended
  env : n.env = m.env
  frames : LaidOn m.frames n.frames

/-- What a move may do to the frames, the scopes and the suspended evaluations. -/
inductive Shifts (m n : Machine) : Prop where
  | ends (halts : n.isOver)
  | works (suspended : n.suspended = m.suspended) (frames : LaidOn m.frames n.frames)
      (scopes : ScopesNest m n)
  /-- The innermost frame has been run to its end. -/
  | pops (suspended : n.suspended = m.suspended) (frames : n.frames = m.frames.tail)
      (activity : n.activity = .scheduling) (scopes : ScopesNest m n)
  /-- An evaluation waits for a procedure. -/
  | suspends {s : Suspension} (waits : m.activity.around? = some s.evaluation)
      (floor : s.floor = m.frames.length) (suspended : n.suspended = s :: m.suspended)
      (frames : LaidOn m.frames n.frames) (scopes : ScopesNest m n)
  /-- A return leaves the innermost procedure. -/
  | leaves {value : Value} (returns : m.activity = .delivering value ⟨.giveBack, []⟩)
      (suspended : n.suspended = m.suspended) (frames : n.frames = (m.leave m.frames).frames)
      (scopes : ScopesNest m n)
  /-- So it does, and its value goes to an evaluation that waits for it. -/
  | resumes {s : Suspension} {value : Value}
      (returns : m.activity = .delivering value ⟨.giveBack, []⟩)
      (suspended : m.suspended = s :: n.suspended) (floor : s.floor = n.frames.length)
      (frames : n.frames = (m.leave m.frames).frames) (scopes : ScopesNest m n)

section

variable {m n k : Machine} {around : Evaluation} {value : Value}

/-! ## Scopes -/

theorem ScopesNest.of_eq (same : n.env = m.env) : ScopesNest m n := .inl (same ▸ List.suffix_rfl)

/-- Scopes are left. -/
theorem ScopesNest.of_suffix (h : n.env.scopes <:+ m.env.scopes) : ScopesNest m n := by
  obtain ⟨left, eq⟩ := h
  refine .inr ?_
  rw [← eq]
  cases left with
  | nil => exact List.suffix_rfl
  | cons scope left => exact (List.tail_suffix _).trans (List.suffix_append _ _)

theorem env_publish : m.publish.env = m.env := by
  unfold publish
  split <;> rfl

theorem env_push (f : Frame) : (m.push f).env = m.env := env_publish

theorem scopes_pop_suffix : m.pop.env.scopes <:+ m.env.scopes := by
  cases frames : m.frames with
  | nil =>
    have same : m.pop.env = m.env := by rw [pop, frames]
    exact same ▸ List.suffix_rfl
  | cons f rest =>
    by_cases kind : f.kind = .procedure
    · rw [pop_procedure frames kind, env_publish]
      exact List.tail_suffix _
    · rw [pop_inner frames kind, env_publish]
      exact List.suffix_rfl

theorem scopes_leave_suffix (frames : List Frame) :
    (m.leave frames).env.scopes <:+ m.env.scopes := by
  induction frames generalizing m with
  | nil => exact List.suffix_rfl
  | cons f rest ih =>
    unfold leave
    split
    · exact scopes_pop_suffix
    · exact ih.trans scopes_pop_suffix

/-! ## The innermost frame -/

namespace Grows

theorem refl (m : Machine) : Grows m m := ⟨rfl, rfl, .refl _⟩

theorem trans (h : Grows m n) (next : Grows n k) : Grows m k :=
  ⟨next.suspended.trans h.suspended, next.env.trans h.env, h.frames.trans next.frames⟩

theorem publish (h : Grows m n) : Grows m n.publish := by
  refine ⟨suspended_publish.trans h.suspended, env_publish.trans h.env, ?_⟩
  rw [frames_publish]
  exact h.frames

theorem activity (h : Grows m n) (activity : Activity) :
    Grows m { n with activity := activity } :=
  ⟨h.suspended, h.env, h.frames⟩

theorem schedule (h : Grows m n) : Grows m n.schedule := h.activity _

theorem updateTop (h : Grows m n) {change : Frame → Frame}
    (kind : ∀ f ∈ n.frames.head?, (change f).kind.isBoundary = f.kind.isBoundary) :
    Grows m (n.updateTop change) := by
  refine h.trans ?_
  unfold Machine.updateTop
  split
  · exact .refl n
  · next f rest frames =>
    refine ⟨rfl, rfl, ?_⟩
    rw [frames]
    exact laidOn_of_same (kind f (by rw [frames]; rfl))

theorem pushBody (h : Grows m n) (first stop : Nat) (kind : FrameKind) :
    Grows m (n.pushBody first stop kind) := by
  refine h.trans ?_
  cases frames : n.frames with
  | nil =>
    rw [Machine.pushBody, frames]
    exact .refl n
  | cons f rest =>
    rw [pushBody_eq frames]
    refine ⟨suspended_push, env_push _, ?_⟩
    rw [frames_push]
    exact laidOn_cons _ _

theorem shifts (h : Grows m n) : Shifts m n := .works h.suspended h.frames (.of_eq h.env)

end Grows

/-- The innermost frame is left, after it has been worked on. -/
theorem shifts_pop (suspended : n.suspended = m.suspended) (env : n.env = m.env)
    (frames : n.frames.tail = m.frames.tail) : Shifts m n.pop.schedule := by
  refine .pops (suspended_pop.trans suspended) ?_ rfl (.of_suffix (env ▸ scopes_pop_suffix))
  rw [← frames]
  cases is : n.frames with
  | nil =>
    show n.pop.frames = []
    rw [pop, is, is]
  | cons f rest => exact frames_pop is

theorem shifts_finish (m n : Machine) (outcome : Outcome) : Shifts m (n.finish outcome) :=
  .ends rfl

theorem shifts_performNext (f : Frame) : Shifts m (m.performNext f) := by
  have begun : Grows m m.beginNext := ((Grows.refl m).updateTop fun _ _ => by rfl).publish
  cases op : f.plan.ops[f.next]? with
  | none =>
    rw [performNext_none op]
    exact begun.schedule.shifts
  | some op' =>
    rw [performNext_some op]
    cases op' with
    | forever close => exact ((begun.updateTop fun _ _ => by rfl).pushBody _ _ _).schedule.shifts
    | _ => exact (begun.activity _).shifts

theorem shifts_endOfFrame {f : Frame} {rest : List Frame} (is : m.frames = f :: rest) :
    Shifts m (m.endOfFrame f) := by
  have left : Shifts m m.pop.schedule := shifts_pop rfl rfl rfl
  have again {n : Machine} (h : Grows m n) : Shifts m n.again :=
    (h.updateTop fun _ _ => by rfl).schedule.shifts
  unfold endOfFrame
  split
  · exact left
  · exact left
  · exact left
  · exact again (.refl m)
  · next remaining kind =>
    split
    · refine again ((Grows.refl m).updateTop fun f' top => ?_)
      rw [is] at top
      cases top
      rw [kind]
      rfl
    · exact left
  · next opener _ =>
    simp only
    split
    · exact (((Grows.refl m).updateTop fun _ _ => by rfl).activity _).shifts
    · refine shifts_pop ?_ ?_ ?_
      all_goals
        unfold updateTop
        rw [is]
      rfl

theorem shifts_dispatch : Shifts m m.dispatch := by
  unfold dispatch
  split
  · split <;> exact shifts_finish _ _ _
  · split
    · exact shifts_finish _ _ _
    · split
      · exact shifts_finish _ _ _
      · next frames =>
        split
        · exact shifts_endOfFrame frames
        · exact shifts_performNext _

/-! ## Values -/

/-- A return leaves its procedure, and the value goes to the evaluation that waits for it. -/
theorem Stands.shifts_giveBack {S : ChainId → List Shape} {wanted : Option Purpose}
    (h : m.Stands S wanted) (returns : m.activity = .delivering value ⟨.giveBack, []⟩) :
    Shifts m (m.giveBack value) := by
  have left := h.leave rfl
  have suspended : (m.leave m.frames).suspended = m.suspended := suspended_leave
  have scopes : ScopesNest m (m.leave m.frames) := .of_suffix (scopes_leave_suffix _)
  rw [giveBack_eq]
  rcases left.split with ⟨gone, -, none⟩ | stack | ⟨s, outer, waits, floor, -⟩
  · rw [handOver_gone gone none]
    exact shifts_finish _ _ _
  · rw [handOver_above (Stacked.floor_lt stack)]
    exact .leaves returns suspended rfl scopes
  · rw [handOver_waiting waits floor]
    exact .resumes returns (suspended.symm.trans waits) floor rfl scopes

theorem Stands.shifts_conclude {S : ChainId → List Shape} {purpose : Purpose}
    (h : m.Stands S (some purpose)) (activity : m.activity = .delivering value ⟨purpose, []⟩) :
    Shifts m (m.conclude value purpose) := by
  have past (close : Nat) : Grows m (m.jumpPast close) := (Grows.refl m).updateTop fun _ _ => by rfl
  cases purpose with
  | statement => exact (Grows.refl m).schedule.shifts
  | times opener close =>
    cases number : value.expectNumber with
    | error e =>
      rw [conclude_times_error number]
      exact shifts_finish _ _ _
    | ok x =>
      rw [conclude_times number]
      split
      · exact (past close).schedule.shifts
      · exact ((past close).pushBody _ _ _).schedule.shifts
  | firstTest opener close =>
    rw [conclude_firstTest]
    split
    · exact (past close).schedule.shifts
    · exact ((past close).pushBody _ _ _).schedule.shifts
  | retest =>
    rw [conclude_retest]
    split
    · exact shifts_pop rfl rfl rfl
    · exact ((Grows.refl m).updateTop fun _ _ => by rfl).schedule.shifts
  | branch opener middle close =>
    rw [conclude_branch]
    split
    · exact ((past close).pushBody _ _ _).schedule.shifts
    · exact (past close).schedule.shifts
  | giveBack => exact h.shifts_giveBack activity

/-- The value of a native function is used, or there should have been one. -/
theorem shifts_returned (definition : String) (result : Option Value) (scopes : ScopesNest m k)
    (frames : k.frames = m.frames) (suspended : k.suspended = m.suspended) :
    Shifts m (k.returned definition result around) := by
  have stays : LaidOn m.frames k.frames := frames ▸ .refl _
  cases result with
  | some value =>
    rw [returned_some]
    exact .works suspended stays scopes
  | none =>
    rw [returned_none]
    split
    · exact shifts_finish _ _ _
    · exact .works suspended stays scopes

/-! ## Calls -/

/-- What a call of a procedure does, unless the run fails. The evaluation waits if its value is
wanted. -/
structure Entered (m : Machine) (waits : Option Suspension) (f : Frame) (n : Machine) : Prop where
  frames : n.frames = f :: m.frames
  procedure : f.kind = .procedure
  suspended : n.suspended = waits.toList ++ m.suspended
  outer : n.env.scopes.tail = m.env.scopes

theorem Entered.nest {waits : Option Suspension} {f : Frame} (h : m.Entered waits f n) :
    ScopesNest m n :=
  .inl (h.outer ▸ List.tail_suffix _)

theorem Entered.laidOn {waits : Option Suspension} {f : Frame} (h : m.Entered waits f n) :
    LaidOn m.frames n.frames :=
  h.frames ▸ laidOn_cons _ _

theorem ends_or_entered (definition : String) (body : ChainId) (parameters : List String)
    (arguments : List Value) (wanted : Option Evaluation) :
    (m.enterProcedure definition body parameters arguments wanted).isOver ∨
      ∃ f, m.Entered (m.waiting definition wanted) f
        (m.enterProcedure definition body parameters arguments wanted) := by
  unfold enterProcedure
  split
  · exact .inl rfl
  · split
    · exact .inl rfl
    · next plan _ =>
      let called : Machine :=
        { m with
          env := m.env.push (.ofParameters parameters arguments)
          depth := m.depth + 1
          suspended := (m.waiting definition wanted).toList ++ m.suspended }
      let f : Frame := .enter plan 0 plan.ops.size .procedure
      have env : (called.push f).env = called.env := env_push f
      have suspended : (called.push f).suspended = called.suspended := suspended_push
      exact .inr ⟨f, frames_push, rfl, suspended, congrArg (·.scopes.tail) env⟩

theorem shifts_enterProcedure (definition : String) (body : ChainId) (parameters : List String)
    (arguments : List Value) {wanted : Option Evaluation}
    (waits : ∀ around, wanted = some around → m.activity.around? = some around) :
    Shifts m (m.enterProcedure definition body parameters arguments wanted) := by
  rcases ends_or_entered definition body parameters arguments wanted with halts | ⟨f, entered⟩
  · exact .ends halts
  · cases wanted with
    | none => exact .works entered.suspended entered.laidOn entered.nest
    | some around =>
      exact .suspends (s := ⟨definition, m.frames.length, around⟩) (waits around rfl) rfl
        entered.suspended entered.laidOn entered.nest

theorem shifts_call {callee : Callee} {arguments : List Value}
    (keeps : ∀ definition function, callee = .native definition function → function.KeepsOuter)
    (works : m.activity.around? = some around) : Shifts m (m.call arguments around callee) := by
  cases callee with
  | native definition function =>
    rw [call_native]
    have scopes : ScopesNest m (m.within (function m.surroundings arguments).2) :=
      .inl ((keeps definition function rfl).outer m.surroundings arguments ▸ List.suffix_rfl)
    cases (function m.surroundings arguments).1 with
    | returned value => exact shifts_returned _ _ scopes rfl rfl
    | failed error => exact shifts_finish _ _ _
    | panicked message => exact .ends rfl
    | waiting wait value => exact .works rfl (.refl _) scopes
  | procedure definition body parameters =>
    rw [call_procedure]
    refine shifts_enterProcedure _ _ _ _ fun around' is => ?_
    split at is
    · rw [works, is]
    · cases is

theorem shifts_gather (callee : Callee) (values : List Value) (purpose : Purpose)
    (outer : List PendingCall) (arguments : List Expr) :
    Shifts m (m.gather callee values purpose outer arguments) := by
  cases arguments with
  | nil => exact ((Grows.refl m).activity _).shifts
  | cons e rest => exact ((Grows.refl m).activity _).shifts

/-! ## Moves -/

/-- **A move works on the innermost frame, lays one on it, or leaves some.** -/
theorem shifts_move {S : ChainId → List Shape} (order : m.InOrder S)
    (keeps : ∀ definition function arguments around,
      m.activity = .calling (.native definition function) arguments around →
        function.KeepsOuter) : Shifts m m.move := by
  unfold InOrder at order
  have moves := m.moves
  generalize m.move = n at moves ⊢
  cases moves with
  | idle activity =>
    rw [activity] at order
    exact order.elim
  | halts halted => exact .ends halted
  | dispatches activity => exact shifts_dispatch
  | gives activity => exact ((Grows.refl m).activity _).shifts
  | applies activity => exact shifts_gather _ _ _ _ _
  | concludes activity =>
    rw [activity] at order
    exact Stands.shifts_conclude order activity
  | delivers activity => exact shifts_gather _ _ _ _ _
  | @calls callee arguments around activity =>
    refine shifts_call ?_ (by rw [activity]; rfl)
    rintro definition function rfl
    exact keeps definition function arguments around activity
  | resumes activity => exact shifts_returned _ _ (.of_eq rfl) rfl rfl

end

end Machine

end Blockwork
