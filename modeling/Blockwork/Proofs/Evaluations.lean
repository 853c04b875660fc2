import Blockwork.Proofs.FrameRuns

/-!
# Evaluations under way

While a value is wanted, a machine neither begins a block nor goes on at the end of one: it only
works on expressions, and each of its moves has less left to do. In the end the value is used, and
only then does the machine look what to do next, or the run is over.

## Main statements

* `Machine.becomes_move`: what a move makes of a machine that works on an expression.

The evaluations that are under way are those that are suspended and the one that the machine works
on. Each is told by what its value is wanted for and by the number of frames it has below it.
-/

namespace Blockwork

/-- The evaluation that is worked on. -/
def Activity.around? : Activity → Option Evaluation
  | .evaluating _ around | .delivering _ around | .calling _ _ around | .waiting _ _ _ around =>
    some around
  | .idle | .scheduling | .ended _ | .panicked _ => none

/-- Nothing is worked on when a run is over. -/
theorem Machine.around?_of_isOver {m : Machine} (halted : m.isOver) :
    m.activity.around? = none := by
  unfold isOver at halted
  split at halted
  · next activity => rw [activity]; rfl
  · next activity => rw [activity]; rfl
  · cases halted

/-! ## What is left to do -/

mutual

/-- An upper bound of the moves that evaluate an expression, but for the procedures in it. -/
def Expr.cost : Expr → Nat
  | .literal _ => 1
  | .native _ _ arguments | .call _ _ _ arguments => 1 + costs arguments

/-- The same for a call whose last arguments are these. -/
def Expr.costs : List Expr → Nat
  | [] => 2
  | e :: rest => e.cost + 1 + costs rest

end

theorem Expr.cost_applied (callee : Callee) (arguments : List Expr) :
    (callee.applied arguments).cost = 1 + costs arguments := by
  cases callee <;> rw [Callee.applied, cost]

/-- An upper bound of the moves that follow when an expression has its value. -/
def Evaluation.cost (around : Evaluation) : Nat :=
  around.calls.foldr (fun c left => 1 + Expr.costs c.rest + left) 1

def Activity.cost : Activity → Nat
  | .evaluating e around => e.cost + around.cost
  | .delivering _ around => around.cost
  | .calling _ _ around => 2 + around.cost
  | .waiting _ _ _ around => 1 + around.cost
  | .idle | .scheduling | .ended _ | .panicked _ => 0

namespace Machine

/-- An upper bound of the moves that are left to the evaluations under way. -/
def cost (m : Machine) : Nat :=
  m.activity.cost + m.suspended.foldr (fun s left => s.evaluation.cost + left) 0

/-- The evaluations under way, innermost first: what each value is wanted for, and the number of
frames. -/
def evaluations (m : Machine) : List (Purpose × Nat) :=
  m.activity.around?.toList.map (fun around => (around.purpose, m.frames.length)) ++
    m.suspended.map fun s => (s.evaluation.purpose, s.floor)

/-- A machine works on an evaluation that is under way in another, with the frames it has there. -/
structure Inside (m n : Machine) : Prop where
  works : n.activity.around?.isSome
  frames : n.frames <:+ m.frames
  evaluations : n.evaluations <:+ m.evaluations

/-- A return goes out to the chain that was asked for. -/
def ReachesRoot (frames : List Frame) : Prop :=
  (frames.find? fun f => f.kind.isBoundary).map Frame.kind = some .root

/-- What a move may make of a machine that works on an expression. -/
inductive Becomes (m : Machine) : Machine → Prop where
  | failed {n : Machine} {failure : Failure} (ended : n.outcome? = some (.failed failure)) :
      Becomes m n
  /-- The value is that of the run. -/
  | returned {n : Machine} {value : Value} (ended : n.outcome? = some (.completed (some value)))
      (last : m.evaluations = [(.giveBack, m.frames.length)]) (root : ReachesRoot m.frames) :
      Becomes m n
  /-- The value has been used, or a procedure has been called. -/
  | scheduling {n : Machine} (activity : n.activity = .scheduling)
      (above : n.floor < n.frames.length) : Becomes m n
  | inside {n : Machine} (inside : Inside m n) (less : n.cost < m.cost) : Becomes m n

section

variable {m n : Machine} {around : Evaluation} {value : Value}

theorem Inside.refl (works : m.activity.around?.isSome) : Inside m m :=
  ⟨works, List.suffix_rfl, List.suffix_rfl⟩

theorem Inside.trans {o : Machine} (h : Inside m n) (next : Inside n o) : Inside m o :=
  ⟨next.works, next.frames.trans h.frames, next.evaluations.trans h.evaluations⟩

theorem evaluations_of_around (h : m.activity.around? = some around) :
    m.evaluations = (around.purpose, m.frames.length) ::
      m.suspended.map fun s => (s.evaluation.purpose, s.floor) := by
  rw [evaluations, h]
  rfl

/-! ## Moves within an expression -/

/-- The same evaluation is worked on. -/
theorem Becomes.of_same (h : m.activity.around? = some around) {around' : Evaluation}
    (h' : n.activity.around? = some around') (purpose : around'.purpose = around.purpose)
    (frames : n.frames = m.frames) (suspended : n.suspended = m.suspended)
    (less : n.activity.cost < m.activity.cost) : Becomes m n := by
  refine .inside ⟨by rw [h']; rfl, ?_, ?_⟩ ?_
  · exact frames ▸ List.suffix_rfl
  · have same : n.evaluations = m.evaluations := by
      rw [evaluations_of_around h, evaluations_of_around h', purpose, frames, suspended]
    exact same ▸ List.suffix_rfl
  · unfold cost
    rw [suspended]
    exact Nat.add_lt_add_right less _

/-- The arguments that are left are evaluated one by one. -/
theorem becomes_gather (h : m.activity.around? = some around) {callee : Callee}
    {values : List Value} {outer : List PendingCall} {arguments : List Expr}
    (less : 1 + Expr.costs arguments + (Evaluation.mk around.purpose outer).cost ≤
      m.activity.cost) :
    Becomes m (m.gather callee values around.purpose outer arguments) := by
  cases arguments with
  | nil =>
    refine .of_same h rfl rfl rfl rfl (Nat.lt_of_lt_of_le ?_ less)
    simp only [gather, Activity.cost, Expr.costs]
    omega
  | cons e rest =>
    refine .of_same h rfl rfl rfl rfl (Nat.lt_of_lt_of_le ?_ less)
    simp only [gather, Activity.cost, Evaluation.cost, Expr.costs, List.foldr_cons]
    omega

/-- The value of a native function is used, or there should have been one. -/
theorem becomes_returned (h : m.activity.around? = some around)
    (less : around.cost < m.activity.cost) (above : m.floor < m.frames.length)
    (definition : String) (result : Option Value) :
    Becomes m (m.returned definition result around) := by
  cases result with
  | some value =>
    rw [returned_some]
    exact .of_same h rfl rfl rfl rfl less
  | none =>
    rw [returned_none]
    split
    · exact .failed rfl
    · exact .scheduling rfl above

/-- Evaluations do not depend on what a native function can change. -/
theorem Becomes.of_within {s : Surroundings} (h : Becomes (m.within s) n) : Becomes m n := by
  cases h with
  | failed ended => exact .failed ended
  | returned ended last root => exact .returned ended last root
  | scheduling activity above => exact .scheduling activity above
  | inside inside less => exact .inside ⟨inside.works, inside.frames, inside.evaluations⟩ less

/-- A procedure is called. -/
theorem becomes_enterProcedure (above : m.floor < m.frames.length) {definition : String}
    {body : ChainId} {parameters : List String} {arguments : List Value}
    {wanted : Option Evaluation} :
    Becomes m (m.enterProcedure definition body parameters arguments wanted) := by
  unfold enterProcedure
  split
  · exact .failed rfl
  · split
    · exact .failed rfl
    · refine .scheduling rfl ?_
      simp only [schedule, frames_push, floor, suspended_push]
      cases wanted with
      | none => exact Nat.lt_succ_of_lt above
      | some around => exact Nat.lt_succ_self _

/-- What has its arguments is called. A native function must not break the run off. -/
theorem becomes_call (h : m.activity.around? = some around) {callee : Callee}
    {arguments : List Value} (calm : ∀ definition function, callee = .native definition function →
      ∀ s message, (function s arguments).1 ≠ .panicked message)
    (less : 1 + around.cost < m.activity.cost) (above : m.floor < m.frames.length) :
    Becomes m (m.call arguments around callee) := by
  cases callee with
  | native definition function =>
    rw [call_native]
    cases reaction : (function m.surroundings arguments).1 with
    | returned value =>
      have less' : around.cost < m.activity.cost := by omega
      exact (becomes_returned (m := m.within _) h less' above definition value).of_within
    | failed error => exact .failed rfl
    | panicked message => exact absurd reaction (calm definition function rfl _ _)
    | waiting wait value => exact .of_same h rfl rfl rfl rfl less
  | procedure definition body parameters =>
    rw [call_procedure]
    exact becomes_enterProcedure above

end

/-! ## The end of an evaluation -/

section

variable {S : ChainId → List Shape} {m n : Machine} {wanted : Option Purpose} {frames : List Frame}

theorem frames_leave_suffix (is : m.frames = frames) : (m.leave frames).frames <:+ frames := by
  induction frames generalizing m with
  | nil =>
    exact List.suffix_nil.mpr is
  | cons f rest ih =>
    by_cases boundary : f.kind.isBoundary
    · rw [leave_boundary boundary, frames_pop is]
      exact List.suffix_cons f rest
    · rw [leave_inner (by simpa using boundary)]
      exact (ih (frames_pop is)).trans (List.suffix_cons f rest)

theorem suspended_leave : (m.leave frames).suspended = m.suspended := by
  induction frames generalizing m with
  | nil => rfl
  | cons f rest ih =>
    unfold leave
    split
    · exact suspended_pop
    · rw [ih, suspended_pop]

/-- A return that leaves no frame goes out to the chain that was asked for. -/
theorem Stands.reachesRoot (h : m.Stands S wanted) (is : m.frames = frames)
    (none : (m.leave frames).frames = []) : ReachesRoot frames := by
  induction frames generalizing m wanted with
  | nil => exact absurd is (Stacked.ne_nil h)
  | cons f rest ih =>
    have stack : Stacked S wanted (f :: rest) m.depth m.suspended := is ▸ h
    by_cases boundary : f.kind.isBoundary
    · rw [leave_boundary boundary, frames_pop is] at none
      rw [ReachesRoot, List.find?_cons_of_pos (by exact boundary), Option.map_some,
        stack.root_iff.mpr none]
    · have inner : f.kind.isBoundary = false := by simpa using boundary
      rw [leave_inner inner] at none
      rw [ReachesRoot, List.find?_cons_of_neg (by exact boundary)]
      exact ih (h.pop_inner is inner) (frames_pop is) none

/-- A return hands its value to the run, to the evaluation that waits for it, or to nobody. -/
theorem becomes_giveBack {around : Evaluation} (h : m.activity.around? = some around)
    (purpose : around = ⟨.giveBack, []⟩) (stands : m.Stands S (some .giveBack)) (value : Value)
    (activity : m.activity.cost = around.cost) : Becomes m (m.giveBack value) := by
  have left := stands.leave rfl
  have suffix : (m.leave m.frames).frames <:+ m.frames := frames_leave_suffix rfl
  have same : (m.leave m.frames).suspended = m.suspended := suspended_leave
  unfold giveBack
  simp only [show (m.leave m.frames).floor = floorOf (m.leave m.frames).suspended from rfl, same]
  rcases left.split with ⟨frames, -, suspended⟩ | stack | ⟨s, outer, suspended, floor, -⟩
  · rw [same] at suspended
    rw [if_neg (by simp [frames]), suspended]
    refine .returned rfl ?_ (stands.reachesRoot rfl frames)
    rw [evaluations_of_around h, purpose, suspended]
    rfl
  · have above := stack.floor_lt
    rw [same] at above
    rw [if_pos above]
    refine .scheduling rfl ?_
    show floorOf (m.leave m.frames).suspended < _
    rwa [same]
  · rw [same] at suspended
    rw [if_neg (by simp [suspended, floorOf, floor]), suspended]
    refine .inside ⟨rfl, suffix, ?_⟩ ?_
    · rw [evaluations_of_around h, suspended, List.map_cons, floor]
      exact List.suffix_cons _ _
    · unfold cost
      rw [activity, suspended, List.foldr_cons, purpose]
      simp only [Activity.cost, Evaluation.cost, List.foldr_nil]
      omega

/-- A body is passed over or entered on the frame of its opener. -/
theorem above_jumpPast (above : m.floor < m.frames.length) (close : Nat) :
    (m.jumpPast close).floor < (m.jumpPast close).frames.length := by
  have same : (m.jumpPast close).frames.length = m.frames.length := by
    unfold jumpPast updateTop
    split
    · rfl
    · next frames => rw [frames, List.length_cons, List.length_cons]
  rw [show (m.jumpPast close).floor = m.floor by
    unfold floor
    rw [jumpPast, suspended_updateTop], same]
  exact above

theorem above_pushBody (above : m.floor < m.frames.length) (first stop : Nat) (kind : FrameKind) :
    (m.pushBody first stop kind).floor < (m.pushBody first stop kind).frames.length := by
  cases frames : m.frames with
  | nil =>
    rw [frames] at above
    cases above
  | cons f rest =>
    rw [pushBody_eq frames, floor, suspended_push, frames_push]
    exact Nat.lt_succ_of_lt above

/-- The value of a whole expression is used. -/
theorem becomes_conclude {purpose : Purpose} {value : Value}
    (h : m.activity = .delivering value ⟨purpose, []⟩) (stands : m.Stands S (some purpose)) :
    Becomes m (m.conclude value purpose) := by
  have above : m.floor < m.frames.length := stands.floor_lt
  cases purpose with
  | statement => exact .scheduling rfl above
  | times opener close =>
    cases number : value.expectNumber with
    | error e =>
      rw [conclude_times_error number]
      exact .failed rfl
    | ok x =>
      rw [conclude_times number]
      split
      · exact .scheduling rfl (above_jumpPast above close)
      · exact .scheduling rfl (above_pushBody (above_jumpPast above close) _ _ _)
  | firstTest opener close =>
    rw [conclude_firstTest]
    split
    · exact .scheduling rfl (above_jumpPast above close)
    · exact .scheduling rfl (above_pushBody (above_jumpPast above close) _ _ _)
  | retest =>
    rw [conclude_retest]
    split
    · obtain ⟨f, rest, frames⟩ := stands.cons
      obtain ⟨-, opener, kind⟩ : f.Sits (S f.plan.chain) (some .retest) := by
        unfold Stands at stands
        rw [frames] at stands
        exact stands.fits.sits
      -- the loop lies on the frame of its opener
      have below := stands.pop_inner frames (by rw [kind]; rfl)
      exact .scheduling rfl below.floor_lt
    · refine .scheduling rfl ?_
      obtain ⟨f, rest, frames⟩ := stands.cons
      show floorOf (m.updateTop _).suspended < (m.updateTop _).frames.length
      rw [suspended_updateTop, frames_updateTop frames]
      rw [floor, frames] at above
      exact above
  | branch opener middle close =>
    rw [conclude_branch]
    split
    · exact .scheduling rfl (above_pushBody (above_jumpPast above close) _ _ _)
    · exact .scheduling rfl (above_jumpPast above close)
  | giveBack => exact becomes_giveBack (by rw [h]; rfl) rfl stands value (by rw [h]; rfl)

/-- **A machine that works on an expression goes on with it, comes to the next block, or ends its
run.** It ends well only by a return out of the chain that was asked for. -/
theorem becomes_move {around : Evaluation} (h : m.activity.around? = some around)
    (stands : m.Stands S (some around.purpose))
    (calm : ∀ definition function arguments around,
      m.activity = .calling (.native definition function) arguments around →
        ∀ s message, (function s arguments).1 ≠ .panicked message) :
    Becomes m m.move := by
  have above : m.floor < m.frames.length := stands.floor_lt
  have moves := m.moves
  generalize m.move = n at moves ⊢
  cases moves with
  | idle activity | dispatches activity =>
    rw [activity] at h
    cases h
  | halts halted =>
    rw [around?_of_isOver halted] at h
    cases h
  | gives activity =>
    refine .of_same (by rw [activity]; rfl) rfl rfl rfl rfl ?_
    rw [activity]
    exact Nat.lt_add_of_pos_left Nat.one_pos
  | applies activity =>
    refine becomes_gather (by rw [activity]; rfl) (Nat.le_of_eq ?_)
    rw [activity, Activity.cost, Expr.cost_applied]
  | concludes activity =>
    rw [activity] at h
    cases h
    exact becomes_conclude activity stands
  | delivers activity =>
    rw [activity] at h
    cases h
    refine becomes_gather (by rw [activity]; rfl) ?_
    rw [activity]
    simp only [Activity.cost, Evaluation.cost, List.foldr_cons]
    omega
  | @calls callee arguments around' activity =>
    refine becomes_call (by rw [activity]; rfl) ?_ ?_ above
    · rintro definition function rfl s message
      exact calm definition function arguments around' activity s message
    · rw [activity]
      exact Nat.add_lt_add_right (by decide) _
  | resumes activity =>
    refine becomes_returned (by rw [activity]; rfl) ?_ above _ _
    rw [activity]
    exact Nat.lt_add_of_pos_left Nat.one_pos

end

end Machine

end Blockwork
