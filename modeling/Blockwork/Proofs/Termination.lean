import Blockwork.Proofs.Cancellation
import Mathlib.Data.List.Lex
import Mathlib.Order.WellFounded

/-!
# Runs without open-ended loops end

A program whose chains have no forever and no repeat until comes to the end of each of its runs,
however its procedures call each other: the limit cuts a recursion off, and a repeat counts its
passes beforehand.

## Main statements

* `Machine.advances_move`: each move lowers the ranks of the frames, or the run is almost over.
* `Program.terminates`: all runs of such a program end.

Each frame has a rank: the passes it has to make, the blocks that are left in its row, and the work
that is left in the evaluation which belongs to it. A move may put new frames on top, of any ranks,
but only when it lowers the rank of the frame below them. So the ranks are compared from the bottom
of the stack. As there is a greatest height, this can not go on for ever.
-/

namespace Blockwork

/-! ## Ranks -/

/-- What a frame has left to do: passes, blocks, and work in an evaluation. -/
abbrev Rank : Type := Nat × Nat × Nat

/-- Fewer passes, or as many and fewer blocks, or as many of both and less work. -/
def Rank.Below : Rank → Rank → Prop :=
  Prod.Lex (fun a b => a < b) (Prod.Lex (fun a b => a < b) fun a b => a < b)

theorem Rank.wellFounded_below : WellFounded Rank.Below :=
  WellFounded.prod_lex Nat.lt_wfRel.wf (WellFounded.prod_lex Nat.lt_wfRel.wf Nat.lt_wfRel.wf)

/-- The passes that are counted down. -/
def FrameKind.passes : FrameKind → Nat
  | .repeated remaining => remaining
  | _ => 0

/-- The rank of a frame with so much work in its evaluation. -/
def Frame.rank (f : Frame) (cost : Nat) : Rank := (f.kind.passes, f.stop - f.next, cost)

theorem Rank.below_of_passes {f g : Frame} (less : g.kind.passes < f.kind.passes) (c c' : Nat) :
    (g.rank c').Below (f.rank c) := .left _ _ less

theorem Rank.below_of_blocks {f g : Frame} (kind : g.kind = f.kind)
    (less : g.stop - g.next < f.stop - f.next) (c c' : Nat) : (g.rank c').Below (f.rank c) := by
  unfold Frame.rank
  rw [kind]
  exact .right _ (.left _ _ less)

theorem Rank.below_of_cost {f g : Frame} (kind : g.kind = f.kind)
    (le : g.stop - g.next ≤ f.stop - f.next) {c c' : Nat} (less : c' < c) :
    (g.rank c').Below (f.rank c) := by
  rcases Nat.lt_or_eq_of_le le with fewer | same
  · exact below_of_blocks kind fewer c c'
  · unfold Frame.rank
    rw [kind, same]
    exact .right _ (.right _ less)

/-! ## Stacks of ranks -/

/-- A list can be lowered only so often, compared from its first entry on, as long as it does not
get longer than a bound. -/
theorem acc_lex {α : Type} {r : α → α → Prop} (wf : WellFounded r) (height : Nat) (l : List α)
    (le : l.length ≤ height) : Acc (fun l' l => l'.length ≤ height ∧ List.Lex r l' l) l := by
  induction height generalizing l with
  | zero =>
    obtain rfl : l = [] := List.eq_nil_of_length_eq_zero (Nat.le_zero.mp le)
    exact ⟨_, fun l' lower => by cases lower.2⟩
  | succ height ih =>
    have nil : Acc (fun l' l => l'.length ≤ height + 1 ∧ List.Lex r l' l) [] :=
      ⟨_, fun l' lower => by cases lower.2⟩
    have cons (a : α) (rest : List α) (le : rest.length ≤ height) :
        Acc (fun l' l => l'.length ≤ height + 1 ∧ List.Lex r l' l) (a :: rest) := by
      induction a using wf.induction generalizing rest with
      | h a first =>
        induction ih rest le with
        | intro rest _ later =>
          refine ⟨_, ?_⟩
          rintro l' ⟨short, lower⟩
          cases lower with
          | nil => exact nil
          | @cons _ rest' _ lower =>
            have short' : rest'.length ≤ height := Nat.le_of_succ_le_succ short
            exact later rest' ⟨short', lower⟩ short'
          | rel less => exact first _ less _ (Nat.le_of_succ_le_succ short)
    cases l with
    | nil => exact nil
    | cons a rest => exact cons a rest (Nat.le_of_succ_le_succ le)

/-- The evaluation that is suspended on the frames, if there is one: its work, and the others. -/
def suspendedOn (frames : List Frame) : List Suspension → Nat × List Suspension
  | [] => (0, [])
  | s :: outer => if s.floor = frames.length then (s.evaluation.cost, outer) else (0, s :: outer)

/-- The ranks of frames that lie under another, innermost first. -/
def ranksUnder : List Frame → List Suspension → List Rank
  | [], _ => []
  | f :: rest, suspended =>
    f.rank (suspendedOn (f :: rest) suspended).1 ::
      ranksUnder rest (suspendedOn (f :: rest) suspended).2

/-- The ranks of frames, innermost first, when there is so much work in the innermost one. -/
def stackRanks (cost : Nat) : List Frame → List Suspension → List Rank
  | [], _ => []
  | f :: rest, suspended => f.rank cost :: ranksUnder rest suspended

theorem length_ranksUnder {frames : List Frame} {suspended : List Suspension} :
    (ranksUnder frames suspended).length = frames.length := by
  induction frames generalizing suspended with
  | nil => rfl
  | cons f rest ih => simp [ranksUnder, ih]

theorem length_stackRanks {cost : Nat} {frames : List Frame} {suspended : List Suspension} :
    (stackRanks cost frames suspended).length = frames.length := by
  cases frames with
  | nil => rfl
  | cons f rest => simp [stackRanks, length_ranksUnder]

/-- Nothing is suspended on frames that are above the floor. -/
theorem ranksUnder_above {frames : List Frame} {suspended : List Suspension}
    (above : floorOf suspended < frames.length) :
    ranksUnder frames suspended = stackRanks 0 frames suspended := by
  have none : suspendedOn frames suspended = (0, suspended) := by
    cases suspended with
    | nil => rfl
    | cons s outer => exact if_neg (Nat.ne_of_lt above)
  cases frames with
  | nil => rfl
  | cons f rest => rw [ranksUnder, none, stackRanks]

/-- The frames that an evaluation is suspended on have its work left to do. -/
theorem ranksUnder_floor {frames : List Frame} {s : Suspension} {outer : List Suspension}
    (floor : s.floor = frames.length) :
    ranksUnder frames (s :: outer) = stackRanks s.evaluation.cost frames outer := by
  cases frames with
  | nil => rfl
  | cons f rest => rw [ranksUnder, suspendedOn, if_pos floor, stackRanks]

namespace Machine

/-- The ranks of the frames of a machine, outermost first. -/
def ranks (m : Machine) : List Rank :=
  (stackRanks m.activity.cost m.frames m.suspended).reverse

/-- A machine has less to do than another, or it is over with its next move. -/
def Advances (m n : Machine) : Prop := n.move.isOver ∨ List.Lex Rank.Below n.ranks m.ranks

section

variable {m n : Machine} {f g h : Frame} {rest : List Frame}

theorem Advances.of_isOver (over' : n.isOver) : Advances m n := by
  refine Or.inl ?_
  rwa [move_of_isOver over']

theorem advances_finish (m n : Machine) (outcome : Outcome) : Advances m (n.finish outcome) :=
  .of_isOver rfl

/-- The innermost frame has less to do. -/
theorem Advances.of_top (frames : m.frames = f :: rest) (frames' : n.frames = g :: rest)
    (suspended : n.suspended = m.suspended)
    (lower : (g.rank n.activity.cost).Below (f.rank m.activity.cost)) : Advances m n := by
  refine Or.inr ?_
  simp only [ranks, frames, frames', suspended, stackRanks, List.reverse_cons]
  exact List.Lex.append_left _ (.rel lower) _

/-- A frame is entered, and the one below has less to do. -/
theorem Advances.of_entered (above : floorOf m.suspended < m.frames.length)
    (frames : m.frames = f :: rest) (frames' : n.frames = h :: g :: rest)
    (suspended : n.suspended = m.suspended) (lower : (g.rank 0).Below (f.rank m.activity.cost)) :
    Advances m n := by
  have above' : floorOf m.suspended < (g :: rest).length := by
    rw [frames] at above
    exact above
  refine Or.inr ?_
  simp only [ranks, frames, frames', suspended, stackRanks, ranksUnder_above above',
    List.reverse_cons, List.append_assoc]
  exact List.Lex.append_left _ (.rel lower) _

/-- A procedure is entered, and the evaluation that waits for it has less to do. -/
theorem Advances.of_suspended {s : Suspension} (frames : m.frames = f :: rest)
    (frames' : n.frames = h :: m.frames) (suspended : n.suspended = s :: m.suspended)
    (floor : s.floor = m.frames.length) (less : s.evaluation.cost < m.activity.cost) :
    Advances m n := by
  refine Or.inr ?_
  simp only [ranks, frames', suspended, stackRanks, ranksUnder_floor floor]
  simp only [frames, List.reverse_cons, List.append_assoc]
  exact List.Lex.append_left _ (.rel (Rank.below_of_cost rfl (Nat.le_refl _) less)) _

/-- Frames are left, and the others have to do what they had. -/
theorem Advances.of_left {gone left : List Rank} (some : gone ≠ [])
    (before : stackRanks m.activity.cost m.frames m.suspended = gone ++ left)
    (after : stackRanks n.activity.cost n.frames n.suspended = left) : Advances m n := by
  refine Or.inr ?_
  rw [ranks, ranks, before, after, List.reverse_append]
  obtain ⟨last, inner, is⟩ := List.exists_cons_of_ne_nil (List.reverse_ne_nil_iff.mpr some)
  have lower := List.Lex.append_left Rank.Below (List.Lex.nil (a := last) (l := inner)) left.reverse
  rwa [List.append_nil, ← is] at lower

end

/-! ## Programs without open-ended loops -/

end Machine

/-- No shape opens the body of a forever or of a repeat until. -/
def Loopless (S : ChainId → List Shape) : Prop :=
  ∀ (id : ChainId) (index : Nat) (flow : Flow) (middle : Option Nat) (close : Nat),
    (S id)[index]? = some (.opener flow middle close) → flow ≠ .forever ∧ flow ≠ .repeatUntil

/-- Behind the end of its body, a frame has no more blocks left than before it. -/
theorem Frame.Opens.fewer {f : Frame} {shapes : List Shape} {flow : Flow} {middle : Option Nat}
    {opener close : Nat} (opens : f.Opens shapes flow middle opener close) :
    f.stop - (close + 1) ≤ f.stop - f.next := by
  have inside := (opens.after.of_opener opens.within opens.shape).1
  have next := opens.next
  omega

/-- The frames of such a program are not those of open-ended loops. -/
theorem Stacked.loopless {S : ChainId → List Shape} {wanted : Option Purpose} {f : Frame}
    {rest : List Frame} {depth : Nat} {suspended : List Suspension}
    (h : Stacked S wanted (f :: rest) depth suspended) (loopless : Loopless S) :
    f.kind ≠ .forever ∧ ∀ opener, f.kind ≠ .untilHolds opener := by
  constructor
  · intro kind
    obtain ⟨g, flow, middle, close, -, lies⟩ := h.lies_on (by rw [kind]; rfl)
    have runs := lies.kind
    have none := loopless _ _ _ _ _ lies.shape
    rw [kind] at runs
    cases flow with
    | forever => exact none.1 rfl
    | _ => exact runs
  · intro opener kind
    obtain ⟨g, flow, middle, close, -, lies⟩ := h.lies_on (by rw [kind]; rfl)
    have runs := lies.kind
    have none := loopless _ _ _ _ _ lies.shape
    rw [kind] at runs
    cases flow with
    | repeatUntil => exact none.2 rfl
    | _ => exact runs

namespace Machine

section

variable {S : ChainId → List Shape} {m n : Machine} {wanted : Option Purpose} {f : Frame}
  {rest : List Frame} {around : Evaluation} {value : Value}

/-! ## Frames that are left -/

/-- A machine that has left frames goes on among those that are below, or it is over. -/
theorem advances_of_left {gone : List Rank} (left : Left S n.frames n.depth n.suspended)
    (some : gone ≠ []) (before : stackRanks m.activity.cost m.frames m.suspended =
      gone ++ ranksUnder n.frames n.suspended) : Advances m n.schedule := by
  rcases left.split with ⟨frames, -, suspended⟩ | stack | ⟨s, outer, suspended, floor, -⟩
  · refine Or.inl ?_
    rw [move_scheduling rfl, dispatch_gone (m := n.schedule) frames suspended]
    rfl
  · exact .of_left some before (ranksUnder_above stack.floor_lt).symm
  · refine Or.inl ?_
    rw [move_scheduling rfl, dispatch_missing (m := n.schedule) suspended floor]
    rfl

theorem advances_pop (stands : m.Stands S wanted) : Advances m m.pop.schedule := by
  obtain ⟨f, rest, frames⟩ := stands.cons
  refine advances_of_left stands.pop (List.cons_ne_nil (f.rank m.activity.cost) []) ?_
  rw [frames_pop frames, suspended_pop, frames]
  rfl

/-- A return leaves the frames up to the first boundary. -/
theorem stackRanks_leave {frames : List Frame} (stands : m.Stands S wanted)
    (is : m.frames = frames) (cost : Nat) :
    ∃ gone, gone ≠ [] ∧ stackRanks cost frames m.suspended =
      gone ++ ranksUnder (m.leave frames).frames (m.leave frames).suspended := by
  rw [suspended_leave]
  induction frames generalizing m wanted cost with
  | nil => exact absurd is stands.ne_nil
  | cons f rest ih =>
    by_cases boundary : f.kind.isBoundary
    · refine ⟨[f.rank cost], List.cons_ne_nil _ _, ?_⟩
      rw [leave_boundary boundary, frames_pop is]
      rfl
    · have inner : f.kind.isBoundary = false := by simpa using boundary
      have below := stands.pop_inner is inner
      obtain ⟨gone, some, same⟩ := ih below (frames_pop is) 0
      refine ⟨f.rank cost :: gone, List.cons_ne_nil _ _, ?_⟩
      have above := below.floor_lt
      rw [frames_pop is, suspended_pop] at above
      rw [suspended_pop] at same
      rw [leave_inner inner, List.cons_append, ← same, stackRanks, ranksUnder_above above]

theorem advances_giveBack (stands : m.Stands S wanted) (value : Value) :
    Advances m (m.giveBack value) := by
  obtain ⟨gone, some, before⟩ := stackRanks_leave stands rfl m.activity.cost
  have left := stands.leave rfl
  unfold giveBack
  generalize m.leave m.frames = n at left before
  simp only [show n.floor = floorOf n.suspended from rfl]
  rcases left.split with ⟨frames, -, suspended⟩ | stack | ⟨s, outer, suspended, floor, -⟩
  · rw [if_neg (by simp [frames]), suspended]
    exact advances_finish m n _
  · rw [if_pos stack.floor_lt]
    exact advances_of_left left some before
  · rw [if_neg (by simp [suspended, floorOf, floor]), suspended]
    rw [suspended, ranksUnder_floor floor] at before
    exact .of_left some before rfl

/-! ## Evaluations -/

/-- The same frames have less work in the innermost evaluation. -/
theorem Stands.advances (stands : m.Stands S wanted) (frames : n.frames = m.frames)
    (suspended : n.suspended = m.suspended) (less : n.activity.cost < m.activity.cost) :
    Advances m n := by
  obtain ⟨f, rest, is⟩ := stands.cons
  exact .of_top is (frames.trans is) suspended (Rank.below_of_cost rfl (Nat.le_refl _) less)

theorem advances_gather (stands : m.Stands S wanted) {callee : Callee} {values : List Value}
    {purpose : Purpose} {outer : List PendingCall} {arguments : List Expr}
    (less : 1 + Expr.costs arguments + (Evaluation.mk purpose outer).cost ≤ m.activity.cost) :
    Advances m (m.gather callee values purpose outer arguments) := by
  cases arguments with
  | nil =>
    refine stands.advances rfl rfl (Nat.lt_of_lt_of_le ?_ less)
    simp only [gather, Activity.cost, Expr.costs]
    omega
  | cons e rest =>
    refine stands.advances rfl rfl (Nat.lt_of_lt_of_le ?_ less)
    simp only [gather, Activity.cost, Evaluation.cost, Expr.costs, List.foldr_cons]
    omega

theorem advances_returned (stands : m.Stands S wanted) (less : around.cost < m.activity.cost)
    (definition : String) (result : Option Value) :
    Advances m (m.returned definition result around) := by
  cases result with
  | some value => exact stands.advances rfl rfl less
  | none =>
    rw [returned_none]
    split
    · exact advances_finish m m _
    · exact stands.advances rfl rfl (Nat.zero_lt_of_lt less)

theorem advances_enterProcedure (stands : m.Stands S wanted) {waits : Option Evaluation}
    (less : waits.elim 0 Evaluation.cost < m.activity.cost) (definition : String)
    (body : ChainId) (parameters : List String) (arguments : List Value) :
    Advances m (m.enterProcedure definition body parameters arguments waits) := by
  obtain ⟨f, rest, frames⟩ := stands.cons
  unfold enterProcedure
  split
  · exact advances_finish m m _
  · split
    · exact advances_finish m m _
    · next plan _ =>
      cases waits with
      | none =>
        refine .of_entered stands.floor_lt frames (h := .enter plan 0 plan.ops.size .procedure)
          ?_ rfl (Rank.below_of_cost rfl (Nat.le_refl _) less)
        simp only [schedule, frames_push, frames]
      | some around =>
        refine .of_suspended frames (h := .enter plan 0 plan.ops.size .procedure)
          (s := ⟨definition, m.frames.length, around⟩) ?_ ?_ rfl less
        · simp only [schedule, frames_push]
        · simp only [schedule, suspended_push]
          rfl

/-- What a native function changes has nothing to do with the frames. -/
theorem Advances.of_within {s : Surroundings} (h : Advances (m.within s) n) : Advances m n := h

theorem advances_call (stands : m.Stands S wanted) (less : 1 + around.cost < m.activity.cost)
    (callee : Callee) (arguments : List Value) : Advances m (m.call arguments around callee) := by
  have less' : around.cost < m.activity.cost := by omega
  cases callee with
  | native definition function =>
    rw [call_native]
    have within : (m.within (function m.surroundings arguments).2).Stands S wanted := stands
    refine Advances.of_within (s := (function m.surroundings arguments).2) ?_
    cases (function m.surroundings arguments).1 with
    | returned value => exact advances_returned within less' definition value
    | failed error => exact advances_finish _ _ _
    | panicked message => exact .of_isOver rfl
    | waiting wait value => exact within.advances rfl rfl less
  | procedure definition body parameters =>
    rw [call_procedure]
    refine advances_enterProcedure stands ?_ definition body parameters arguments
    split
    · exact less'
    · exact Nat.zero_lt_of_lt less

/-! ## Blocks -/

/-- The block that opens a body is done. -/
theorem advances_skip (frames : m.frames = f :: rest) {shapes : List Shape} {flow : Flow}
    {middle : Option Nat} {opener close : Nat} (opens : f.Opens shapes flow middle opener close)
    (works : 0 < m.activity.cost) : Advances m (m.jumpPast close).schedule := by
  refine .of_top frames (frames_updateTop frames _) ?_ (Rank.below_of_cost ?_ opens.fewer works)
  · exact suspended_updateTop _
  · rfl

/-- A body is entered. -/
theorem advances_body (above : floorOf m.suspended < m.frames.length)
    (frames : m.frames = f :: rest) {shapes : List Shape} {flow : Flow} {middle : Option Nat}
    {opener close : Nat} (opens : f.Opens shapes flow middle opener close)
    (works : 0 < m.activity.cost) (first stop : Nat) (kind : FrameKind) :
    Advances m ((m.jumpPast close).pushBody first stop kind).schedule := by
  have past : (m.jumpPast close).frames = { f with next := close + 1 } :: rest :=
    frames_updateTop frames _
  rw [pushBody_eq past]
  refine .of_entered above frames (h := .enter f.plan first stop kind)
    (g := { f with next := close + 1 }) ?_ ?_ (Rank.below_of_cost ?_ opens.fewer works)
  · simp only [schedule, frames_push, past]
  · simp only [schedule, suspended_push, jumpPast, suspended_updateTop]
  · rfl

theorem advances_conclude (loopless : Loopless S) {purpose : Purpose}
    (stands : m.Stands S (some purpose)) (works : 0 < m.activity.cost) (value : Value) :
    Advances m (m.conclude value purpose) := by
  obtain ⟨f, rest, frames⟩ := stands.cons
  have stack : Stacked S (some purpose) (f :: rest) m.depth m.suspended := frames ▸ stands
  have above := stands.floor_lt
  cases purpose with
  | statement => exact stands.advances rfl rfl works
  | times opener close =>
    have opens : f.Opens (S f.plan.chain) .repeatTimes none opener close := stack.fits.sits
    cases number : value.expectNumber with
    | error e =>
      rw [conclude_times_error number]
      exact advances_finish m m _
    | ok x =>
      rw [conclude_times number]
      split
      · exact advances_skip frames opens works
      · exact advances_body above frames opens works _ _ _
  | firstTest opener close =>
    have opens : f.Opens (S f.plan.chain) .repeatUntil none opener close := stack.fits.sits
    exact absurd rfl (loopless _ _ _ _ _ opens.shape).2
  | retest =>
    obtain ⟨-, opener, kind⟩ := stack.fits.sits
    exact absurd kind ((stack.loopless loopless).2 opener)
  | branch opener middle close =>
    have opens : f.Opens (S f.plan.chain) .ifThen middle opener close := stack.fits.sits
    rw [conclude_branch]
    split
    · exact advances_body above frames opens works _ _ _
    · exact advances_skip frames opens works
  | giveBack => exact advances_giveBack stands value

theorem advances_performNext (loopless : Loopless S) (stands : m.Stands S none)
    (frames : m.frames = f :: rest) (more : f.next < f.stop) : Advances m (m.performNext f) := by
  have stack : Stacked S none (f :: rest) m.depth m.suspended := frames ▸ stands
  obtain ⟨op, shape, hop, hshape, fits, -⟩ := stack.next_block more
  have begun := frames_beginNext frames
  have fewer (activity : Activity) :
      Advances m { m.beginNext with activity := activity } := by
    refine .of_top frames (g := { f with next := f.next + 1, current := f.next }) begun
      suspended_beginNext (Rank.below_of_blocks ?_ ?_ _ _)
    · rfl
    show f.stop - (f.next + 1) < f.stop - f.next
    omega
  rw [performNext_some hop]
  cases fits with
  | hat | otherwise | close => exact fewer .scheduling
  | statement | giveBack | repeatTimes | repeatUntil | ifThen => exact fewer (.evaluating _ _)
  | forever => exact absurd rfl (loopless _ _ _ _ _ hshape).1

theorem advances_endOfFrame (loopless : Loopless S) (stands : m.Stands S none)
    (frames : m.frames = f :: rest) : Advances m (m.endOfFrame f) := by
  have stack : Stacked S none (f :: rest) m.depth m.suspended := frames ▸ stands
  obtain ⟨notForever, notUntil⟩ := stack.loopless loopless
  unfold endOfFrame
  cases kind : f.kind with
  | root | procedure | branch => exact advances_pop stands
  | forever => exact absurd kind notForever
  | untilHolds opener => exact absurd kind (notUntil opener)
  | repeated remaining =>
    simp only
    split
    · next more =>
      refine .of_top frames (g := { f with kind := .repeated (remaining - 1), next := f.first })
        ?_ ?_ (Rank.below_of_passes ?_ _ _)
      · exact frames_updateTop (frames_updateTop frames _) _
      · exact (suspended_updateTop _).trans (suspended_updateTop _)
      · rw [kind]
        exact Nat.sub_lt (Nat.zero_lt_of_lt more) Nat.one_pos
    · exact advances_pop stands

theorem advances_dispatch (loopless : Loopless S) (left : Left S m.frames m.depth m.suspended) :
    Advances m m.dispatch := by
  rcases left.split with ⟨frames, -, suspended⟩ | stack | ⟨s, outer, suspended, floor, -⟩
  · rw [dispatch_gone frames suspended]
    exact advances_finish m m _
  · have above : m.floor < m.frames.length := stack.floor_lt
    cases stop : m.stop with
    | true =>
      rw [dispatch_stopped above stop]
      exact advances_finish m m _
    | false =>
      obtain ⟨f, rest, frames⟩ := List.exists_cons_of_ne_nil stack.ne_nil
      rw [dispatch_above above stop frames]
      split
      · exact advances_endOfFrame loopless stack frames
      · next more => exact advances_performNext loopless stack frames (Nat.lt_of_not_le more)
  · rw [dispatch_missing suspended floor]
    exact advances_finish m m _

/-- **A move leaves less to do.** -/
theorem advances_move (loopless : Loopless S) (framed : m.Framed S) : Advances m m.move := by
  have order := framed.order
  unfold InOrder at order
  have moves := m.moves
  generalize m.move = n at moves ⊢
  cases moves with
  | idle activity =>
    rw [activity] at order
    exact order.elim
  | halts halted => exact .of_isOver halted
  | dispatches activity =>
    rw [activity] at order
    exact advances_dispatch loopless order
  | gives activity =>
    rw [activity] at order
    refine Stands.advances order rfl rfl ?_
    rw [activity]
    exact Nat.lt_add_of_pos_left Nat.one_pos
  | applies activity =>
    rw [activity] at order
    refine advances_gather order (Nat.le_of_eq ?_)
    rw [activity, Activity.cost, Expr.cost_applied]
  | concludes activity =>
    rw [activity] at order
    refine advances_conclude loopless order ?_ _
    rw [activity]
    exact Nat.one_pos
  | delivers activity =>
    rw [activity] at order
    refine advances_gather order ?_
    rw [activity]
    simp only [Activity.cost, Evaluation.cost, List.foldr_cons]
    omega
  | calls activity =>
    rw [activity] at order
    refine advances_call order ?_ _ _
    rw [activity]
    exact Nat.add_lt_add_right (by decide) _
  | resumes activity =>
    rw [activity] at order
    refine advances_returned order ?_ _ _
    rw [activity]
    exact Nat.lt_add_of_pos_left Nat.one_pos

end

end Machine

/-! ## Runs of programs -/

/-- No block of a chain repeats its body for ever or until a condition holds. -/
def Program.Loopless (p : Program) : Prop :=
  ∀ c ∈ p.chains, ∀ b ∈ c.blocks, p.definitions.flow? b.definition ≠ some .forever ∧
    p.definitions.flow? b.definition ≠ some .repeatUntil

instance (p : Program) : Decidable p.Loopless :=
  inferInstanceAs (Decidable (∀ c ∈ p.chains, ∀ b ∈ c.blocks, _ ∧ _))

theorem Program.Loopless.shapes {p : Program} (h : p.Loopless) : Blockwork.Loopless p.shapes := by
  intro id index flow middle close there
  unfold Program.shapes at there
  cases found : p.chain? id with
  | none => simp [found] at there
  | some c =>
    cases shapes : c.shapes p.definitions with
    | error e => simp [found, shapes] at there
    | ok shapes' =>
      simp only [found, shapes] at there
      obtain ⟨length, -, suits⟩ := shapes_closed shapes
      have lt : index < c.blocks.length := by
        rw [List.length_map] at length
        rw [← length]
        exact (List.getElem?_eq_some_iff.mp there).1
      obtain ⟨shape, same, part⟩ := suits index (p.definitions.flow? c.blocks[index].definition)
        (by simp [lt])
      rw [there] at same
      cases same
      have none := h c (List.mem_of_find?_eq_some found) _ (List.getElem_mem lt)
      rw [part.1] at none
      exact ⟨fun is => none.1 (congrArg some is), fun is => none.2 (congrArg some is)⟩

namespace Machine

/-- A run whose moves leave less to do comes to its end. -/
theorem isOver_of_advances {m : Machine} {height : Nat}
    (advances : ∀ n, Reaches m n → Advances n n.move)
    (bounded : ∀ n, Reaches m n → n.frames.length ≤ height) : ∃ k, (move^[k] m).isOver := by
  have length (n : Machine) (reaches : Reaches m n) : n.ranks.length ≤ height := by
    rw [ranks, List.length_reverse, length_stackRanks]
    exact bounded n reaches
  have fromRanks (l : List Rank)
      (acc : Acc (fun l' l => l'.length ≤ height ∧ List.Lex Rank.Below l' l) l) :
      ∀ n, Reaches m n → n.ranks = l → ∃ k, (move^[k] n).isOver := by
    induction acc with
    | intro l _ ih =>
      rintro n reaches rfl
      rcases advances n reaches with ends | lower
      · exact ⟨2, ends⟩
      · obtain ⟨k, ends⟩ := ih _ ⟨length _ reaches.work, lower⟩ _ reaches.work rfl
        exact ⟨k + 1, ends⟩
  exact fromRanks _ (acc_lex Rank.wellFounded_below height _ (length m .refl)) m .refl rfl

/-- Only a native function breaks a run off. -/
theorem Framed.calm_move {S : ChainId → List Shape} {m : Machine} (h : m.Framed S)
    (calm : ∀ definition function arguments around,
      m.activity = .calling (.native definition function) arguments around →
        ∀ s message, (function s arguments).1 ≠ .panicked message)
    (unbroken : ∀ message, m.activity ≠ .panicked message) (message : String) :
    m.move.activity ≠ .panicked message := by
  have becomes {around : Evaluation} (works : m.activity.around? = some around) :
      m.move.activity ≠ .panicked message := by
    intro panicked
    cases becomes_move works (h.order.stands works) calm with
    | failed ended => simp [outcome?, panicked] at ended
    | returned ended _ _ => simp [outcome?, panicked] at ended
    | scheduling activity _ =>
      rw [panicked] at activity
      cases activity
    | inside inside _ =>
      have works' := inside.works
      rw [panicked] at works'
      cases works'
  have continues {n : Machine} (goes : n.isOver = false) : n.activity ≠ .panicked message := by
    intro panicked
    simp [isOver, panicked] at goes
  cases activity : m.activity with
  | idle =>
    have order := h.order
    rw [InOrder, activity] at order
    exact order.elim
  | scheduling =>
    rw [move_scheduling activity]
    unfold dispatch
    split
    · split <;> rintro ⟨⟩
    · split
      · rintro ⟨⟩
      · split
        · rintro ⟨⟩
        · split
          · exact continues (isOver_endOfFrame _)
          · exact continues (isOver_performNext _)
  | evaluating e around => exact becomes (by rw [activity]; rfl)
  | delivering value around => exact becomes (by rw [activity]; rfl)
  | calling callee arguments around => exact becomes (by rw [activity]; rfl)
  | waiting wait definition value around => exact becomes (by rw [activity]; rfl)
  | ended outcome =>
    rw [move_of_isOver (by simp [isOver, activity]), activity]
    rintro ⟨⟩
  | panicked message' => exact absurd activity (unbroken message')

end Machine

namespace Program

open Machine

variable {p : Program} {natives : NativeTable}

/-- A run is not broken off if no native function does so. -/
theorem calm_of_reaches (keeps : ∀ name f, natives.get? name = some f → f.KeepsScopes)
    (calm : ∀ name f, natives.get? name = some f →
      ∀ s arguments message, (f s arguments).1 ≠ .panicked message) {limit : Nat}
    {output : Output} {chain : ChainId} {m : Machine}
    (reaches : Reaches ((ofProgram p natives limit output).start chain) m) :
    ∀ message, m.activity ≠ .panicked message := by
  have start : ∀ message,
      ((ofProgram p natives limit output).start chain).activity ≠ .panicked message := by
    unfold start
    split <;> rintro _ ⟨⟩
  refine (reaches.keeps (P := fun n => Reaches ((ofProgram p natives limit output).start chain) n ∧
    ∀ message, n.activity ≠ .panicked message) ⟨.refl, start⟩ ?_ ?_).2
  · rintro n ⟨on, unbroken⟩
    refine ⟨on.work, (framed_of_reaches keeps on).calm_move ?_ unbroken⟩
    intro definition function arguments around activity s message
    exact called_of_reaches calm on activity s arguments message
  · rintro n ⟨on, unbroken⟩
    exact ⟨on.stop, unbroken⟩

/-- **A program without open-ended loops comes to the end of all its runs,** whatever its procedures
call and however deep they may be nested. From every point of a run, also when stops are requested
on the way, finitely many moves lead to the end; and there is an outcome unless a native function
breaks the run off. -/
theorem terminates (loopless : p.Loopless)
    (keeps : ∀ name f, natives.get? name = some f → f.KeepsScopes) (limit : Nat) (output : Output)
    (chain : ChainId) (m : Machine)
    (reaches : Reaches ((ofProgram p natives limit output).start chain) m) :
    ∃ k, (move^[k] m).isOver ∧
      ((∀ name f, natives.get? name = some f →
          ∀ s arguments message, (f s arguments).1 ≠ .panicked message) →
        ∃ outcome, (move^[k] m).outcome? = some outcome) := by
  have framed (n : Machine) (on : Reaches m n) : n.Framed p.shapes :=
    framed_of_reaches keeps (reaches.trans on)
  have bounded (n : Machine) (on : Reaches m n) :
      n.frames.length ≤ (m.depthLimit + 1) * (1 + p.nesting) := by
    rw [← on.plans.2]
    exact (framed n on).nested.height
  obtain ⟨k, ends⟩ :=
    isOver_of_advances (fun n on => advances_move loopless.shapes (framed n on)) bounded
  refine ⟨k, ends, fun calm => ?_⟩
  have unbroken := calm_of_reaches keeps calm (reaches.trans (reaches_iterate m k))
  unfold isOver at ends
  split at ends
  · next outcome activity => exact ⟨outcome, by rw [outcome?, activity]⟩
  · next message activity => exact absurd activity (unbroken message)
  · cases ends

/-- A program that repeats a procedure, which calls itself twice: in a repeat, and for its value. -/
def recurring : Program where
  definitions := Registry.builtins.insert (.procedure "recur" [])
  globals := .empty
  chains :=
    [⟨0, Chain.origin, [⟨"on_start", []⟩, ⟨"repeat", [.literal (.text "3")]⟩, ⟨"recur", []⟩,
        ⟨"end", []⟩]⟩,
      ⟨1, Chain.origin, [⟨"define", [.definition (.procedure "recur" [])]⟩,
        ⟨"repeat", [.literal (.text "2")]⟩, ⟨"recur", []⟩, ⟨"end", []⟩,
        ⟨"return", [.block "recur" []]⟩]⟩]

/-- Runs of a program whose recursion only the limit cuts off. -/
theorem terminates_recurring :
    recurring.Loopless ∧
      (∀ name f, Native.standard.get? name = some f → f.KeepsScopes) ∧
      ∀ limit, ∃ k outcome,
        (move^[k] ((ofProgram recurring Native.standard limit .unlimited).start 0)).outcome? =
          some outcome := by
  have loopless : recurring.Loopless := by decide +kernel
  have keeps (name : String) (f : Native) (known : Native.standard.get? name = some f) :
      f.KeepsScopes := (Native.harmless_standard known).scopes
  refine ⟨loopless, keeps, fun limit => ?_⟩
  obtain ⟨k, -, ends⟩ := terminates loopless keeps limit .unlimited 0 _ .refl
  exact ⟨k, ends fun _ _ known => (Native.harmless_standard known).cooperative.calm⟩

end Program

end Blockwork
