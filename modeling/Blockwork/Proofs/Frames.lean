import Blockwork.Proofs.Resolution
import Blockwork.Proofs.Runs
import Blockwork.Proofs.Trees

/-!
# Frames that lie on each other

The frames of a run mirror the bodies of its chains. At the bottom is the chain that was asked for;
a body lies on the frame that it stands in, which waits behind the end of the body; the body of a
procedure lies on the frame that called it.

## Main statements

* `Stacked.pop`: what is left when the innermost frame is left.
* `Stacked.length_le`: how many frames there can be.

A frame whose block waits for a value has not moved past the body of the block yet, so where a frame
stands depends on what the value is wanted for (`Frame.Sits`).
-/

namespace Blockwork

/-! ## Where a frame stands -/

namespace Frame

variable (shapes : List Shape)

/-- Between two blocks, none of whose bodies is cut in two. -/
def Rests (f : Frame) : Prop := Closed shapes f.first f.next ∧ Closed shapes f.next f.stop

/-- At a block that opens a body, before the body. -/
structure Opens (f : Frame) (flow : Flow) (middle : Option Nat) (opener close : Nat) : Prop where
  shape : shapes[opener]? = some (.opener flow middle close)
  current : f.current = opener
  next : f.next = opener + 1
  before : Closed shapes f.first opener
  within : opener < f.stop
  after : Closed shapes opener f.stop

/-- Where a frame stands while the value of an expression is wanted, or when none is. -/
def Sits (f : Frame) : Option Purpose → Prop
  | none | some .statement | some .giveBack => f.Rests shapes
  | some (.times opener close) => f.Opens shapes .repeatTimes none opener close
  | some (.firstTest opener close) => f.Opens shapes .repeatUntil none opener close
  | some (.branch opener middle close) => f.Opens shapes .ifThen middle opener close
  | some .retest => f.Rests shapes ∧ ∃ opener, f.kind = .untilHolds opener

end Frame

/-- A frame of the kind runs a body that is opened so. -/
def FrameKind.Runs : FrameKind → Flow → Nat → Prop
  | .repeated remaining, .repeatTimes, _ => 1 ≤ remaining
  | .untilHolds opener, .repeatUntil, opener' => opener = opener'
  | .forever, .forever, _ | .branch, .ifThen, _ => True
  | _, _, _ => False

/-- The blocks from `first` to `stop` are a body of the opener. -/
def IsBody (opener : Nat) (middle : Option Nat) (close first stop : Nat) : Prop :=
  match middle with
  | none => first = opener + 1 ∧ stop = close
  | some split => first = opener + 1 ∧ stop = split ∨ first = split + 1 ∧ stop = close

/-- An if runs one of its bodies. -/
theorem isBody_of_chosenBranch {holds : Bool} {opener close first stop : Nat} {middle : Option Nat}
    (h : Machine.chosenBranch holds opener middle close = some (first, stop)) :
    IsBody opener middle close first stop := by
  cases middle with
  | none =>
    cases holds with
    | true => cases h; exact ⟨rfl, rfl⟩
    | false => cases h
  | some split =>
    cases holds with
    | true => cases h; exact Or.inl ⟨rfl, rfl⟩
    | false => cases h; exact Or.inr ⟨rfl, rfl⟩

/-- A body lies between its opener and its end. -/
theorem IsBody.between {shapes : List Shape} {flow : Flow} {opener close first stop stop' : Nat}
    {middle : Option Nat} (h : IsBody opener middle close first stop)
    (after : Closed shapes opener stop') (within : opener < stop')
    (shape : shapes[opener]? = some (.opener flow middle close)) :
    opener < first ∧ first ≤ stop ∧ stop ≤ close ∧ close < stop' := by
  obtain ⟨lt, lt', -, -⟩ := after.of_opener within shape
  cases middle with
  | none =>
    obtain ⟨rfl, rfl⟩ := h
    exact ⟨Nat.lt_succ_self _, lt, Nat.le_refl _, lt'⟩
  | some split =>
    obtain ⟨-, inner, -, other, -, -⟩ := after.of_split within shape
    have := inner.le
    have := other.le
    rcases h with ⟨first, stop⟩ | ⟨first, stop⟩
    · omega
    · omega

/-- A frame is a body of the block of the frame below, which goes on behind the end of the body. -/
structure Frame.LiesOn (shapes : List Shape) (f g : Frame) (flow : Flow) (middle : Option Nat)
    (close : Nat) : Prop where
  plan : f.plan = g.plan
  shape : shapes[g.current]? = some (.opener flow middle close)
  kind : f.kind.Runs flow g.current
  body : IsBody g.current middle close f.first f.stop
  next : g.next = close + 1
  before : Closed shapes g.first g.current
  within : g.current < g.stop
  after : Closed shapes g.current g.stop

namespace Frame

variable {shapes : List Shape} {f g : Frame} {flow : Flow} {middle : Option Nat}
  {opener close first stop : Nat} {kind : FrameKind}

theorem Rests.ordered (h : f.Rests shapes) : f.first ≤ f.next ∧ f.next ≤ f.stop :=
  ⟨h.1.le, h.2.le⟩

theorem Opens.ordered (h : f.Opens shapes flow middle opener close) :
    f.first ≤ f.next ∧ f.next ≤ f.stop := by
  have := h.before.le
  have := h.within
  rw [h.next]
  omega

theorem Sits.ordered {wanted : Option Purpose} (h : f.Sits shapes wanted) :
    f.first ≤ f.next ∧ f.next ≤ f.stop := by
  cases wanted with
  | none => exact Rests.ordered h
  | some purpose =>
    cases purpose with
    | statement => exact Rests.ordered h
    | giveBack => exact Rests.ordered h
    | retest => exact Rests.ordered h.1
    | times opener close => exact Opens.ordered h
    | firstTest opener close => exact Opens.ordered h
    | branch opener middle close => exact Opens.ordered h

/-- Behind the end of its body, the frame rests. -/
theorem Opens.past (h : f.Opens shapes flow middle opener close) :
    Rests shapes { f with next := close + 1 } := by
  obtain ⟨-, -, whole, rest⟩ := h.after.of_opener h.within h.shape
  exact ⟨h.before.append whole, rest⟩

/-- A body is closed. -/
theorem Opens.body_closed (h : f.Opens shapes flow middle opener close)
    (body : IsBody opener middle close first stop) : Closed shapes first stop := by
  cases middle with
  | none =>
    obtain ⟨rfl, rfl⟩ := body
    exact (h.after.of_body h.within h.shape).1
  | some split =>
    obtain ⟨-, inner, -, other, -, -⟩ := h.after.of_split h.within h.shape
    rcases body with ⟨rfl, rfl⟩ | ⟨rfl, rfl⟩
    · exact inner
    · exact other

/-- A body that is entered lies on the frame of its opener. -/
theorem Opens.liesOn (h : f.Opens shapes flow middle opener close) (runs : kind.Runs flow opener)
    (body : IsBody opener middle close first stop) :
    LiesOn shapes (.enter f.plan first stop kind) { f with next := close + 1 } flow middle
      close := by
  have current := h.current
  refine ⟨rfl, ?_, ?_, ?_, rfl, ?_, ?_, ?_⟩
  · rw [current]; exact h.shape
  · rw [current]; exact runs
  · rw [current]; exact body
  · rw [current]; exact h.before
  · rw [current]; exact h.within
  · rw [current]; exact h.after

/-- The range of the frame below contains the body with its opener and its end. -/
theorem LiesOn.contained (h : f.LiesOn shapes g flow middle close) :
    g.first ≤ g.current ∧ g.current < f.first ∧ f.stop ≤ close ∧ close < g.stop := by
  obtain ⟨first, -, stop, close⟩ := h.body.between h.after h.within h.shape
  exact ⟨h.before.le, first, stop, close⟩

/-- The end of the body. -/
theorem LiesOn.close_shape (h : f.LiesOn shapes g flow middle close) :
    shapes[close]? = some (.close g.current) := by
  have shape := h.shape
  cases middle with
  | none => exact (h.after.of_body h.within shape).2.1
  | some split => exact (h.after.of_split h.within shape).2.2.2.2.1

/-- Where a frame stands in its row does not matter to the frame below. -/
theorem LiesOn.change {f' : Frame} (h : f.LiesOn shapes g flow middle close)
    (plan : f'.plan = f.plan) (first : f'.first = f.first) (stop : f'.stop = f.stop)
    (kind : f'.kind.Runs flow g.current) : f'.LiesOn shapes g flow middle close :=
  ⟨plan.trans h.plan, h.shape, kind, by rw [first, stop]; exact h.body, h.next, h.before, h.within,
    h.after⟩

theorem LiesOn.kind_isBoundary (h : f.LiesOn shapes g flow middle close) :
    f.kind.isBoundary = false := by
  have runs := h.kind
  cases kind : f.kind with
  | root => rw [kind] at runs; exact runs.elim
  | procedure => rw [kind] at runs; exact runs.elim
  | _ => rfl

/-- Bodies are nested less deep in a body than in the frame below. -/
theorem LiesOn.depth_lt (h : f.LiesOn shapes g flow middle close) :
    Tree.depth (Tree.read shapes f.first f.stop) <
      Tree.depth (Tree.read shapes g.first g.stop) := by
  obtain ⟨-, lt, whole, rest⟩ := h.after.of_opener h.within h.shape
  have body := h.body
  have shape := h.shape
  rw [Tree.read_append h.before h.after, Tree.read_append whole rest, Tree.depth_append,
    Tree.depth_append]
  cases middle with
  | none =>
    obtain ⟨first, stop⟩ := body
    have inner := (h.after.of_body h.within shape).1.le
    rw [Tree.read_body shape (by omega) (by omega), Tree.depth, Tree.height, first, stop]
    omega
  | some split =>
    obtain ⟨-, inner, -, other, -, -⟩ := h.after.of_split h.within shape
    have := inner.le
    have := other.le
    rw [Tree.read_split shape (by omega) (by omega) (by omega), Tree.depth, Tree.height]
    rcases body with ⟨first, stop⟩ | ⟨first, stop⟩
    · rw [first, stop]
      omega
    · rw [first, stop]
      omega

end Frame

/-! ## Stacks of frames -/

section

variable (S : ChainId → List Shape)

/-- The plan of a frame follows the shapes of its chain, and the frame stands where it can. -/
structure Frame.Fits (f : Frame) (wanted : Option Purpose) : Prop where
  plan : f.plan.Bracketed (S f.plan.chain)
  sits : f.Sits (S f.plan.chain) wanted

/-- The frame runs all of its chain. -/
def Frame.Whole (f : Frame) : Prop := f.first = 0 ∧ f.stop = f.plan.ops.size

/-- The frames of a run, with the number of procedures that are called and the evaluations that wait
for one. On top a value may be wanted. -/
inductive Stacked : Option Purpose → List Frame → Nat → List Suspension → Prop where
  | root {wanted : Option Purpose} {f : Frame} (kind : f.kind = .root) (whole : f.Whole)
      (fits : f.Fits S wanted) : Stacked wanted [f] 0 []
  | body {wanted : Option Purpose} {f g : Frame} {rest : List Frame} {depth : Nat}
      {suspended : List Suspension} {flow : Flow} {middle : Option Nat} {close : Nat}
      (lies : f.LiesOn (S f.plan.chain) g flow middle close) (fits : f.Fits S wanted)
      (below : Stacked none (g :: rest) depth suspended) :
      Stacked wanted (f :: g :: rest) depth suspended
  | statement {wanted : Option Purpose} {f : Frame} {rest : List Frame} {depth : Nat}
      {suspended : List Suspension} (kind : f.kind = .procedure) (whole : f.Whole)
      (fits : f.Fits S wanted) (below : Stacked none rest depth suspended) :
      Stacked wanted (f :: rest) (depth + 1) suspended
  | value {wanted : Option Purpose} {f : Frame} {rest : List Frame} {depth : Nat}
      {s : Suspension} {outer : List Suspension} (kind : f.kind = .procedure) (whole : f.Whole)
      (fits : f.Fits S wanted) (floor : s.floor = rest.length)
      (below : Stacked (some s.evaluation.purpose) rest depth outer) :
      Stacked wanted (f :: rest) (depth + 1) (s :: outer)

/-- The frames of a run that looks what to do next. -/
inductive Left : List Frame → Nat → List Suspension → Prop where
  /-- The chain that was asked for has been left. -/
  | gone : Left [] 0 []
  | inside {frames : List Frame} {depth : Nat} {suspended : List Suspension}
      (stack : Stacked S none frames depth suspended) : Left frames depth suspended
  /-- The procedure that an evaluation waits for has been left. -/
  | value {frames : List Frame} {depth : Nat} {s : Suspension} {outer : List Suspension}
      (floor : s.floor = frames.length)
      (stack : Stacked S (some s.evaluation.purpose) frames depth outer) :
      Left frames depth (s :: outer)

end

theorem Left.split {S : ChainId → List Shape} {frames : List Frame} {depth : Nat}
    {suspended : List Suspension} (h : Left S frames depth suspended) :
    (frames = [] ∧ depth = 0 ∧ suspended = []) ∨ Stacked S none frames depth suspended ∨
      ∃ s outer, suspended = s :: outer ∧ s.floor = frames.length ∧
        Stacked S (some s.evaluation.purpose) frames depth outer := by
  cases h with
  | gone => exact Or.inl ⟨rfl, rfl, rfl⟩
  | inside stack => exact Or.inr (Or.inl stack)
  | value floor stack => exact Or.inr (Or.inr ⟨_, _, rfl, floor, stack⟩)

namespace Stacked

variable {S : ChainId → List Shape} {wanted : Option Purpose} {f g : Frame}
  {rest frames : List Frame}
  {depth : Nat} {suspended : List Suspension}

theorem ne_nil (h : Stacked S wanted frames depth suspended) : frames ≠ [] := by
  cases h <;> exact List.cons_ne_nil _ _

theorem fits (h : Stacked S wanted (f :: rest) depth suspended) : f.Fits S wanted := by
  cases h <;> assumption

/-- The run goes on among the frames above the floor. -/
theorem floor_lt (h : Stacked S wanted frames depth suspended) :
    floorOf suspended < frames.length := by
  induction h with
  | root => exact Nat.one_pos
  | body _ _ _ ih => exact Nat.lt_succ_of_lt ih
  | statement _ _ _ _ ih => exact Nat.lt_succ_of_lt ih
  | value _ _ _ floor _ => simp [floorOf, floor]

/-- The innermost frame may move within its row. -/
theorem change {wanted' : Option Purpose} (h : Stacked S wanted (f :: rest) depth suspended)
    (same : g.plan = f.plan ∧ g.first = f.first ∧ g.stop = f.stop ∧ g.kind = f.kind)
    (sits : g.Sits (S g.plan.chain) wanted') : Stacked S wanted' (g :: rest) depth suspended := by
  obtain ⟨plan, first, stop, kind⟩ := same
  have fits : g.Fits S wanted' := ⟨plan ▸ h.fits.plan, sits⟩
  have keeps (whole : f.Whole) : g.Whole := by
    rw [Frame.Whole, first, stop, plan]
    exact whole
  cases h with
  | root is whole _ => exact .root (kind.trans is) (keeps whole) fits
  | body lies _ below =>
    rw [← plan] at lies
    exact .body (lies.change plan first stop (kind ▸ lies.kind)) fits below
  | statement is whole _ below => exact .statement (kind.trans is) (keeps whole) fits below
  | value is whole _ floor below => exact .value (kind.trans is) (keeps whole) fits floor below

/-- A block that opens a body is done: the frame goes on behind the end of the body. -/
theorem skip (h : Stacked S wanted (f :: rest) depth suspended)
    (same : g.plan = f.plan ∧ g.first = f.first ∧ g.stop = f.stop ∧ g.kind = f.kind) {flow : Flow}
    {middle : Option Nat} {opener close : Nat}
    (opens : g.Opens (S g.plan.chain) flow middle opener close) :
    Stacked S none ({ g with next := close + 1 } :: rest) depth suspended :=
  h.change same opens.past

/-- The body of a block is entered. -/
theorem enter (h : Stacked S wanted (f :: rest) depth suspended)
    (same : g.plan = f.plan ∧ g.first = f.first ∧ g.stop = f.stop ∧ g.kind = f.kind) {flow : Flow}
    {middle : Option Nat} {opener close first stop : Nat} {kind : FrameKind}
    (opens : g.Opens (S g.plan.chain) flow middle opener close) (runs : kind.Runs flow opener)
    (body : IsBody opener middle close first stop) :
    Stacked S none (.enter g.plan first stop kind :: { g with next := close + 1 } :: rest) depth
      suspended :=
  .body (opens.liesOn runs body)
    ⟨same.1 ▸ h.fits.plan, ⟨.nil _, opens.body_closed body⟩⟩ (h.skip same opens)

/-- A loop that counts goes on with one pass less. -/
theorem countDown {remaining : Nat} (h : Stacked S wanted (f :: rest) depth suspended)
    (kind : f.kind = .repeated remaining) (more : 1 < remaining)
    (sits : ({ f with kind := .repeated (remaining - 1), next := f.first } : Frame).Sits
      (S f.plan.chain) none) :
    Stacked S none
      ({ f with kind := .repeated (remaining - 1), next := f.first } :: rest) depth suspended := by
  have plan := h.fits.plan
  cases h with
  | root is _ _ => rw [kind] at is; cases is
  | @body _ _ _ _ _ _ flow _ _ lies _ below =>
    refine .body (lies.change rfl rfl rfl ?_) ⟨plan, sits⟩ below
    have runs := lies.kind
    rw [kind] at runs
    cases flow with
    | repeatTimes => exact Nat.le_sub_one_of_lt more
    | _ => exact runs.elim
  | statement is _ _ _ => rw [kind] at is; cases is
  | value is _ _ _ _ => rw [kind] at is; cases is

/-- The next block of a row is there, and it is neither an else nor an end. -/
theorem next_block (h : Stacked S none (f :: rest) depth suspended) (more : f.next < f.stop) :
    ∃ op shape, f.plan.ops[f.next]? = some op ∧ (S f.plan.chain)[f.next]? = some shape ∧
      op.Fits shape ∧
        (shape = .plain ∨ ∃ flow middle close, shape = .opener flow middle close) := by
  obtain ⟨before, after⟩ : f.Rests (S f.plan.chain) := h.fits.sits
  rcases after.first_shape more with shape | ⟨flow, middle, close, shape⟩
  · obtain ⟨op, hop, fits⟩ := h.fits.plan.fits _ _ shape
    exact ⟨op, _, hop, shape, fits, Or.inl rfl⟩
  · obtain ⟨op, hop, fits⟩ := h.fits.plan.fits _ _ shape
    exact ⟨op, _, hop, shape, fits, Or.inr ⟨flow, middle, close, rfl⟩⟩

/-- A block that is begun next may open a body. -/
theorem opens_next (h : Stacked S none (f :: rest) depth suspended) (more : f.next < f.stop)
    {flow : Flow} {middle : Option Nat} {close : Nat}
    (shape : (S f.plan.chain)[f.next]? = some (.opener flow middle close)) :
    Frame.Opens (S f.plan.chain) { f with next := f.next + 1, current := f.next } flow middle f.next
      close := by
  obtain ⟨before, after⟩ : f.Rests (S f.plan.chain) := h.fits.sits
  exact ⟨shape, rfl, rfl, before, more, after⟩

/-- What is left when the innermost frame is left. -/
theorem pop (h : Stacked S wanted (f :: rest) depth suspended) :
    Left S rest (if f.kind = .procedure then depth - 1 else depth) suspended := by
  cases h with
  | root kind _ _ =>
    rw [kind]
    exact .gone
  | body lies _ below =>
    have inner := lies.kind_isBoundary
    rw [if_neg (by intro kind; rw [kind] at inner; cases inner)]
    exact .inside below
  | statement kind _ _ below =>
    rw [if_pos kind]
    exact .inside below
  | value kind _ _ floor below =>
    rw [if_pos kind]
    exact .value floor below

/-- What is left when a body is left is the frame that it lies on. -/
theorem pop_inner (h : Stacked S wanted (f :: rest) depth suspended)
    (inner : f.kind.isBoundary = false) : Stacked S none rest depth suspended := by
  cases h with
  | root kind _ _ => rw [kind] at inner; cases inner
  | body _ _ below => exact below
  | statement kind _ _ _ => rw [kind] at inner; cases inner
  | value kind _ _ _ _ => rw [kind] at inner; cases inner

/-! ## What holds of all frames -/

/-- Frames stay in their rows, and rows in their chains. -/
theorem in_range (h : Stacked S wanted frames depth suspended) :
    ∀ f ∈ frames, f.first ≤ f.next ∧ f.next ≤ f.stop ∧ f.stop ≤ f.plan.ops.size := by
  induction h with
  | root kind whole fits =>
    rintro f mem
    obtain rfl := List.mem_singleton.mp mem
    exact ⟨fits.sits.ordered.1, fits.sits.ordered.2, Nat.le_of_eq whole.2⟩
  | @body _ f g _ _ _ _ _ _ lies fits below ih =>
    intro x mem
    rcases List.mem_cons.mp mem with rfl | mem
    · refine ⟨fits.sits.ordered.1, fits.sits.ordered.2, ?_⟩
      have outer := (ih g List.mem_cons_self).2.2
      have inside := lies.contained
      rw [lies.plan]
      omega
    · exact ih x mem
  | statement kind whole fits below ih =>
    intro x mem
    rcases List.mem_cons.mp mem with rfl | mem
    · exact ⟨fits.sits.ordered.1, fits.sits.ordered.2, Nat.le_of_eq whole.2⟩
    · exact ih x mem
  | value kind whole fits floor below ih =>
    intro x mem
    rcases List.mem_cons.mp mem with rfl | mem
    · exact ⟨fits.sits.ordered.1, fits.sits.ordered.2, Nat.le_of_eq whole.2⟩
    · exact ih x mem

/-- The frames below the innermost one. -/
theorem tail (h : Stacked S wanted (f :: rest) depth suspended) (more : rest ≠ []) :
    ∃ wanted' depth' suspended', Stacked S wanted' rest depth' suspended' := by
  cases h with
  | root => exact absurd rfl more
  | body _ _ below => exact ⟨_, _, _, below⟩
  | statement _ _ _ below => exact ⟨_, _, _, below⟩
  | value _ _ _ _ below => exact ⟨_, _, _, below⟩

/-- The frames from any one on. -/
theorem drop (h : Stacked S wanted frames depth suspended) {i : Nat} {f : Frame}
    (there : frames[i]? = some f) :
    ∃ wanted' depth' suspended',
      Stacked S wanted' (f :: frames.drop (i + 1)) depth' suspended' := by
  induction i generalizing wanted frames depth suspended with
  | zero =>
    cases frames with
    | nil => cases there
    | cons g rest =>
      cases there
      exact ⟨_, _, _, h⟩
  | succ i ih =>
    cases frames with
    | nil => cases there
    | cons g rest =>
      have more : rest ≠ [] := by
        rintro rfl
        cases there
      obtain ⟨_, _, _, below⟩ := h.tail more
      exact ih below there

/-- The chain that was asked for is at the bottom, and only there. -/
theorem root_iff (h : Stacked S wanted (f :: rest) depth suspended) :
    f.kind = .root ↔ rest = [] := by
  cases h with
  | root kind _ _ => exact ⟨fun _ => rfl, fun _ => kind⟩
  | body lies _ _ =>
    have inner := lies.kind_isBoundary
    refine ⟨fun kind => ?_, nofun⟩
    rw [kind] at inner
    cases inner
  | statement kind _ _ below =>
    refine ⟨fun root => ?_, fun none => absurd none below.ne_nil⟩
    rw [kind] at root
    cases root
  | value kind _ _ _ below =>
    refine ⟨fun root => ?_, fun none => absurd none below.ne_nil⟩
    rw [kind] at root
    cases root

/-- A body lies on the frame below it. -/
theorem lies_on (h : Stacked S wanted (f :: rest) depth suspended)
    (inner : f.kind.isBoundary = false) :
    ∃ g flow middle close, rest.head? = some g ∧
      f.LiesOn (S f.plan.chain) g flow middle close := by
  cases h with
  | root kind _ _ => rw [kind] at inner; cases inner
  | body lies _ _ => exact ⟨_, _, _, _, rfl, lies⟩
  | statement kind _ _ _ => rw [kind] at inner; cases inner
  | value kind _ _ _ _ => rw [kind] at inner; cases inner

/-- A loop that tests its condition has one. -/
theorem condition (h : Stacked S wanted (f :: rest) depth suspended) {opener : Nat}
    (kind : f.kind = .untilHolds opener) :
    ∃ condition close, f.plan.ops[opener]? = some (.repeatUntil condition close) := by
  obtain ⟨g, flow, middle, close, -, lies⟩ := h.lies_on (by rw [kind]; rfl)
  have runs := lies.kind
  rw [kind] at runs
  cases flow with
  | repeatUntil =>
    obtain rfl : opener = g.current := runs
    obtain ⟨op, hop, fits⟩ := h.fits.plan.fits _ _ lies.shape
    cases fits with
    | repeatUntil => exact ⟨_, _, hop⟩
  | _ => exact runs.elim

/-- A loop that counts has a pass to make. -/
theorem one_le_remaining (h : Stacked S wanted (f :: rest) depth suspended) {remaining : Nat}
    (kind : f.kind = .repeated remaining) : 1 ≤ remaining := by
  obtain ⟨g, flow, middle, close, -, lies⟩ := h.lies_on (by rw [kind]; rfl)
  have runs := lies.kind
  rw [kind] at runs
  cases flow with
  | repeatTimes => exact runs
  | _ => exact runs.elim

/-- There is one frame for each procedure that is called. -/
theorem count_procedures (h : Stacked S wanted frames depth suspended) :
    frames.countP (fun f => f.kind = .procedure) = depth := by
  induction h with
  | root kind _ _ => simp [kind]
  | @body _ f _ _ _ _ _ _ _ lies _ _ ih =>
    have inner := lies.kind_isBoundary
    have other : f.kind ≠ .procedure := by
      intro kind
      rw [kind] at inner
      cases inner
    rw [List.countP_cons_of_neg (by simpa using other)]
    exact ih
  | statement kind _ _ _ ih => rw [List.countP_cons_of_pos (by simpa using kind), ih]
  | value kind _ _ _ _ ih => rw [List.countP_cons_of_pos (by simpa using kind), ih]

/-- The frames below leave room for the bodies that are nested in the row of the innermost one. -/
theorem length_add_depth_le {D : Nat}
    (nesting : ∀ id, Tree.depth (Tree.read (S id) 0 (S id).length) ≤ D)
    (h : Stacked S wanted frames depth suspended) :
    ∃ f rest, frames = f :: rest ∧
      frames.length + Tree.depth (Tree.read (S f.plan.chain) f.first f.stop) ≤
        (depth + 1) * (1 + D) := by
  have within {f : Frame} {wanted : Option Purpose} (whole : f.Whole) (fits : f.Fits S wanted) :
      Tree.depth (Tree.read (S f.plan.chain) f.first f.stop) ≤ D := by
    rw [whole.1, whole.2, ← fits.plan.length]
    exact nesting _
  induction h with
  | @root _ f kind whole fits =>
    refine ⟨f, [], rfl, ?_⟩
    have := within whole fits
    rw [List.length_singleton]
    omega
  | @body _ f g rest _ _ _ _ _ lies fits below ih =>
    obtain ⟨g', rest', same, le⟩ := ih
    cases same
    -- one frame more, but the row of a body is nested less deeply than the row around it
    have lt := lies.depth_lt
    refine ⟨f, g :: rest, rfl, ?_⟩
    rw [← lies.plan] at le
    rw [List.length_cons]
    omega
  | @statement _ f rest depth _ kind whole fits below ih =>
    obtain ⟨g, rest', same, le⟩ := ih
    have := within whole fits
    refine ⟨f, rest, rfl, ?_⟩
    rw [List.length_cons, Nat.succ_mul]
    omega
  | @value _ f rest depth _ _ kind whole fits floor below ih =>
    obtain ⟨g, rest', same, le⟩ := ih
    have := within whole fits
    refine ⟨f, rest, rfl, ?_⟩
    rw [List.length_cons, Nat.succ_mul]
    omega

/-- **There are as many frames as calls and bodies can be nested.** -/
theorem length_le {D : Nat} (nesting : ∀ id, Tree.depth (Tree.read (S id) 0 (S id).length) ≤ D)
    (h : Stacked S wanted frames depth suspended) : frames.length ≤ (depth + 1) * (1 + D) := by
  obtain ⟨f, rest, -, le⟩ := h.length_add_depth_le nesting
  omega

end Stacked

end Blockwork
