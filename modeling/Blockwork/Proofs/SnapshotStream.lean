import Blockwork.Proofs.Locations
import Blockwork.Proofs.Neutrality
import Mathlib.Data.List.Chain

/-!
# The stream of snapshots

A snapshot is published whenever a frame is entered, whenever one is left for the one below, and
whenever a block is begun. So the depths that an observer sees go up and down by one at a time, also
when a return leaves many frames in one move, or when a procedure is entered in the middle of a
block. What a run has published is told here along with the occasions, as a log.

## Main statements

* `Machine.Streams.follow`: how the depths of a log follow each other.
* `Machine.goes_move`: what a move publishes.
* `Program.snapshots_well_formed`: what the snapshots of a run are.

Nothing is assumed of native functions, nor of the program.
-/

namespace Blockwork

/-! ## Logs -/

/-- What a snapshot is published for. -/
inductive Occasion where
  /-- A frame has been entered. -/
  | entered
  /-- A frame has been left, and there is one below. -/
  | left
  /-- The innermost frame begins a block. -/
  | begun
deriving DecidableEq

/-- How the number of frames changes on an occasion. -/
def Occasion.Steps : Occasion → Nat → Nat → Prop
  | .entered, before, after => after = before + 1
  | .left, before, after => before = after + 1
  | .begun, before, after => after = before

/-- What tells of a frame that lies on others. -/
def Snapshot.of (f : Frame) (rest : List Frame) : Snapshot :=
  ⟨f.plan.chain, f.current, rest.length + 1⟩

/-- A snapshot and what it is published for. -/
structure Notice where
  occasion : Occasion
  snapshot : Snapshot

/-- A run enters the chain that was asked for. -/
def Notice.first (chain : ChainId) : Notice := ⟨.entered, ⟨chain, 0, 1⟩⟩

/-- The number of frames has changed as it does on the occasion of the newer snapshot. -/
def Notice.Follows (newer older : Notice) : Prop :=
  newer.occasion.Steps older.snapshot.depth newer.snapshot.depth

/-- The frames change one at a time, those that come about satisfy a condition, and these notices
are given meanwhile, the newest first. -/
inductive Changes (P : Frame → Prop) (frames : List Frame) : List Notice → List Frame → Prop where
  | refl : Changes P frames [] frames
  | enters {log : List Notice} {f g : Frame} {rest : List Frame}
      (h : Changes P frames log (g :: rest)) (fits : P f) :
      Changes P frames (⟨.entered, .of f (g :: rest)⟩ :: log) (f :: g :: rest)
  | leaves {log : List Notice} {f g : Frame} {rest : List Frame}
      (h : Changes P frames log (f :: g :: rest)) :
      Changes P frames (⟨.left, .of g rest⟩ :: log) (g :: rest)
  /-- When the last frame is left, there is none to be told of. -/
  | empties {log : List Notice} {f : Frame} (h : Changes P frames log [f]) : Changes P frames log []
  | begins {log : List Notice} {f g : Frame} {rest : List Frame}
      (h : Changes P frames log (f :: rest))
      (is : g = { f with next := f.next + 1, current := f.next }) (fits : P g) :
      Changes P frames (⟨.begun, .of g rest⟩ :: log) (g :: rest)
  /-- The innermost frame goes to another place in its row. -/
  | turns {log : List Notice} {f g : Frame} {rest : List Frame}
      (h : Changes P frames log (f :: rest)) (plan : g.plan = f.plan) (fits : P g) :
      Changes P frames log (g :: rest)

/-- The latest notice tells how many frames there are, or that there was one if there is none any
more. -/
def ShowsHeight (log : List Notice) (frames : List Frame) : Prop :=
  ∃ latest, log.head? = some latest ∧ latest.snapshot.depth = max 1 frames.length

section

variable {P : Frame → Prop} {frames stack : List Frame} {log older : List Notice}

theorem ShowsHeight.cons (height : ShowsHeight log frames) (chain : log.IsChain Notice.Follows)
    {occasion : Occasion} (f : Frame) {rest : List Frame}
    (steps : occasion.Steps (max 1 frames.length) (rest.length + 1)) :
    (⟨occasion, .of f rest⟩ :: log).IsChain Notice.Follows ∧
      ShowsHeight (⟨occasion, .of f rest⟩ :: log) (f :: rest) := by
  constructor
  · refine chain.cons ?_
    intro latest among
    obtain ⟨latest', head, depth⟩ := height
    obtain rfl : latest' = latest := Option.some.inj (head.symm.trans among)
    rw [← depth] at steps
    exact steps
  · exact ⟨_, rfl, by simp [Snapshot.of]⟩

namespace Changes

/-- The depths of what is told while frames change follow each other. -/
theorem follow (h : Changes P frames log stack) (chain : older.IsChain Notice.Follows)
    (height : ShowsHeight older frames) :
    (log ++ older).IsChain Notice.Follows ∧ ShowsHeight (log ++ older) stack := by
  induction h with
  | refl => exact ⟨chain, height⟩
  | enters h fits ih =>
    obtain ⟨chain, height⟩ := ih
    exact height.cons chain _ (by simp [Occasion.Steps])
  | leaves h ih =>
    obtain ⟨chain, height⟩ := ih
    exact height.cons chain _ (by simp [Occasion.Steps])
  | empties h ih => exact ih
  | begins h is fits ih =>
    obtain ⟨chain, height⟩ := ih
    exact height.cons chain _ (by simp [Occasion.Steps])
  | turns h plan fits ih => exact ih

/-- All that is told is about frames that satisfy the condition. -/
theorem tells (h : Changes P frames log stack) (all : ∀ f ∈ frames, P f) :
    (∀ f ∈ stack, P f) ∧ ∀ notice ∈ log, ∃ f rest, P f ∧ notice.snapshot = .of f rest := by
  induction h with
  | refl =>
    refine ⟨all, ?_⟩
    intro notice among
    cases among
  | enters h fits ih =>
    obtain ⟨frames, shown⟩ := ih
    exact ⟨List.forall_mem_cons.mpr ⟨fits, frames⟩,
      List.forall_mem_cons.mpr ⟨⟨_, _, fits, rfl⟩, shown⟩⟩
  | leaves h ih =>
    obtain ⟨frames, shown⟩ := ih
    obtain ⟨-, frames⟩ := List.forall_mem_cons.mp frames
    exact ⟨frames, List.forall_mem_cons.mpr ⟨⟨_, _, frames _ List.mem_cons_self, rfl⟩, shown⟩⟩
  | empties h ih =>
    obtain ⟨-, shown⟩ := ih
    refine ⟨?_, shown⟩
    intro f among
    cases among
  | begins h is fits ih =>
    obtain ⟨frames, shown⟩ := ih
    obtain ⟨-, frames⟩ := List.forall_mem_cons.mp frames
    exact ⟨List.forall_mem_cons.mpr ⟨fits, frames⟩,
      List.forall_mem_cons.mpr ⟨⟨_, _, fits, rfl⟩, shown⟩⟩
  | turns h plan fits ih =>
    obtain ⟨frames, shown⟩ := ih
    obtain ⟨-, frames⟩ := List.forall_mem_cons.mp frames
    exact ⟨List.forall_mem_cons.mpr ⟨fits, frames⟩, shown⟩

/-- Without frames there are no changes. -/
theorem of_nil (h : Changes P [] log stack) : log = [] ∧ stack = [] := by
  induction h with
  | refl => exact ⟨rfl, rfl⟩
  | enters h fits ih => cases ih.2
  | leaves h ih => cases ih.2
  | empties h ih => cases ih.2
  | begins h is fits ih => cases ih.2
  | turns h plan fits ih => cases ih.2

end Changes

end

/-! ## Logs of a run -/

namespace Machine

/-- A move ends the run before it is completed. All frames are released at once, and nothing is
published. -/
structure Releases (m n : Machine) : Prop where
  ended : ∃ outcome, n.outcome? = some outcome ∧ ∀ value, outcome ≠ .completed value
  frames : n.frames = []
  snapshots : n.snapshots = m.snapshots

/-- What a run has published since some state, and on which occasions, the newest first. -/
inductive Streams (P : Frame → Prop) (m : Machine) : List Notice → Machine → Prop where
  | nil : Streams P m [] m
  | work {log new : List Notice} {n : Machine} (h : Streams P m log n)
      (changes : Changes P n.frames new n.move.frames)
      (shows : n.move.snapshots = new.map Notice.snapshot ++ n.snapshots) :
      Streams P m (new ++ log) n.move
  | release {log : List Notice} {n : Machine} (h : Streams P m log n)
      (releases : n.Releases n.move) : Streams P m log n.move
  | stop {log : List Notice} {n : Machine} (h : Streams P m log n) : Streams P m log n.requestStop

section

variable {P : Frame → Prop} {m n : Machine} {log older : List Notice}

namespace Streams

/-- The log has all snapshots that have been published. -/
theorem snapshots (h : m.Streams P log n) :
    n.snapshots = log.map Notice.snapshot ++ m.snapshots := by
  induction h with
  | nil => rfl
  | work h changes shows ih => rw [shows, ih, List.map_append, List.append_assoc]
  | release h releases ih => exact releases.snapshots.trans ih
  | stop h ih => exact ih

theorem tells (h : m.Streams P log n) (all : ∀ f ∈ m.frames, P f) :
    (∀ f ∈ n.frames, P f) ∧ ∀ notice ∈ log, ∃ f rest, P f ∧ notice.snapshot = .of f rest := by
  induction h with
  | nil =>
    refine ⟨all, ?_⟩
    intro notice among
    cases among
  | work h changes shows ih =>
    obtain ⟨frames, shown⟩ := ih
    obtain ⟨frames, shown'⟩ := changes.tells frames
    refine ⟨frames, ?_⟩
    intro notice among
    rcases List.mem_append.mp among with new | old
    · exact shown' notice new
    · exact shown notice old
  | release h releases ih =>
    obtain ⟨-, shown⟩ := ih
    refine ⟨?_, shown⟩
    rw [releases.frames]
    intro f among
    cases among
  | stop h ih => exact ih

/-- **The depths of a log follow each other.** The latest one tells how many frames there are, as
long as the run has not been broken off. -/
theorem follow (h : m.Streams P log n) (chain : older.IsChain Notice.Follows)
    (height : ShowsHeight older m.frames) :
    (log ++ older).IsChain Notice.Follows ∧
      (ShowsHeight (log ++ older) n.frames ∨
        n.frames = [] ∧ ∃ outcome, n.outcome? = some outcome ∧
          ∀ value, outcome ≠ .completed value) := by
  induction h with
  | nil => exact ⟨chain, .inl height⟩
  | work h changes shows ih =>
    obtain ⟨chain, height | ⟨frames, outcome, ended, incomplete⟩⟩ := ih
    · obtain ⟨chain, height⟩ := changes.follow chain height
      rw [List.append_assoc]
      exact ⟨chain, .inl height⟩
    · -- a run that is over publishes nothing more
      rw [frames] at changes
      obtain ⟨rfl, frames'⟩ := changes.of_nil
      refine ⟨chain, .inr ⟨frames', outcome, ?_, incomplete⟩⟩
      rw [move_of_isOver (isOver_of_outcome ended)]
      exact ended
  | release h releases ih => exact ⟨ih.1, .inr ⟨releases.frames, releases.ended⟩⟩
  | stop h ih => exact ih

end Streams

end

end Machine

/-! ## Frames in place -/

/-- The plan of a frame is that of its chain, and the frame is at a block of it, if it has any. -/
structure Frame.InPlace (p : Program) (natives : NativeTable) (f : Frame) : Prop where
  plan : p.resolve natives f.plan.chain = some (.ok f.plan)
  block : f.plan.ops.size ≠ 0 → f.current < f.plan.ops.size

section

variable {p : Program} {natives : NativeTable} {f g : Frame}

/-- A frame that stays at its block stays in place. -/
theorem Frame.InPlace.of_same (h : f.InPlace p natives) (plan : g.plan = f.plan)
    (current : g.current = f.current) : g.InPlace p natives := by
  constructor
  · rw [plan]
    exact h.plan
  · rw [plan, current]
    exact h.block

theorem Frame.InPlace.of_lt (h : f.InPlace p natives) (plan : g.plan = f.plan)
    (lt : g.current < f.plan.ops.size) : g.InPlace p natives := by
  constructor
  · rw [plan]
    exact h.plan
  · rw [plan]
    exact fun _ => lt

end

/-! ## Operations -/

namespace Machine

section

variable (p : Program) (natives : NativeTable)

/-- What is published from one state to another is what the frames tell as they change. -/
def Tells (m n : Machine) : Prop :=
  ∃ log, Changes (Frame.InPlace p natives) m.frames log n.frames ∧
    n.snapshots = log.map Notice.snapshot ++ m.snapshots

/-- So it is, or the run is broken off. -/
def Goes (m n : Machine) : Prop := m.Tells p natives n ∨ m.Releases n

end

section

variable {p : Program} {natives : NativeTable} {m n k : Machine} {f g : Frame} {rest : List Frame}

namespace Tells

theorem refl (m : Machine) : m.Tells p natives m := ⟨[], .refl, rfl⟩

/-- Only the frames and the snapshots matter. -/
theorem of_same (h : m.Tells p natives k) (frames : n.frames = k.frames)
    (snapshots : n.snapshots = k.snapshots) : m.Tells p natives n := by
  obtain ⟨log, changes, shows⟩ := h
  exact ⟨log, frames ▸ changes, snapshots.trans shows⟩

theorem schedule (h : m.Tells p natives k) : m.Tells p natives k.schedule := h.of_same rfl rfl

theorem finish (h : m.Tells p natives k) (frames : k.frames = []) (outcome : Outcome) :
    m.Tells p natives (k.finish outcome) :=
  h.of_same frames.symm rfl

theorem goes (h : m.Tells p natives k) : m.Goes p natives k := .inl h

theorem turn (h : m.Tells p natives k) (frames : k.frames = f :: rest) {change : Frame → Frame}
    (plan : (change f).plan = f.plan) (fits : (change f).InPlace p natives) :
    m.Tells p natives (k.updateTop change) := by
  obtain ⟨log, changes, shows⟩ := h
  rw [frames] at changes
  refine ⟨log, ?_, ?_⟩
  · rw [frames_updateTop frames]
    exact changes.turns plan fits
  · rw [updateTop, frames]
    exact shows

theorem push (h : m.Tells p natives k) (frames : k.frames = g :: rest)
    (fits : f.InPlace p natives) : m.Tells p natives (k.push f) := by
  obtain ⟨log, changes, shows⟩ := h
  rw [frames] at changes
  refine ⟨⟨.entered, .of f (g :: rest)⟩ :: log, ?_, ?_⟩
  · rw [frames_push, frames]
    exact changes.enters fits
  · show (⟨_, _, (f :: k.frames).length⟩ : Snapshot) :: k.snapshots = _
    rw [frames, shows]
    rfl

theorem beginNext (h : m.Tells p natives k) (frames : k.frames = f :: rest)
    (fits : Frame.InPlace p natives { f with next := f.next + 1, current := f.next }) :
    m.Tells p natives k.beginNext := by
  obtain ⟨log, changes, shows⟩ := h
  rw [frames] at changes
  refine ⟨⟨.begun, .of { f with next := f.next + 1, current := f.next } rest⟩ :: log, ?_, ?_⟩
  · rw [frames_beginNext frames]
    exact changes.begins rfl fits
  · rw [Machine.beginNext, updateTop, frames, publish, List.map_cons, List.cons_append, ← shows]
    rfl

/-- A frame has been left, and what is below is told of. -/
theorem publish (h : m.Tells p natives k) (frames : k.frames = f :: rest)
    (left : n.frames = rest) (same : n.snapshots = k.snapshots) :
    m.Tells p natives n.publish := by
  obtain ⟨log, changes, shows⟩ := h
  rw [frames] at changes
  rw [← same] at shows
  cases rest with
  | nil =>
    refine ⟨log, ?_, ?_⟩
    · rw [frames_publish, left]
      exact changes.empties
    · rw [Machine.publish, left]
      exact shows
  | cons g rest =>
    refine ⟨⟨.left, .of g rest⟩ :: log, ?_, ?_⟩
    · rw [frames_publish, left]
      exact changes.leaves
    · rw [Machine.publish, left, List.map_cons, List.cons_append, ← shows]
      rfl

theorem pop (h : m.Tells p natives k) : m.Tells p natives k.pop := by
  cases frames : k.frames with
  | nil =>
    rw [Machine.pop, frames]
    exact h
  | cons f rest =>
    by_cases kind : f.kind = .procedure
    · rw [pop_procedure frames kind]
      exact h.publish frames rfl rfl
    · rw [pop_inner frames kind]
      exact h.publish frames rfl rfl

theorem leave (h : m.Tells p natives k) (frames : List Frame) :
    m.Tells p natives (k.leave frames) := by
  induction frames generalizing k with
  | nil => exact h
  | cons f rest ih =>
    unfold Machine.leave
    split
    · exact h.pop
    · exact ih h.pop

/-- The innermost frame goes on elsewhere, and stays at its block. -/
theorem move_on (h : m.Tells p natives k) (frames : k.frames = f :: rest)
    (fits : f.InPlace p natives) (next : Nat) :
    m.Tells p natives (k.updateTop fun f => { f with next := next }) :=
  h.turn frames rfl (fits.of_same rfl rfl)

/-- A body is entered. -/
theorem pushBody (h : m.Tells p natives k) (frames : k.frames = g :: rest)
    (fits : g.InPlace p natives) (range : g.stop ≤ g.plan.ops.size) {shapes : List Shape}
    {flow : Flow} {middle : Option Nat} {opener close first stop : Nat}
    (opens : g.Opens shapes flow middle opener close)
    (body : IsBody opener middle close first stop) (kind : FrameKind) :
    m.Tells p natives ((k.jumpPast close).pushBody first stop kind) := by
  have past : (k.jumpPast close).frames = { g with next := close + 1 } :: rest :=
    frames_updateTop frames _
  obtain ⟨-, le, le', lt⟩ := body.between opens.after opens.within opens.shape
  have inside : first < g.plan.ops.size :=
    Nat.lt_of_le_of_lt (Nat.le_trans le le') (Nat.lt_of_lt_of_le lt range)
  rw [pushBody_eq past]
  exact (h.move_on frames fits (close + 1)).push past (fits.of_lt rfl inside)

end Tells

theorem goes_finish {outcome : Outcome} (same : n.snapshots = m.snapshots)
    (incomplete : ∀ value, outcome ≠ .completed value) : m.Goes p natives (n.finish outcome) :=
  .inr ⟨⟨outcome, rfl, incomplete⟩, rfl, same⟩

theorem goes_fail {error : RunError} (same : n.snapshots = m.snapshots) :
    m.Goes p natives (n.fail error) :=
  goes_finish same nofun

/-! ## Moves -/

theorem goes_giveBack (value : Value) : m.Goes p natives (m.giveBack value) := by
  have left : m.Tells p natives (m.leave m.frames) := (Tells.refl m).leave m.frames
  unfold giveBack
  generalize m.leave m.frames = n at left
  simp only
  split
  · exact left.schedule.goes
  · next low =>
    split
    · next suspended =>
      refine (left.finish ?_ _).goes
      rw [show n.floor = floorOf n.suspended from rfl, suspended] at low
      exact List.length_eq_zero_iff.mp (Nat.eq_zero_of_not_pos low)
    · exact .inl (left.of_same rfl rfl)

theorem Stands.goes_conclude {purpose : Purpose} (h : m.Stands p.shapes (some purpose))
    (all : ∀ f ∈ m.frames, f.InPlace p natives) (value : Value) :
    m.Goes p natives (m.conclude value purpose) := by
  obtain ⟨f, rest, frames⟩ := h.cons
  have stack : Stacked p.shapes (some purpose) (f :: rest) m.depth m.suspended := frames ▸ h
  have fits : f.InPlace p natives := all f (frames ▸ List.mem_cons_self)
  have range : f.stop ≤ f.plan.ops.size := (stack.in_range f List.mem_cons_self).2.2
  have same : m.Tells p natives m := .refl m
  have past (close : Nat) : m.Tells p natives (m.jumpPast close) :=
    same.move_on frames fits (close + 1)
  cases purpose with
  | statement => exact same.schedule.goes
  | times opener close =>
    have opens : f.Opens (p.shapes f.plan.chain) .repeatTimes none opener close := stack.fits.sits
    cases number : value.expectNumber with
    | error e =>
      rw [conclude_times_error number]
      exact goes_fail rfl
    | ok x =>
      rw [conclude_times number]
      split
      · exact (past close).schedule.goes
      · exact (same.pushBody frames fits range opens ⟨rfl, rfl⟩ _).schedule.goes
  | firstTest opener close =>
    have opens : f.Opens (p.shapes f.plan.chain) .repeatUntil none opener close := stack.fits.sits
    rw [conclude_firstTest]
    split
    · exact (past close).schedule.goes
    · exact (same.pushBody frames fits range opens ⟨rfl, rfl⟩ _).schedule.goes
  | retest =>
    rw [conclude_retest]
    split
    · exact same.pop.schedule.goes
    · exact (same.turn frames rfl (fits.of_same rfl rfl)).schedule.goes
  | branch opener middle close =>
    have opens : f.Opens (p.shapes f.plan.chain) .ifThen middle opener close := stack.fits.sits
    rw [conclude_branch]
    split
    · next first stop chosen =>
      exact (same.pushBody frames fits range opens (isBody_of_chosenBranch chosen) _).schedule.goes
    · exact (past close).schedule.goes
  | giveBack => exact goes_giveBack value

theorem goes_performNext (frames : m.frames = f :: rest) (h : m.Stands p.shapes none)
    (fits : f.InPlace p natives) (more : f.next < f.stop) :
    m.Goes p natives (m.performNext f) := by
  have stack : Stacked p.shapes none (f :: rest) m.depth m.suspended := frames ▸ h
  have range : f.stop ≤ f.plan.ops.size := (stack.in_range f List.mem_cons_self).2.2
  have begun : Frame.InPlace p natives { f with next := f.next + 1, current := f.next } :=
    fits.of_lt rfl (Nat.lt_of_lt_of_le more range)
  have begins : m.Tells p natives m.beginNext := (Tells.refl m).beginNext frames begun
  obtain ⟨op, shape, is, hshape, suits, -⟩ := stack.next_block more
  rw [performNext_some is]
  cases suits with
  | @forever close =>
    have opens := stack.opens_next more hshape
    exact (begins.pushBody (frames_beginNext frames) begun range opens ⟨rfl, rfl⟩ _).schedule.goes
  | _ => exact .inl (begins.of_same rfl rfl)

theorem goes_endOfFrame (frames : m.frames = f :: rest) (h : m.Stands p.shapes none)
    (fits : f.InPlace p natives) : m.Goes p natives (m.endOfFrame f) := by
  have stack : Stacked p.shapes none (f :: rest) m.depth m.suspended := frames ▸ h
  have same : m.Tells p natives m := .refl m
  unfold endOfFrame
  cases kind : f.kind with
  | root => exact same.pop.schedule.goes
  | procedure => exact same.pop.schedule.goes
  | branch => exact same.pop.schedule.goes
  | forever => exact (same.turn frames rfl (fits.of_same rfl rfl)).schedule.goes
  | repeated remaining =>
    by_cases more : 1 < remaining
    · simp only [if_pos more]
      have counted : m.Tells p natives (m.updateTop fun f =>
          { f with kind := .repeated (remaining - 1) }) :=
        same.turn frames rfl (fits.of_same rfl rfl)
      exact (counted.turn (frames_updateTop frames _) rfl (fits.of_same rfl rfl)).schedule.goes
    · simp only [if_neg more]
      exact same.pop.schedule.goes
  | untilHolds opener =>
    obtain ⟨condition, close, is⟩ := stack.condition kind
    simp only [is]
    have lt : opener < f.plan.ops.size := (Array.getElem?_eq_some_iff.mp is).1
    have turned : m.Tells p natives (m.updateTop fun f => { f with current := opener }) :=
      same.turn frames rfl (fits.of_lt rfl lt)
    exact .inl (turned.of_same rfl rfl)

theorem goes_dispatch (h : Left p.shapes m.frames m.depth m.suspended)
    (all : ∀ f ∈ m.frames, f.InPlace p natives) : m.Goes p natives m.dispatch := by
  have same : m.Tells p natives m := .refl m
  have floor_eq : m.floor = floorOf m.suspended := rfl
  unfold dispatch
  rw [floor_eq]
  split
  · next low =>
    split
    · next suspended =>
      rw [suspended] at low
      exact (same.finish (List.length_eq_zero_iff.mp (Nat.le_zero.mp low)) _).goes
    · exact goes_fail rfl
  · next above =>
    split
    · exact goes_finish rfl nofun
    · split
      · next frames => exact (same.finish frames _).goes
      · next f rest frames =>
        have fits : f.InPlace p natives := all f (frames ▸ List.mem_cons_self)
        rcases h.split with ⟨none, -, -⟩ | stack | ⟨s, outer, suspended, floor, -⟩
        · rw [none] at frames
          cases frames
        · split
          · exact goes_endOfFrame frames stack fits
          · next more => exact goes_performNext frames stack fits (Nat.lt_of_not_le more)
        · rw [suspended, floorOf] at above
          simp [floor] at above

theorem goes_enterProcedure (frames : m.frames = g :: rest) (plans : m.plans = p.plans natives)
    (definition : String) (body : ChainId) (parameters : List String) (arguments : List Value)
    (around : Option Evaluation) :
    m.Goes p natives (m.enterProcedure definition body parameters arguments around) := by
  unfold enterProcedure
  split
  · exact goes_fail rfl
  · split
    · exact goes_finish rfl nofun
    · next plan ok =>
      have fits : Frame.InPlace p natives (.enter plan 0 plan.ops.size .procedure) :=
        ⟨resolve_of_plan plans ok, Nat.pos_of_ne_zero⟩
      have same : m.Tells p natives { m with
          env := m.env.push (.ofParameters parameters arguments)
          depth := m.depth + 1
          suspended := (around.map fun around =>
            ⟨definition, m.frames.length, around⟩).toList ++ m.suspended } :=
        (Tells.refl m).of_same rfl rfl
      exact (same.push frames fits).schedule.goes

theorem goes_returned {around : Evaluation} (same : m.Tells p natives n)
    (snapshots : n.snapshots = m.snapshots) (definition : String) (value : Option Value) :
    m.Goes p natives (n.returned definition value around) := by
  cases value with
  | some value => exact .inl (same.of_same rfl rfl)
  | none =>
    rw [returned_none]
    split
    · exact goes_fail snapshots
    · exact same.schedule.goes

theorem goes_gather (callee : Callee) (values : List Value) (purpose : Purpose)
    (outer : List PendingCall) (arguments : List Expr) :
    m.Goes p natives (m.gather callee values purpose outer arguments) := by
  cases arguments with
  | nil => exact .inl ((Tells.refl m).of_same rfl rfl)
  | cons e rest => exact .inl ((Tells.refl m).of_same rfl rfl)

theorem Stands.goes_call {around : Evaluation} (h : m.Stands p.shapes (some around.purpose))
    (plans : m.plans = p.plans natives) (callee : Callee) (arguments : List Value) :
    m.Goes p natives (m.call arguments around callee) := by
  cases callee with
  | native definition function =>
    rw [call_native]
    have same : m.Tells p natives (m.within (function m.surroundings arguments).2) :=
      (Tells.refl m).of_same rfl rfl
    cases (function m.surroundings arguments).1 with
    | returned value => exact goes_returned same rfl definition value
    | failed error => exact goes_fail rfl
    | panicked message => exact .inl (same.of_same rfl rfl)
    | waiting wait value => exact .inl (same.of_same rfl rfl)
  | procedure definition body parameters =>
    obtain ⟨g, rest, frames⟩ := h.cons
    rw [call_procedure]
    exact goes_enterProcedure frames plans _ _ _ _ _

/-- **What a move publishes is what the frames tell as they change,** unless it breaks the run
off. -/
theorem goes_move (h : m.InOrder p.shapes) (plans : m.plans = p.plans natives)
    (all : ∀ f ∈ m.frames, f.InPlace p natives) : m.Goes p natives m.move := by
  have same : m.Tells p natives m := .refl m
  have order := h
  unfold InOrder at order
  have moves := m.moves
  generalize m.move = n at moves ⊢
  cases moves with
  | idle activity => exact same.goes
  | halts halted => exact same.goes
  | dispatches activity =>
    rw [activity] at order
    exact goes_dispatch order all
  | gives activity => exact .inl (same.of_same rfl rfl)
  | applies activity => exact goes_gather _ _ _ _ _
  | concludes activity =>
    rw [activity] at order
    exact Stands.goes_conclude order all _
  | delivers activity => exact goes_gather _ _ _ _ _
  | calls activity =>
    rw [activity] at order
    exact Stands.goes_call order plans _ _
  | resumes activity => exact goes_returned same rfl _ _

/-! ## Runs -/

/-- A run publishes what its frames tell as they change. -/
theorem exists_streams (order : m.InOrder p.shapes) (plans : m.plans = p.plans natives)
    (all : ∀ f ∈ m.frames, f.InPlace p natives) (reaches : Reaches m n) :
    ∃ log, m.Streams (Frame.InPlace p natives) log n := by
  induction reaches with
  | refl => exact ⟨[], .nil⟩
  | work on ih =>
    obtain ⟨log, streams⟩ := ih
    have order' := order.reaches plans on
    have plans' := on.plans.1.trans plans
    rcases goes_move order' plans' (streams.tells all).1 with ⟨new, changes, shows⟩ | releases
    · exact ⟨new ++ log, streams.work changes shows⟩
    · exact ⟨log, streams.release releases⟩
  | stop on ih =>
    obtain ⟨log, streams⟩ := ih
    exact ⟨log, streams.stop⟩

end

end Machine

/-- The snapshot shows at least one frame, and a chain of the program with a block of it, if there
is one. -/
structure Program.Shows (p : Program) (s : Snapshot) : Prop where
  depth : 1 ≤ s.depth
  block : ∃ c, p.chain? s.chain = some c ∧ (c.blocks ≠ [] → s.block < c.blocks.length)

section

variable {p : Program} {natives : NativeTable} {f : Frame}

/-- A frame in place is shown as such. -/
theorem Frame.InPlace.shows (h : f.InPlace p natives) (rest : List Frame) :
    p.Shows (.of f rest) := by
  obtain ⟨c, first, made⟩ := Option.map_eq_some_iff.mp h.plan
  have size := Plan.size_of_ofChain made
  refine ⟨Nat.succ_pos _, c, first, ?_⟩
  intro blocks
  show f.current < c.blocks.length
  rw [← size]
  refine h.block ?_
  rw [size]
  exact (List.length_pos_iff.mpr blocks).ne'

end

namespace Program

variable {p : Program} {natives : NativeTable} {m₀ m : Machine} {chain : ChainId} {plan : Plan}

/-- A run begins with a single frame, and that is shown. -/
theorem shown_start (holds : m₀.HoldsNothing) (plans : m₀.plans = p.plans natives)
    (resolves : p.resolve natives chain = some (.ok plan)) :
    ∃ f, f.InPlace p natives ∧ Snapshot.of f [] = (Notice.first chain).snapshot ∧
      (m₀.start chain).frames = [f] ∧ (m₀.start chain).snapshots = .of f [] :: m₀.snapshots := by
  have made : m₀.plan chain = .ok plan := by
    rw [plan_eq_resolve plans, resolves]
    rfl
  have number : plan.chain = chain := by
    obtain ⟨c, first, made⟩ := Option.map_eq_some_iff.mp resolves
    rw [Plan.chain_of_ofChain made]
    simpa using List.find?_some first
  refine ⟨.enter plan 0 plan.ops.size .root, ?_, ?_, ?_, ?_⟩
  · exact ⟨Machine.resolve_of_plan plans made, Nat.pos_of_ne_zero⟩
  · rw [Notice.first, ← number]
    rfl
  · rw [Machine.start, made]
    show _ :: m₀.frames = _
    rw [holds.frames]
  · rw [Machine.start, made]
    show (⟨plan.chain, 0, m₀.frames.length + 1⟩ : Snapshot) :: m₀.snapshots = _
    rw [holds.frames]
    rfl

/-- **What the snapshots of a run are,** if its chain has a plan. The first one is the beginning of
the chain, with one frame. Each one shows a chain of the program and, unless that has no blocks, a
block of it. The numbers of frames of two that follow each other differ by one if a frame has been
entered or left, and are the same otherwise. When the run is completed the latest one shows one
frame. -/
theorem snapshots_well_formed (holds : m₀.HoldsNothing) (plans : m₀.plans = p.plans natives)
    (resolves : p.resolve natives chain = some (.ok plan))
    (reaches : Machine.Reaches (m₀.start chain) m) :
    ∃ log, (m₀.start chain).Streams (Frame.InPlace p natives) log m ∧
      m.snapshots = (log ++ [Notice.first chain]).map Notice.snapshot ++ m₀.snapshots ∧
      (log ++ [Notice.first chain]).IsChain Notice.Follows ∧
      (∀ notice ∈ log ++ [Notice.first chain], p.Shows notice.snapshot) ∧
      ∀ value, m.outcome? = some (.completed value) →
        ∃ s, m.snapshots.head? = some s ∧ s.depth = 1 := by
  obtain ⟨f, fits, shown, frames, snapshots⟩ := shown_start holds plans resolves
  have order := Machine.inOrder_start holds.frames holds.depth holds.suspended plans chain
  have plans' := (Machine.kept_start m₀ chain).plans.trans plans
  have all : ∀ g ∈ (m₀.start chain).frames, g.InPlace p natives := by
    rw [frames]
    exact List.forall_mem_singleton.mpr fits
  obtain ⟨log, streams⟩ := Machine.exists_streams order plans' all reaches
  have height : ShowsHeight [Notice.first chain] (m₀.start chain).frames := by
    rw [frames]
    exact ⟨_, rfl, rfl⟩
  obtain ⟨follow, latest⟩ := streams.follow (.singleton _) height
  have published : m.snapshots =
      (log ++ [Notice.first chain]).map Notice.snapshot ++ m₀.snapshots := by
    rw [streams.snapshots, snapshots, shown, List.map_append, List.append_assoc]
    rfl
  refine ⟨log, streams, published, follow, ?_, ?_⟩
  · intro notice among
    rcases List.mem_append.mp among with later | first
    · obtain ⟨g, rest, fits, is⟩ := (streams.tells all).2 notice later
      rw [is]
      exact fits.shows rest
    · obtain rfl := List.mem_singleton.mp first
      rw [← shown]
      exact fits.shows []
  · intro value completed
    rcases latest with ⟨notice, head, depth⟩ | ⟨-, outcome, ended, incomplete⟩
    · refine ⟨notice.snapshot, ?_, ?_⟩
      · rw [published, List.head?_append, List.head?_map, head]
        rfl
      · -- all frames have been left, so the last one was the only one before
        rw [depth, (Machine.holdsNothing_of_reaches reaches completed).frames]
        rfl
    · rw [completed] at ended
      exact absurd (Option.some.inj ended).symm (incomplete value)

set_option maxRecDepth 20000 in
/-- A run in which a return leaves two frames at once, until it is completed. -/
theorem snapshots_well_formed_asking :
    ∃ plan log, asking.resolve Native.standard 0 = some (.ok plan) ∧
      (asked 13).outcome? = some (.completed none) ∧
      ((Machine.ofProgram asking Native.standard 64 .unlimited).start 0).Streams
        (Frame.InPlace asking Native.standard) log (asked 13) ∧
      (log ++ [Notice.first 0]).map Notice.snapshot = (asked 13).snapshots ∧
      (log ++ [Notice.first 0]).IsChain Notice.Follows ∧
      ∃ s, (asked 13).snapshots.head? = some s ∧ s.depth = 1 := by
  have holds : (Machine.ofProgram asking Native.standard 64 .unlimited).HoldsNothing :=
    ⟨rfl, rfl, rfl, rfl, rfl⟩
  have completed : (asked 13).outcome? = some (.completed none) := by rfl
  obtain ⟨plan, resolves⟩ : ∃ plan, asking.resolve Native.standard 0 = some (.ok plan) := ⟨_, rfl⟩
  obtain ⟨log, streams, published, follow, -, last⟩ :=
    snapshots_well_formed holds rfl resolves (Machine.reaches_iterate _ 13)
  refine ⟨plan, log, resolves, completed, streams, ?_, follow, last none completed⟩
  exact (published.trans (List.append_nil _)).symm

end Program

end Blockwork
