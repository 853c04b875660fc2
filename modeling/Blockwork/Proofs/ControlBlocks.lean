import Blockwork.Proofs.Simulation

/-!
# Machines do control blocks

A control block is done by jumps and frames, and by plain recursion in the reference. Here a machine
that is given the parts of a block does the whole: if it does the test and the body of a loop, it
does the loop, however often the body is repeated and however it is left.

## Main statements

* `doesRow_doAll`: a row is done block by block.
* `doesTree_repeatTimes`, `doesTree_repeatUntil`, `doesTree_forever`: loops are done.
* `doesTree_ifThen`: one branch of an if is done.

Each kind of thing that is done has its own statement about machines (`Evaluates`, `DoesRow` and so
on), which says where the machine begins and where it comes to.
-/

namespace Blockwork

open Machine Reference

variable {σ : Setting} {fuel : Nat} {m n : Machine} {c : Config} {p : Place} {w : World}
  {around : Evaluation} {f : Frame} {rest : List Frame}

/-! ## Failures and native functions -/

theorem Does.fail {α : Type} {P : α → World → Machine → Prop} {activity : Activity} {e : RunError}
    (h : At σ n c activity) (stands : c.Stands p) (is : m = n.fail e) :
    Does fuel m ((Reference.fail p e : Deed α) c.world) P := by
  refine Does.throw_failed ⟨0, ?_⟩
  rw [Function.iterate_zero_apply, is, h.report_fail stands]

/-- A native function that does not request a stop. -/
theorem does_callNative {definition : String} {function : Native} {arguments : List Value}
    (h : At σ m c (.calling (.native definition function) arguments around)) (stands : c.Stands p)
    (quiet : function.NeverStops) :
    Does fuel m (callNative p function arguments c.world) fun value w n =>
      ∃ n₀ activity, At σ n₀ (c.inWorld w) activity ∧ n = n₀.returned definition value around := by
  have moved : m.move = (m.within (function m.surroundings arguments).2).react definition around
      (function m.surroundings arguments).1 := by
    rw [move_calling h.activity, call_native]
  have same := quiet m.surroundings arguments
  unfold callNative
  rw [h.surroundings] at moved same
  revert moved same
  rcases function ⟨c.world.env, c.world.output, false⟩ arguments with ⟨reaction, s⟩
  intro moved same
  have within : At σ (m.within s) (c.inWorld ⟨s.env, s.output⟩) m.activity := by
    refine ⟨h.plans, h.limit, same, ?_, rfl⟩
    rw [← h.config]
    rfl
  cases reaction with
  | returned value => exact ⟨1, m.within s, _, within, moved⟩
  | failed e =>
    refine ⟨1, ?_⟩
    rw [Function.iterate_one, moved]
    exact within.report_fail stands e
  | panicked message =>
    refine ⟨1, ?_⟩
    rw [Function.iterate_one, moved]
    rfl
  | waiting wait value =>
    -- a wait takes a move more before its value is there
    refine ⟨2, m.move, .waiting wait definition value around, ?_, ?_⟩
    · rw [moved]
      exact within.doing _
    · have waits : m.move.activity = .waiting wait definition value around := by
        rw [moved]
        rfl
      exact move_waiting waits

/-! ## Arguments -/

/-- A machine that evaluates the expression at the place, where its value is wanted, does the
deed. -/
def Evaluates (σ : Setting) (fuel : Nat) (p : Place) (e : Expr) (x : Deed Value) : Prop :=
  ∀ (m : Machine) (c : Config) (around : Evaluation), At σ m c (.evaluating e around) →
    c.Stands p → around.wantsValue →
      Does fuel m (x c.world) fun value w n => At σ n (c.inWorld w) (.delivering value around)

theorem wantsValue_pending {purpose : Purpose} {pending : PendingCall} {outer : List PendingCall} :
    (Evaluation.mk purpose (pending :: outer)).wantsValue := by
  cases purpose <;> rfl

/-- Arguments are evaluated from left to right. -/
theorem does_arguments {callee : Callee} {purpose : Purpose} {outer : List PendingCall}
    {g : Expr → Deed Value} {arguments : List Expr}
    (each : ∀ e ∈ arguments, Evaluates σ fuel p e (g e)) {values : List Value}
    (h : At σ m c (.gathering callee values purpose outer arguments)) (stands : c.Stands p) :
    Does fuel m (arguments.mapM g c.world) fun results w n =>
      At σ n (c.inWorld w) (.calling callee (values.reverse ++ results) ⟨purpose, outer⟩) := by
  induction arguments generalizing m c values with
  | nil =>
    rw [List.mapM_nil]
    refine Does.pure ?_
    rw [List.append_nil]
    exact h
  | cons e rest ih =>
    rw [List.mapM_cons]
    refine (each e List.mem_cons_self m c _ h stands wantsValue_pending).bind ?_
    intro value w n delivering
    refine Does.uncounted ?_
    refine (ih (fun e he => each e (List.mem_cons_of_mem _ he)) delivering.deliver
      (stands.inWorld w)).bind ?_
    intro results w' n' calling
    refine Does.pure ?_
    rw [List.reverse_cons, List.append_assoc] at calling
    exact calling

/-! ## Rows of blocks -/

/-- The innermost frame is one of the plan, inside so many calls, and the run goes on in it. -/
structure Config.Top (c : Config) (plan : Plan) (depth : Nat) (f : Frame) (rest : List Frame) :
    Prop where
  frames : c.frames = f :: rest
  plan : f.plan = plan
  depth : c.depth = depth
  floor : floorOf c.suspended ≤ rest.length

/-- A machine has done the blocks of a frame up to an index, or returns a value from it. -/
def Ended (σ : Setting) (c : Config) (f : Frame) (rest : List Frame) (next : Nat) :
    Exit → World → Machine → Prop
  | .finished, w, n => ∃ current, At σ n
      { c with world := w, frames := { f with next := next, current := current } :: rest }
      .scheduling
  | .returned value, w, n => ∃ inner f', (∀ g ∈ inner, g.kind.isBoundary = false) ∧
      f'.kind = f.kind ∧
      At σ n { c with world := w, frames := inner ++ f' :: rest }
        (.delivering value ⟨.giveBack, []⟩)

/-- A machine that comes to a block of a plan does the deed, and then is behind the block. -/
def DoesTree (σ : Setting) (fuel : Nat) (plan : Plan) (depth first next : Nat) (x : Deed Exit) :
    Prop :=
  ∀ (m : Machine) (c : Config) (f : Frame) (rest : List Frame), At σ m c .scheduling →
    c.Top plan depth f rest → f.next = first → first < f.stop →
      Does fuel m (x c.world) (Ended σ c f rest next)

/-- A machine that comes to a row of a plan does the deed, and then is behind the row. -/
def DoesRow (σ : Setting) (fuel : Nat) (plan : Plan) (depth first next : Nat) (x : Deed Exit) :
    Prop :=
  ∀ (m : Machine) (c : Config) (f : Frame) (rest : List Frame), At σ m c .scheduling →
    c.Top plan depth f rest → f.next = first → next ≤ f.stop →
      Does fuel m (x c.world) (Ended σ c f rest next)

/-- A row is done tree by tree. -/
theorem doesRow_doAll {plan : Plan} {depth : Nat} {shapes : List Shape} {g : Tree → Deed Exit}
    (each : ∀ t i k, Tree.Reads shapes t i k → DoesTree σ fuel plan depth i k (g t))
    {trees : List Tree} {i j : Nat} (row : Tree.RowReads shapes trees i j) :
    DoesRow σ fuel plan depth i j (doAll g trees) := by
  induction trees generalizing i with
  | nil =>
    intro m c f rest h top next le
    cases row
    refine Does.pure ⟨f.current, ?_⟩
    rw [← next, show ({ f with next := f.next, current := f.current } : Frame) = f from rfl,
      ← top.frames]
    exact h
  | cons t trees ih =>
    intro m c f rest h top next le
    cases row with
    | @cons _ _ _ k _ lt head tail =>
      refine (each t i k head m c f rest h top next (Nat.lt_of_lt_of_le lt le)).bind ?_
      intro exit w n ended
      cases exit with
      | finished =>
        obtain ⟨current, there⟩ := ended
        exact ih tail n _ { f with next := k, current := current } rest there
          ⟨rfl, top.plan, top.depth, top.floor⟩ rfl le
      | returned value => exact Does.pure ended

/-! ## Bodies -/

/-- A machine has left a body, or returns a value from it. -/
def LeftBody (σ : Setting) (c : Config) (rest : List Frame) : Exit → World → Machine → Prop
  | .finished, w, n => At σ n { c with world := w, frames := rest } .scheduling
  | .returned value, w, n => ∃ inner, (∀ g ∈ inner, g.kind.isBoundary = false) ∧
      At σ n { c with world := w, frames := inner ++ rest } (.delivering value ⟨.giveBack, []⟩)

theorem LeftBody.of_ended {g : Frame} {next : Nat} {value : Value}
    (h : Ended σ c g rest next (.returned value) w n) (body : g.kind.isBoundary = false) :
    LeftBody σ c rest (.returned value) w n := by
  obtain ⟨inner, g', bodies, kind, there⟩ := h
  refine ⟨inner ++ [g'], fun x hx => ?_, by rwa [List.append_assoc]⟩
  rcases List.mem_append.mp hx with hx | hx
  · exact bodies x hx
  · rw [List.mem_singleton.mp hx, kind]
    exact body

/-- The frame below goes on behind the end of the body. -/
theorem LeftBody.ended {exit : Exit} {close current : Nat}
    (h : LeftBody σ c ({ f with next := close + 1, current := current } :: rest) exit w n) :
    Ended σ c f rest (close + 1) exit w n := by
  cases exit with
  | finished => exact ⟨current, h⟩
  | returned value =>
    obtain ⟨inner, bodies, there⟩ := h
    exact ⟨inner, { f with next := close + 1, current := current }, bodies, rfl, there⟩

/-- What a body is done in: a frame of its own, on the frame of its opener. -/
structure Config.InBody (c : Config) (plan : Plan) (depth first stop : Nat) (g : Frame)
    (rest : List Frame) : Prop extends c.Top plan depth g rest where
  first : g.first = first
  stop : g.stop = stop

section

variable {plan : Plan} {depth first stop : Nat} {body next : Deed Exit} {g : Frame}

/-- One pass of a body, and what follows unless a value is returned. -/
theorem does_pass {fuel' : Nat} (row : DoesRow σ fuel plan depth first stop body)
    (enough : fuel' ≤ fuel) (h : At σ m c .scheduling)
    (inside : c.InBody plan depth first stop g rest)
    (body_kind : g.kind.isBoundary = false) (begins : g.next = first)
    (follows : ∀ (n : Machine) (w : World) (current : Nat),
      At σ n { c with world := w, frames := { g with next := stop, current := current } :: rest }
        .scheduling → Does fuel' n (next w) (LeftBody σ c rest)) :
    Does fuel' m ((do
      match ← body with
      | .finished => next
      | .returned value => return .returned value) c.world) (LeftBody σ c rest) := by
  refine ((row m c g rest h inside.toTop begins (Nat.le_of_eq inside.stop.symm)).weaken
    enough).bind ?_
  intro exit w n ended
  cases exit with
  | returned value => exact Does.pure (LeftBody.of_ended ended body_kind)
  | finished =>
    obtain ⟨current, there⟩ := ended
    exact follows n w current there

/-- The move at the end of a pass. -/
theorem Config.InBody.move_end {w : World} {current : Nat}
    (inside : c.InBody plan depth first stop g rest)
    (there : At σ n
      { c with world := w, frames := { g with next := stop, current := current } :: rest }
      .scheduling) : n.move = n.endOfFrame { g with next := stop, current := current } := by
  rw [there.dispatch rfl inside.floor, if_pos (Nat.le_of_eq inside.stop)]

/-- A frame that is not the body of a procedure is left with nothing else changed. -/
theorem leave_body {w : World} {current : Nat} (body_kind : g.kind.isBoundary = false)
    (there : At σ n
      { c with world := w, frames := { g with next := stop, current := current } :: rest }
      .scheduling) : At σ n.pop.schedule { c with world := w, frames := rest } .scheduling := by
  have left := there.pop rfl
  have notProcedure : g.kind ≠ .procedure := by
    intro kind
    rw [kind] at body_kind
    cases body_kind
  rwa [Config.leave_inner (by exact notProcedure)] at left

/-- A branch is done once. -/
theorem does_branch (row : DoesRow σ fuel plan depth first stop body) (h : At σ m c .scheduling)
    (inside : c.InBody plan depth first stop g rest) (kind : g.kind = .branch)
    (begins : g.next = first) : Does fuel m (body c.world) (LeftBody σ c rest) := by
  have body_kind : g.kind.isBoundary = false := by rw [kind]; rfl
  -- a branch is a pass after which there is nothing left to do
  have once : body = (do
      match ← body with
      | .finished => pure .finished
      | .returned value => return .returned value) := by
    have same (exit : Exit) : (match exit with
      | .finished => pure .finished
      | .returned value => return .returned value : Deed Exit) = pure exit := by cases exit <;> rfl
    simp only [same, bind_pure]
  rw [once]
  refine does_pass row (Nat.le_refl _) h inside body_kind begins fun n w current there => ?_
  refine Does.uncounted (Does.pure ?_)
  show At σ n.move _ .scheduling
  rw [inside.move_end there, endOfFrame]
  simp only [kind]
  exact leave_body body_kind there

/-- A body that is repeated is done as often as is left. -/
theorem does_doTimes (row : DoesRow σ fuel plan depth first stop body) {count : Nat}
    (h : At σ m c .scheduling) (inside : c.InBody plan depth first stop g rest)
    (kind : g.kind = .repeated (count + 1)) (begins : g.next = first) :
    Does fuel m (doTimes body (count + 1) c.world) (LeftBody σ c rest) := by
  have body_kind : g.kind.isBoundary = false := by rw [kind]; rfl
  induction count generalizing m c g with
  | zero =>
    refine does_pass row (Nat.le_refl _) h inside body_kind begins fun n w current there => ?_
    refine Does.uncounted (Does.pure ?_)
    show At σ n.move _ .scheduling
    rw [inside.move_end there, endOfFrame]
    simp only [kind]
    exact leave_body body_kind there
  | succ count ih =>
    refine does_pass row (Nat.le_refl _) h inside body_kind begins fun n w current there => ?_
    refine Does.uncounted ?_
    rw [inside.move_end there, endOfFrame]
    simp only [kind]
    rw [if_pos (by omega)]
    exact ih ((there.updateTop rfl _).again rfl)
      ⟨⟨rfl, inside.plan, inside.depth, inside.floor⟩, inside.first, inside.stop⟩ rfl inside.first
      rfl

/-- A body that is done for ever is done as long as there is fuel. -/
theorem does_doForever (row : DoesRow σ fuel plan depth first stop body) {passes : Nat}
    (enough : passes ≤ fuel) (h : At σ m c .scheduling)
    (inside : c.InBody plan depth first stop g rest) (kind : g.kind = .forever)
    (begins : g.next = first) :
    Does passes m (doForever body passes c.world) (LeftBody σ c rest) := by
  have body_kind : g.kind.isBoundary = false := by rw [kind]; rfl
  induction passes generalizing m c g with
  | zero => exact Does.throw_exhausted (h.isOver rfl)
  | succ passes ih =>
    refine does_pass row enough h inside body_kind begins fun n w current there => ?_
    refine Does.move ?_
    rw [inside.move_end there, endOfFrame]
    simp only [kind]
    exact ih (Nat.le_of_succ_le enough) (there.again rfl)
      ⟨⟨rfl, inside.plan, inside.depth, inside.floor⟩, inside.first, inside.stop⟩ kind inside.first
      body_kind

/-- After a pass the condition of the opener is evaluated. -/
theorem Config.InBody.move_retest {opener close : Nat} {condition : Expr}
    (inside : c.InBody plan depth first stop g rest) (h : At σ m c .scheduling)
    (kind : g.kind = .untilHolds opener) (ended : g.next = stop)
    (hop : plan.ops[opener]? = some (.repeatUntil condition close)) :
    At σ m.move { c with frames := { g with current := opener } :: rest }
      (.evaluating condition ⟨.retest, []⟩) := by
  have moved : m.move =
      (m.updateTop fun f => { f with current := opener }).evaluate condition .retest := by
    rw [h.dispatch inside.frames inside.floor,
      if_pos (Nat.le_of_eq (inside.stop.trans ended.symm)), endOfFrame]
    simp only [kind, inside.plan, hop]
  rw [moved]
  exact (h.updateTop inside.frames _).doing _

/-- A loop that tests a condition goes on after a pass. -/
theorem does_doUntil {opener close : Nat} {condition : Expr} {test : Deed Value}
    (evaluates : Evaluates σ fuel ⟨plan, opener, depth⟩ condition test)
    (row : DoesRow σ fuel plan depth first stop body) {passes : Nat} (enough : passes ≤ fuel)
    (h : At σ m c .scheduling) (inside : c.InBody plan depth first stop g rest)
    (kind : g.kind = .untilHolds opener) (ended : g.next = stop)
    (hop : plan.ops[opener]? = some (.repeatUntil condition close)) :
    Does (passes + 1) m (doUntil test body passes c.world) (LeftBody σ c rest) := by
  have body_kind : g.kind.isBoundary = false := by rw [kind]; rfl
  induction passes generalizing m c g with
  | zero =>
    refine Does.move (Does.throw_exhausted ?_)
    exact (inside.move_retest h kind ended hop).isOver rfl
  | succ passes ih =>
    refine Does.move ?_
    refine ((evaluates _ _ _ (inside.move_retest h kind ended hop)
      ⟨inside.depth, _, _, rfl, inside.plan, rfl⟩ rfl).weaken enough).bind ?_
    intro value w n delivering
    refine Does.uncounted ?_
    rw [move_conclude delivering.activity, conclude_retest]
    split
    · refine Does.pure ?_
      have left := delivering.pop rfl
      have notProcedure : g.kind ≠ .procedure := by rw [kind]; nofun
      rwa [Config.leave_inner (by exact notProcedure)] at left
    · refine does_pass row enough (delivering.again rfl)
        ⟨⟨rfl, inside.plan, inside.depth, inside.floor⟩, inside.first, inside.stop⟩ body_kind
        inside.first fun n w current there => ?_
      exact ih (Nat.le_of_succ_le enough) there
        ⟨⟨rfl, inside.plan, inside.depth, inside.floor⟩, inside.first, inside.stop⟩ kind rfl
        body_kind

end

/-! ## Blocks -/

/-- A state after the innermost frame has begun its next block. -/
def Config.begun (c : Config) (f : Frame) (rest : List Frame) : Config :=
  { c with frames := { f with next := f.next + 1, current := f.next } :: rest }

section

variable {plan : Plan} {depth index close : Nat} {e : Expr} {test : Deed Value} {body : Deed Exit}

theorem Config.Top.stands_begun (top : c.Top plan depth f rest) (next : f.next = index) :
    (c.begun f rest).Stands ⟨plan, index, depth⟩ :=
  ⟨top.depth, _, _, rfl, top.plan, next⟩

/-- The next block of the innermost frame is begun. -/
theorem Config.Top.move_begin {op : Op} (top : c.Top plan depth f rest) (h : At σ m c .scheduling)
    (next : f.next = index) (more : index < f.stop) (hop : plan.ops[index]? = some op) :
    m.move = m.beginNext.perform index op ∧ At σ m.beginNext (c.begun f rest) .scheduling := by
  subst next
  rw [← top.plan] at hop
  refine ⟨?_, h.beginNext top.frames⟩
  rw [h.dispatch top.frames top.floor, if_neg (Nat.not_le_of_lt more), performNext_some hop]

/-- The expression of a block is evaluated first. -/
theorem Config.Top.evaluates {fuel' : Nat} {op : Op} {purpose : Purpose}
    {k : Value → Deed Exit} {P : Exit → World → Machine → Prop} (top : c.Top plan depth f rest)
    (h : At σ m c .scheduling) (next : f.next = index) (more : index < f.stop)
    (hop : plan.ops[index]? = some op)
    (performs : ∀ n : Machine, n.perform index op = n.evaluate e purpose)
    (wanted : (Evaluation.mk purpose []).wantsValue)
    (evaluates : Evaluates σ fuel ⟨plan, index, depth⟩ e test) (enough : fuel' ≤ fuel)
    (follows : ∀ (n : Machine) (w : World) (value : Value),
      At σ n ((c.begun f rest).inWorld w) (.delivering value ⟨purpose, []⟩) →
        Does fuel' n.move (k value w) P) :
    Does (fuel' + 1) m ((test >>= k) c.world) P := by
  obtain ⟨moved, begun⟩ := top.move_begin h next more hop
  have evaluating : At σ m.move (c.begun f rest) (.evaluating e ⟨purpose, []⟩) := by
    rw [moved, performs]
    exact begun.doing _
  refine Does.move (((evaluates _ _ _ evaluating (top.stands_begun next) wanted).weaken
    enough).bind ?_)
  intro value w n delivering
  exact (follows n w value delivering).uncounted

/-- The frame goes on behind the end of a body that is not entered. -/
theorem Ended.skip {activity : Activity} (h : At σ n ((c.begun f rest).inWorld w) activity)
    (close : Nat) : Ended σ c f rest (close + 1) .finished w (n.jumpPast close).schedule :=
  ⟨f.next, h.jumpPast rfl close⟩

/-- A state in which a body has been entered from the block that opens it. -/
def Config.entered (c : Config) (f : Frame) (rest : List Frame) (close first stop : Nat)
    (kind : FrameKind) : Config :=
  { c with
    frames :=
      .enter f.plan first stop kind :: { f with next := close + 1, current := f.next } :: rest }

theorem Config.Top.inBody (top : c.Top plan depth f rest) (w : World) (close first stop : Nat)
    (kind : FrameKind) :
    ((c.inWorld w).entered f rest close first stop kind).InBody plan depth first stop
      (.enter f.plan first stop kind) ({ f with next := close + 1, current := f.next } :: rest) :=
  ⟨⟨rfl, top.plan, top.depth, Nat.le_succ_of_le top.floor⟩, rfl, rfl⟩

/-- What leaves the body leaves the frame behind its end. -/
theorem Does.ended {x : Deed Exit} {close first stop : Nat} {kind : FrameKind}
    (h : Does fuel m (x w) (LeftBody σ ((c.inWorld w).entered f rest close first stop kind)
      ({ f with next := close + 1, current := f.next } :: rest))) :
    Does fuel m (x w) (Ended σ c f rest (close + 1)) :=
  h.mono (Nat.le_refl _) fun _ _ _ left => left.ended

/-- A repeat evaluates its count and does its body so often. -/
theorem doesTree_repeatTimes (hop : plan.ops[index]? = some (.repeatTimes e close))
    (evaluates : Evaluates σ fuel ⟨plan, index, depth⟩ e test)
    (row : DoesRow σ fuel plan depth (index + 1) close body) :
    DoesTree σ (fuel + 1) plan depth index (close + 1) (do
      let count := repeatCount (← number ⟨plan, index, depth⟩ (← test))
      doTimes body count) := by
  intro m c f rest h top next more
  refine top.evaluates h next more hop (fun _ => rfl) rfl evaluates (Nat.le_refl _) ?_
  intro n w value delivering
  rw [move_conclude delivering.activity]
  unfold number
  cases read : value.expectNumber with
  | error e =>
    rw [conclude_times_error read]
    exact Does.bind (P := fun _ _ _ => False)
      (Does.fail delivering ((top.stands_begun next).inWorld w) rfl) nofun
  | ok x =>
    rw [conclude_times read]
    show Does fuel _ (doTimes body (repeatCount x) w) _
    by_cases none : repeatCount x = 0
    · rw [if_pos none, none]
      exact Does.pure (.skip delivering close)
    · rw [if_neg none]
      obtain ⟨count, some⟩ := Nat.exists_eq_succ_of_ne_zero none
      rw [some]
      exact (does_doTimes row (delivering.enter rfl close (index + 1) close _)
        (top.inBody w _ _ _ _) rfl rfl).ended

/-- A loop with a condition tests it before every pass. -/
theorem doesTree_repeatUntil (hop : plan.ops[index]? = some (.repeatUntil e close))
    (evaluates : Evaluates σ fuel ⟨plan, index, depth⟩ e test)
    (row : DoesRow σ fuel plan depth (index + 1) close body) :
    DoesTree σ (fuel + 1) plan depth index (close + 1) (doUntil test body fuel) := by
  intro m c f rest h top next more
  cases fuel with
  | zero =>
    obtain ⟨moved, begun⟩ := top.move_begin h next more hop
    refine Does.move (Does.throw_exhausted ?_)
    rw [moved]
    exact (begun.doing (.evaluating e ⟨.firstTest index close, []⟩)).isOver rfl
  | succ fuel =>
    refine top.evaluates h next more hop (fun _ => rfl) rfl evaluates (Nat.le_refl _) ?_
    intro n w value delivering
    rw [move_conclude delivering.activity, conclude_firstTest]
    split
    · exact Does.pure (.skip delivering close)
    · refine Does.ended (does_pass row (Nat.le_refl _)
        (delivering.enter rfl close (index + 1) close _)
        (top.inBody w _ _ _ _) rfl rfl fun n w' current there => ?_)
      have inside := top.inBody w close (index + 1) close (.untilHolds index)
      exact does_doUntil evaluates row (Nat.le_succ _) there
        ⟨⟨rfl, inside.plan, inside.depth, inside.floor⟩, rfl, rfl⟩ rfl rfl hop

/-- A loop without end enters its body at once. -/
theorem doesTree_forever (hop : plan.ops[index]? = some (.forever close))
    (row : DoesRow σ fuel plan depth (index + 1) close body) :
    DoesTree σ (fuel + 1) plan depth index (close + 1) (doForever body fuel) := by
  intro m c f rest h top next more
  obtain ⟨moved, begun⟩ := top.move_begin h next more hop
  have inside := top.inBody c.world close (index + 1) close .forever
  have entered : At σ m.move ((c.inWorld c.world).entered f rest close (index + 1) close .forever)
      .scheduling := by
    rw [moved]
    exact begun.enter rfl close (index + 1) close .forever
  exact Does.move (does_doForever row (Nat.le_refl _) entered inside rfl rfl).ended

/-- An if does the branch that its condition chooses, if there is one. -/
theorem doesTree_ifThen {middle : Option Nat} {yes no : Deed Exit}
    (hop : plan.ops[index]? = some (.ifThen e middle close))
    (evaluates : Evaluates σ fuel ⟨plan, index, depth⟩ e test)
    (branch : ∀ holds, match chosenBranch holds index middle close with
      | some (first, stop) => DoesRow σ fuel plan depth first stop (if holds then yes else no)
      | none => (if holds then yes else no) = pure .finished) :
    DoesTree σ (fuel + 1) plan depth index (close + 1) (do
      if (← test).isTruthy then yes else no) := by
  intro m c f rest h top next more
  refine top.evaluates h next more hop (fun _ => rfl) rfl evaluates (Nat.le_refl _) ?_
  intro n w value delivering
  rw [move_conclude delivering.activity, conclude_branch]
  have chosen := branch value.isTruthy
  cases body : chosenBranch value.isTruthy index middle close with
  | none =>
    rw [body] at chosen
    rw [chosen]
    exact Does.pure (.skip delivering close)
  | some range =>
    rw [body] at chosen
    exact (does_branch chosen (delivering.enter rfl close range.1 range.2 .branch)
      (top.inBody w _ _ _ _) rfl rfl).ended

/-- A return hands its value on. -/
theorem doesTree_giveBack (hop : plan.ops[index]? = some (.giveBack e))
    (evaluates : Evaluates σ fuel ⟨plan, index, depth⟩ e test) :
    DoesTree σ (fuel + 1) plan depth index (index + 1) (do return .returned (← test)) := by
  intro m c f rest h top next more
  obtain ⟨moved, begun⟩ := top.move_begin h next more hop
  have evaluating : At σ m.move (c.begun f rest) (.evaluating e ⟨.giveBack, []⟩) := by
    rw [moved]
    exact begun.doing _
  refine Does.move ((evaluates _ _ _ evaluating (top.stands_begun next) rfl).bind ?_)
  intro value w n delivering
  exact Does.pure ⟨[], { f with next := f.next + 1, current := f.next }, nofun, rfl, delivering⟩

/-- A machine that does the expression as a block of its own does the deed. -/
def Executes (σ : Setting) (fuel : Nat) (p : Place) (e : Expr) (x : Deed Unit) : Prop :=
  ∀ (m : Machine) (c : Config), At σ m c (.evaluating e ⟨.statement, []⟩) → c.Stands p →
    floorOf c.suspended < c.frames.length →
      Does fuel m (x c.world) fun _ w n => At σ n (c.inWorld w) .scheduling

/-- A block that is no control block is done, and then the next. -/
theorem doesTree_statement {x : Deed Unit} (hop : plan.ops[index]? = some (.statement e))
    (executes : Executes σ fuel ⟨plan, index, depth⟩ e x) :
    DoesTree σ (fuel + 1) plan depth index (index + 1) (do x; return .finished) := by
  intro m c f rest h top next more
  obtain ⟨moved, begun⟩ := top.move_begin h next more hop
  have evaluating : At σ m.move (c.begun f rest) (.evaluating e ⟨.statement, []⟩) := by
    rw [moved]
    exact begun.doing _
  refine Does.move ((executes _ _ evaluating (top.stands_begun next)
    (Nat.lt_succ_of_le top.floor)).bind ?_)
  intro _ w n there
  subst next
  exact Does.pure ⟨_, there⟩

/-- A block that does nothing is passed over. -/
theorem doesTree_marker (hop : plan.ops[index]? = some .marker) :
    DoesTree σ (fuel + 1) plan depth index (index + 1) (return .finished) := by
  intro m c f rest h top next more
  obtain ⟨moved, begun⟩ := top.move_begin h next more hop
  refine Does.move (Does.pure ?_)
  rw [moved]
  subst next
  exact ⟨_, begun.schedule⟩

end

end Blockwork
