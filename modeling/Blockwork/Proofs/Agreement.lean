import Blockwork.Proofs.ControlBlocks

/-!
# Machines do what programs say

The machine of a program does what the plain recursion over its trees does: it ends when that does,
and with the same report. So jumps, floors and frames never lead a run astray, however loops,
branches, calls and returns are nested.

## Main statements

* `agrees`: what is done with some fuel is done by a machine.
* `Program.report_iff`: a run ends with a report when the plain recursion does.

The proof follows the recursion, by induction on its fuel.
-/

namespace Blockwork

open Machine Reference

variable {σ : Setting} {fuel : Nat} {m n : Machine} {c : Config} {p : Place} {w : World}
  {around : Evaluation}

/-! ## Scripts -/

/-- No native function of an expression requests a stop. -/
abbrev Expr.Quiet (e : Expr) : Prop := e.All (fun f _ => f.NeverStops) fun _ => True

/-- No native function of a plan requests a stop. -/
abbrev Plan.Quiet (plan : Plan) : Prop := plan.All (fun f _ => f.NeverStops) fun _ => True

/-- What there is to know about a script. -/
structure Reference.Script.Sound (s : Script) : Prop where
  quiet : s.plan.Quiet
  reads : ∃ shapes, s.plan.Bracketed shapes ∧ Tree.RowReads shapes s.trees 0 s.plan.ops.size

theorem Reference.Setting.script_sound
    (quiet : ∀ name f, σ.natives.get? name = some f → f.NeverStops)
    {caller : Option BlockLocation} {id : ChainId} {s : Script} (h : σ.script caller id = .ok s) :
    s.Sound := by
  unfold script at h
  split at h
  · cases h
  · next chain found =>
    obtain ⟨plan, ofChain, h⟩ := ok_of_bind h
    cases h
    obtain ⟨shapes, ops, shaped, -, -⟩ := Plan.ofChain_ok ofChain
    have bracketed := Plan.bracketed_of_ofChain ofChain shaped
    refine ⟨(Plan.all_of_ofChain ofChain).mono ?_ fun _ _ => trivial, shapes, bracketed, ?_⟩
    · rintro f count ⟨id, d, name, -, -, offered, -⟩
      exact quiet name f offered
    · have row := Tree.rowReads_read bracketed.closed
      rw [← bracketed.length, Chain.trees]
      simp only [shaped]
      exact row

/-- A machine finds the plan of a script. -/
theorem Machine.At.plan {activity : Activity} (h : At σ m c activity) (id : ChainId) :
    m.plan id = (σ.script m.location id).map Script.plan := by
  rw [plan_of_plans h.plans, Setting.script]
  cases σ.program.chain? id with
  | none => rfl
  | some chain =>
    simp only
    cases Plan.ofChain ⟨σ.program.definitions, σ.natives⟩ chain <;> rfl

/-! ## Calls -/

/-- What a call leads to. A value that is wanted is handed on; if there is none, the machine still
waits for it. -/
def Called (σ : Setting) (c : Config) (definition : String) (around : Evaluation) :
    Exit → World → Machine → Prop
  | .returned value, w, n =>
    if around.wantsValue then At σ n (c.inWorld w) (.delivering value around)
    else At σ n (c.inWorld w) .scheduling
  | .finished, w, n =>
    if around.wantsValue then
      At σ n
        { c with world := w, suspended := ⟨definition, c.frames.length, around⟩ :: c.suspended }
        .scheduling
    else At σ n (c.inWorld w) .scheduling

/-- A machine that calls the procedure at the place does the deed. -/
def Calls (σ : Setting) (fuel : Nat) (p : Place) (definition : String) (body : ChainId)
    (parameters : List String) (arguments : List Value) (x : Deed Exit) : Prop :=
  ∀ (m : Machine) (c : Config) (around : Evaluation),
    At σ m c (.calling (.procedure definition body parameters) arguments around) → c.Stands p →
      (around.wantsValue = false → floorOf c.suspended < c.frames.length) →
        Does fuel m (x c.world) (Called σ c definition around)

section

variable {definition : String} {body : ChainId} {parameters : List String} {arguments : List Value}

/-- The evaluations that wait while a procedure is run. -/
def Config.waiting (c : Config) (definition : String) (around : Evaluation) : List Suspension :=
  if around.wantsValue then ⟨definition, c.frames.length, around⟩ :: c.suspended else c.suspended

/-- A state in which a procedure has been entered. -/
def Config.inside (c : Config) (w : World) (definition : String) (around : Evaluation)
    (plan : Plan) : Config :=
  ⟨w, .enter plan 0 plan.ops.size .procedure :: c.frames, c.depth + 1, c.waiting definition around⟩

/-- A procedure is entered when there is room for it and it has a plan. -/
theorem Machine.At.call_procedure {script : Script}
    (h : At σ m c (.calling (.procedure definition body parameters) arguments around))
    (stands : c.Stands p) (room : ¬σ.limit ≤ p.depth)
    (ok : σ.script (some p.location) body = .ok script) :
    At σ m.move (c.inside ⟨c.world.env.push (.ofParameters parameters arguments), c.world.output⟩
      definition around script.plan) .scheduling := by
  have space : ¬m.depthLimit ≤ m.depth := by rwa [h.limit, h.depth, stands.1]
  have found : m.plan body = .ok script.plan := by
    rw [h.plan, h.location stands, ok]
    rfl
  rw [move_calling h.activity, Machine.call_procedure]
  refine h.kept (kept_enterProcedure m _ _ _ _ _) ?_ ?_
  · rw [← h.config]
    unfold enterProcedure Config.inside Config.waiting
    simp only [if_neg space, found]
    split <;> exact config_publish
  · unfold enterProcedure
    simp only [if_neg space, found]
    rfl

theorem Config.floor_waiting
    (inner : around.wantsValue = false → floorOf c.suspended < c.frames.length) :
    floorOf (c.waiting definition around) ≤ c.frames.length := by
  unfold waiting
  split
  · exact Nat.le_refl _
  · next unwanted => exact Nat.le_of_lt (inner (Bool.eq_false_iff.mpr unwanted))

/-- A procedure is left at its end or by a return, and its scope with it. -/
theorem called_of_ended {plan : Plan} {w' : World} {exit : Exit}
    (inner : around.wantsValue = false → floorOf c.suspended < c.frames.length)
    (h : Ended σ (c.inside w' definition around plan) (.enter plan 0 plan.ops.size .procedure)
      c.frames plan.ops.size exit w n) :
    Called σ c definition around exit ⟨w.env.pop, w.output⟩ n.move := by
  cases exit with
  | finished =>
    obtain ⟨current, there⟩ := h
    have left : At σ n.pop.schedule
        ⟨⟨w.env.pop, w.output⟩, c.frames, c.depth, c.waiting definition around⟩ .scheduling := by
      have left := there.pop rfl
      rwa [Config.leave_procedure rfl] at left
    rw [there.dispatch rfl (Config.floor_waiting inner), if_pos (by exact Nat.le_refl _)]
    simp only [Called]
    split
    · next wanted =>
      rw [Config.waiting, if_pos wanted] at left
      exact left
    · next unwanted =>
      rw [Config.waiting, if_neg unwanted] at left
      exact left
  | returned value =>
    obtain ⟨bodies, f, are, kind, there⟩ := h
    have boundary : f.kind.isBoundary := by rw [kind]; rfl
    rw [move_conclude there.activity]
    show Called σ c definition around _ _ (n.giveBack value)
    simp only [Called]
    split
    · next wanted =>
      have back := there.giveBack_value value rfl are boundary (if_pos wanted) rfl
      rwa [Config.leave_procedure kind] at back
    · next unwanted =>
      have waiting : c.waiting definition around = c.suspended := if_neg unwanted
      have back := there.giveBack_statement value rfl are boundary (by
        show floorOf (c.waiting definition around) < _
        rw [waiting]
        exact inner (Bool.eq_false_iff.mpr unwanted))
      rw [Config.leave_procedure kind] at back
      show At σ _ ⟨_, _, _, c.suspended⟩ _
      rw [← waiting]
      exact back

/-- A procedure that can be entered is called. -/
theorem calls_call (quiet : ∀ name f, σ.natives.get? name = some f → f.NeverStops)
    (row : ∀ script : Script, script.Sound →
      DoesRow σ fuel script.plan (p.depth + 1) 0 script.plan.ops.size
        (doAll (Reference.perform σ fuel script.plan (p.depth + 1)) script.trees)) :
    Calls σ (fuel + 1) p definition body parameters arguments
      (Reference.call σ (fuel + 1) p body parameters arguments) := by
  intro m c around h stands inner
  rw [Reference.call]
  have entering := (move_calling h.activity).trans Machine.call_procedure
  by_cases full : σ.limit ≤ p.depth
  · rw [if_pos full]
    have none : m.depthLimit ≤ m.depth := by rwa [h.limit, h.depth, stands.1]
    rw [enterProcedure, if_pos none, h.limit] at entering
    refine Does.move ?_
    rw [entering]
    exact Does.throw_failed ⟨0, h.report_fail stands _⟩
  · rw [if_neg full]
    have space : ¬m.depthLimit ≤ m.depth := by rwa [h.limit, h.depth, stands.1]
    cases found : σ.script (some p.location) body with
    | error failure =>
      have none : m.plan body = .error failure := by
        rw [h.plan, h.location stands, found]
        rfl
      rw [enterProcedure, if_neg space, none] at entering
      refine Does.move ?_
      rw [entering]
      exact Does.throw_failed ⟨0, h.report_finish _⟩
    | ok script =>
      have entered := h.call_procedure stands full found
      refine Does.move ?_
      refine (row script (σ.script_sound quiet found) m.move _ _ _ entered
        ⟨rfl, rfl, congrArg (· + 1) stands.1, Config.floor_waiting inner⟩ rfl
        (Nat.le_refl _)).bind ?_
      intro exit w n ended
      refine Does.uncounted ?_
      exact Does.pure (called_of_ended inner ended)

end

/-! ## Expressions -/

/-- What is done with some fuel is done by a machine. -/
structure Agrees (σ : Setting) (fuel : Nat) : Prop where
  evaluates : ∀ (p : Place) (e : Expr), e.Quiet →
    Evaluates σ fuel p e (Reference.evaluate σ fuel p e)
  executes : ∀ (p : Place) (e : Expr), e.Quiet →
    Executes σ fuel p e (Reference.execute σ fuel p e)
  calls : ∀ (p : Place) (definition : String) (body : ChainId) (parameters : List String)
    (arguments : List Value), Calls σ fuel p definition body parameters arguments
      (Reference.call σ fuel p body parameters arguments)
  performs : ∀ (plan : Plan) (shapes : List Shape) (depth : Nat) (t : Tree) (i k : Nat),
    plan.Quiet → plan.Bracketed shapes → Tree.Reads shapes t i k →
      DoesTree σ fuel plan depth i k (Reference.perform σ fuel plan depth t)

/-- The arguments of a call are evaluated, and then it is called. -/
theorem Agrees.gathers (agrees : Agrees σ fuel) {callee : Callee} {arguments : List Expr}
    (stands : c.Stands p)
    (gathering : At σ m.move c (.gathering callee [] around.purpose around.calls arguments))
    (quiet : ∀ a ∈ arguments, a.Quiet) {α : Type} {k : List Value → Deed α}
    {P : α → World → Machine → Prop}
    (called : ∀ (values : List Value) (w : World) (n : Machine),
      At σ n (c.inWorld w) (.calling callee values around) → Does fuel n (k values w) P) :
    Does (fuel + 1) m ((arguments.mapM (Reference.evaluate σ fuel p) >>= k) c.world) P := by
  refine Does.move ((does_arguments (fun a ha => agrees.evaluates p a (quiet a ha)) gathering
    stands).bind ?_)
  intro values w n calling
  exact called values w n calling

theorem Agrees.evaluates_succ (agrees : Agrees σ fuel) {e : Expr} (quiet : e.Quiet) :
    Evaluates σ (fuel + 1) p e (Reference.evaluate σ (fuel + 1) p e) := by
  intro m c around h stands wanted
  cases quiet with
  | literal =>
    rw [Reference.evaluate]
    exact Does.uncounted (Does.pure h.evaluate_literal)
  | @native definition function arguments never all =>
    rw [Reference.evaluate]
    refine agrees.gathers stands h.evaluate_native all fun values w n calling => ?_
    refine (does_callNative calling (stands.inWorld w) never).bind ?_
    rintro value w' _ ⟨n', activity, there, rfl⟩
    cases value with
    | some value => exact Does.pure (there.doing _)
    | none => exact Does.fail there (stands.inWorld w') (returned_none.trans (if_pos wanted))
  | @call definition body parameters arguments _ all =>
    rw [Reference.evaluate]
    refine agrees.gathers stands h.evaluate_call all fun values w n calling => ?_
    refine (agrees.calls p definition body parameters values n _ around calling (stands.inWorld w)
      fun unwanted => absurd wanted (by simp [unwanted])).bind ?_
    intro exit w' n' called
    cases exit with
    | returned value =>
      simp only [Called, if_pos wanted] at called
      exact Does.pure called
    | finished =>
      simp only [Called, if_pos wanted] at called
      exact Does.throw_failed ⟨1, called.report_missing (stands.inWorld w') rfl rfl⟩

theorem Agrees.executes_succ (agrees : Agrees σ fuel) {e : Expr} (quiet : e.Quiet) :
    Executes σ (fuel + 1) p e (Reference.execute σ (fuel + 1) p e) := by
  intro m c h stands inner
  have unwanted : (Evaluation.mk .statement []).wantsValue = false := rfl
  cases quiet with
  | literal =>
    rw [Reference.execute]
    exact Does.uncounted (Does.uncounted (Does.pure h.evaluate_literal.conclude_statement))
  | @native definition function arguments never all =>
    rw [Reference.execute]
    refine agrees.gathers stands h.evaluate_native all fun values w n calling => ?_
    refine (does_callNative calling (stands.inWorld w) never).bind ?_
    rintro value w' _ ⟨n', activity, there, rfl⟩
    cases value with
    | some value => exact Does.uncounted (Does.pure (there.doing _).conclude_statement)
    | none => exact Does.pure there.schedule
  | @call definition body parameters arguments _ all =>
    rw [Reference.execute]
    refine agrees.gathers stands h.evaluate_call all fun values w n calling => ?_
    refine (agrees.calls p definition body parameters values n _ _ calling (stands.inWorld w)
      fun _ => inner).bind ?_
    intro exit w' n' called
    cases exit with
    | returned value =>
      simp only [Called, unwanted] at called
      exact Does.pure called
    | finished =>
      simp only [Called, unwanted] at called
      exact Does.pure called

/-! ## Blocks with their bodies -/

theorem Agrees.row (agrees : Agrees σ fuel) {plan : Plan} {shapes : List Shape} {depth : Nat}
    (quiet : plan.Quiet) (bracketed : plan.Bracketed shapes) {trees : List Tree} {i j : Nat}
    (row : Tree.RowReads shapes trees i j) :
    DoesRow σ fuel plan depth i j (doAll (Reference.perform σ fuel plan depth) trees) :=
  doesRow_doAll (fun t i k => agrees.performs plan shapes depth t i k quiet bracketed) row

theorem Agrees.performs_succ (agrees : Agrees σ fuel) {plan : Plan} {shapes : List Shape}
    {depth : Nat} (quiet : plan.Quiet) (bracketed : plan.Bracketed shapes) {t : Tree} {i k : Nat}
    (reads : Tree.Reads shapes t i k) :
    DoesTree σ (fuel + 1) plan depth i k (Reference.perform σ (fuel + 1) plan depth t) := by
  cases reads with
  | plain shape =>
    obtain ⟨op, hop, fits⟩ := bracketed.fits i _ shape
    cases fits with
    | hat =>
      simp only [Reference.perform, Tree.index, hop]
      exact doesTree_marker hop
    | statement =>
      simp only [Reference.perform, Tree.index, hop]
      exact doesTree_statement hop (agrees.executes _ _ (quiet i _ _ hop rfl))
    | giveBack =>
      simp only [Reference.perform, Tree.index, hop]
      exact doesTree_giveBack hop (agrees.evaluates _ _ (quiet i _ _ hop rfl))
  | @body _ close flow inner shape inside =>
    obtain ⟨op, hop, fits⟩ := bracketed.fits i _ shape
    have row : DoesRow σ fuel plan depth (i + 1) close
        (doAll (Reference.perform σ fuel plan depth) inner) :=
      agrees.row quiet bracketed inside
    cases fits with
    | repeatTimes =>
      simp only [Reference.perform, Tree.index, hop]
      exact doesTree_repeatTimes hop (agrees.evaluates _ _ (quiet i _ _ hop rfl)) row
    | repeatUntil =>
      simp only [Reference.perform, Tree.index, hop]
      exact doesTree_repeatUntil hop (agrees.evaluates _ _ (quiet i _ _ hop rfl)) row
    | forever =>
      simp only [Reference.perform, Tree.index, hop]
      exact doesTree_forever hop row
    | ifThen =>
      simp only [Reference.perform, Tree.index, hop]
      refine doesTree_ifThen hop (agrees.evaluates _ _ (quiet i _ _ hop rfl)) fun holds => ?_
      cases holds with
      | true => exact row
      | false => rfl
  | @split _ middle close first second shape inFirst inSecond =>
    obtain ⟨op, hop, fits⟩ := bracketed.fits i _ shape
    cases fits
    simp only [Reference.perform, Tree.index, hop]
    refine doesTree_ifThen hop (agrees.evaluates _ _ (quiet i _ _ hop rfl)) fun holds => ?_
    cases holds with
    | true => exact agrees.row quiet bracketed inFirst
    | false => exact agrees.row quiet bracketed inSecond

/-! ## Programs -/

theorem agrees_zero : Agrees σ 0 where
  evaluates p e _ m c around h _ _ := by
    rw [Reference.evaluate]
    exact Does.throw_exhausted (h.isOver rfl)
  executes p e _ m c h _ _ := by
    rw [Reference.execute]
    exact Does.throw_exhausted (h.isOver rfl)
  calls p definition body parameters arguments m c around h _ _ := by
    rw [Reference.call]
    exact Does.throw_exhausted (h.isOver rfl)
  performs plan shapes depth t i k _ _ _ m c f rest h _ _ _ := by
    rw [Reference.perform]
    exact Does.throw_exhausted (h.isOver rfl)

/-- **What is done with some fuel is done by a machine,** if no native function requests a stop. -/
theorem agrees (quiet : ∀ name f, σ.natives.get? name = some f → f.NeverStops) (fuel : Nat) :
    Agrees σ fuel := by
  induction fuel with
  | zero => exact agrees_zero
  | succ fuel ih =>
    refine ⟨fun p e => ih.evaluates_succ, fun p e => ih.executes_succ, fun p _ _ _ _ => ?_,
      fun _ _ _ _ _ _ whole bracketed reads => ih.performs_succ whole bracketed reads⟩
    refine calls_call quiet fun script sound => ?_
    obtain ⟨shapes, bracketed, row⟩ := sound.reads
    exact ih.row sound.quiet bracketed row

/-- The machine of a setting before it runs. -/
def Reference.Setting.machine (σ : Setting) (output : Output) : Machine :=
  .ofProgram σ.program σ.natives σ.limit output

section

variable {chain : ChainId}

theorem at_machine (output : Output) :
    At σ (σ.machine output) ⟨⟨.ofGlobals σ.program.globals, output⟩, [], 0, []⟩ .idle :=
  ⟨rfl, rfl, rfl, rfl, rfl⟩

theorem plan_machine (output : Output) (chain : ChainId) :
    (σ.machine output).plan chain = (σ.script none chain).map Script.plan :=
  (at_machine output).plan chain

/-- A run of a chain that has a plan begins with a frame for all of its blocks. -/
theorem at_start {script : Script} (h : σ.script none chain = .ok script) (output : Output) :
    At σ ((σ.machine output).start chain)
      ⟨⟨.ofGlobals σ.program.globals, output⟩,
        [.enter script.plan 0 script.plan.ops.size .root], 0, []⟩ .scheduling := by
  have found : (σ.machine output).plan chain = .ok script.plan := by
    rw [plan_machine, h]
    rfl
  have entered : (σ.machine output).start chain =
      ((σ.machine output).push (.enter script.plan 0 script.plan.ops.size .root)).schedule := by
    rw [start, found]
  rw [entered]
  exact ((at_machine output).kept (kept_push _ _) config_push rfl).schedule

/-- A run of a chain that has no plan is over at once. -/
theorem report_start {failure : Failure} (h : σ.script none chain = .error failure)
    (output : Output) : ((σ.machine output).start chain).report? =
      some ⟨.failed failure, output, σ.program.globals⟩ := by
  have found : (σ.machine output).plan chain = .error failure := by
    rw [plan_machine, h]
    rfl
  rw [start, found]
  exact (at_machine output).report_finish _

end

/-- The innermost frame has come to its end, or has been left by a return, and there is no other. -/
theorem report_of_ended {plan : Plan} {c : Config} {exit : Exit} (suspended : c.suspended = [])
    (h : Ended σ c (.enter plan 0 plan.ops.size .root) [] plan.ops.size exit w n) :
    ∃ k, (move^[k] n).report? = some
      ⟨match exit with
        | .finished => .completed none
        | .returned value => .completed (some value), w.output, w.env.globals⟩ := by
  cases exit with
  | finished =>
    obtain ⟨current, there⟩ := h
    have floor : floorOf c.suspended ≤ 0 := by
      rw [suspended]
      exact Nat.le_refl 0
    have left : At σ n.move { c with world := w, frames := [] } .scheduling := by
      rw [there.dispatch rfl floor, if_pos (by exact Nat.le_refl _)]
      have left := there.pop rfl
      rwa [Config.leave_inner (by exact nofun)] at left
    exact ⟨2, left.report_over rfl suspended⟩
  | returned value =>
    obtain ⟨inner, f, bodies, kind, there⟩ := h
    refine ⟨1, ?_⟩
    rw [Function.iterate_one, move_conclude there.activity]
    exact there.report_giveBack value rfl bodies kind suspended

/-- A machine comes to the report of the reference. If there is none, it breaks off, or it is not
over after as many moves as there was fuel. -/
theorem report_of_run (σ : Setting)
    (quiet : ∀ name f, σ.natives.get? name = some f → f.NeverStops) (output : Output)
    (chain : ChainId) (fuel : Nat) :
    match Reference.run σ output chain fuel with
    | some report => ∃ k, (move^[k] ((σ.machine output).start chain)).report? = some report
    | none => ∃ k, (fuel ≤ k ∧ (move^[k] ((σ.machine output).start chain)).isOver = false) ∨
        ∃ message, (move^[k] ((σ.machine output).start chain)).activity = .panicked message := by
  unfold Reference.run
  cases script : σ.script none chain with
  | error failure => exact ⟨0, report_start script output⟩
  | ok script' =>
    have sound := σ.script_sound quiet script
    obtain ⟨shapes, bracketed, row⟩ := sound.reads
    have done : Does fuel ((σ.machine output).start chain)
        (doAll (Reference.perform σ fuel script'.plan 0) script'.trees
          ⟨.ofGlobals σ.program.globals, output⟩) _ :=
      (agrees quiet fuel).row sound.quiet bracketed row _ _ _ _ (at_start script output)
        ⟨rfl, rfl, rfl, Nat.le_refl 0⟩ rfl (Nat.le_refl _)
    revert done
    simp only
    rcases doAll (Reference.perform σ fuel script'.plan 0) script'.trees
      ⟨.ofGlobals σ.program.globals, output⟩ with ⟨exit, w⟩ | ⟨halt, w⟩ <;> intro done
    · obtain ⟨k, ended⟩ := done
      obtain ⟨l, report⟩ := report_of_ended rfl ended
      rw [← Function.iterate_add_apply] at report
      cases exit with
      | finished => exact ⟨l + k, report⟩
      | returned value => exact ⟨l + k, report⟩
    · cases halt with
      | failed failure => exact done
      | panicked message =>
        obtain ⟨k, broken⟩ := done
        exact ⟨k, Or.inr ⟨message, broken⟩⟩
      | exhausted =>
        obtain ⟨k, enough, runs⟩ := done
        exact ⟨k, Or.inl ⟨enough, runs⟩⟩

/-- A run has one report. -/
theorem report_unique {k l : Nat} {r r' : Report} (h : (move^[k] m).report? = some r)
    (h' : (move^[l] m).report? = some r') : r = r' := by
  have settled {j : Nat} {r : Report} (h : (move^[j] m).report? = some r) (i : Nat) :
      (move^[i + j] m).report? = some r := by
    obtain ⟨outcome, ended, -⟩ := Option.map_eq_some_iff.mp h
    rw [Function.iterate_add_apply, iterate_of_isOver (isOver_of_outcome ended), h]
  have first := settled h l
  have second := settled h' k
  rw [Nat.add_comm, second] at first
  exact (Option.some.inj first).symm

/-- A run that has a report is over from then on, and has not broken off. -/
theorem report_excludes {k l : Nat} {r : Report} (h : (move^[k] m).report? = some r) :
    ¬((k ≤ l ∧ (move^[l] m).isOver = false) ∨
      ∃ message, (move^[l] m).activity = .panicked message) := by
  obtain ⟨outcome, ended, -⟩ := Option.map_eq_some_iff.mp h
  have halted := isOver_of_outcome ended
  rintro (⟨le, runs⟩ | ⟨message, broken⟩)
  · obtain ⟨i, rfl⟩ := Nat.exists_eq_add_of_le' le
    rw [Function.iterate_add_apply, iterate_of_isOver halted, halted] at runs
    cases runs
  · have broken_off : (move^[l] m).isOver := by simp [isOver, broken]
    have same : move^[l] m = move^[k] m := by
      rw [← iterate_of_isOver broken_off k, ← iterate_of_isOver halted l,
        ← Function.iterate_add_apply, ← Function.iterate_add_apply, Nat.add_comm]
    rw [same] at broken
    simp [outcome?, broken] at ended

/-- **A run ends with a report when the plain recursion does,** if no native function requests a
stop. In particular one ends when the other does, with the same outcome, output and variables. -/
theorem Program.report_iff {p : Program} {natives : NativeTable}
    (quiet : ∀ name f, natives.get? name = some f → f.NeverStops) (limit : Nat) (output : Output)
    (chain : ChainId) (r : Report) :
    (∃ k, (move^[k] ((ofProgram p natives limit output).start chain)).report? = some r) ↔
      ∃ fuel, Reference.run ⟨p, natives, limit⟩ output chain fuel = some r := by
  constructor
  · rintro ⟨k, report⟩
    have result := report_of_run ⟨p, natives, limit⟩ quiet output chain k
    cases ran : Reference.run ⟨p, natives, limit⟩ output chain k with
    | none =>
      rw [ran] at result
      obtain ⟨l, other⟩ := result
      exact absurd other (report_excludes report)
    | some r' =>
      rw [ran] at result
      obtain ⟨l, report'⟩ := result
      exact ⟨k, ran.trans (congrArg some (report_unique report' report))⟩
  · rintro ⟨fuel, ran⟩
    have result := report_of_run ⟨p, natives, limit⟩ quiet output chain fuel
    rw [ran] at result
    exact result

/-- A program that prints a value which is returned out of two loops and a branch, after something
has been printed as many times as the argument says. -/
def Program.searching : Program where
  definitions := Registry.builtins.insert (.procedure "search" ["times"])
  globals := .empty
  chains :=
    [⟨0, Chain.origin, [⟨"on_start", []⟩,
        ⟨"print", [.block "search" [.literal (.text "2")]]⟩]⟩,
      ⟨1, Chain.origin, [⟨"define", [.definition (.procedure "search" ["times"])]⟩,
        ⟨"repeat", [.block "get_var" [.literal (.text "times")]]⟩,
        ⟨"print", [.literal (.text "looking")]⟩, ⟨"end", []⟩, ⟨"forever", []⟩,
        ⟨"if", [.literal (.boolean true)]⟩, ⟨"repeat_until", [.literal (.boolean false)]⟩,
        ⟨"return", [.literal (.text "found")]⟩, ⟨"end", []⟩, ⟨"end", []⟩, ⟨"end", []⟩]⟩]

/-- A run that repeats a body as often as a parameter says, and then returns from within its
loops. -/
theorem Program.report_iff_searching :
    (∀ name f, Native.standard.get? name = some f → f.NeverStops) ∧
      ∃ k r, (move^[k] ((ofProgram searching Native.standard 64 .unlimited).start 0)).report? =
        some r ∧ r.output.text = "looking\nlooking\nfound\n" := by
  have quiet (name : String) (f : Native) (h : Native.standard.get? name = some f) :
      f.NeverStops := (Native.harmless_standard h).stop
  have ran : (Reference.run ⟨searching, Native.standard, 64⟩ .unlimited 0 40).map
      (fun r => r.output.text) = some "looking\nlooking\nfound\n" := by decide +kernel
  obtain ⟨r, report, text⟩ := Option.map_eq_some_iff.mp ran
  obtain ⟨k, ended⟩ := (report_iff quiet 64 .unlimited 0 r).mpr ⟨40, report⟩
  exact ⟨quiet, k, r, ended, text⟩

end Blockwork
