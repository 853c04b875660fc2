import Blockwork.Proofs.Stops

/-!
# Stopping a run

Once a stop has been requested, a run comes to its end. The evaluations under way are finished, as
far as that can be done without beginning a block or going on at the end of a frame, and then the
run is given up, with all of its frames and scopes.

## Main statements

* `Machine.not_passes_of_stop`: no block is begun, and no end of a frame gone on from.
* `Machine.unwinds_of_stop`: the run ends, and how it may end.
* `Program.unwinds_of_reaches`: this holds of all runs, whoever requests the stop and when.
-/

namespace Blockwork

namespace Machine

/-! ## How a run may end -/

/-- In the next move the machine begins a block, or goes on at the end of a frame. -/
def Passes (m : Machine) : Prop :=
  m.activity = .scheduling ∧ m.floor < m.frames.length ∧
    ∃ f, m.frames.head? = some f ∧ (m.move = m.performNext f ∨ m.move = m.endOfFrame f)

/-- The run fails by an evaluation that is under way. -/
def FailsWithin (m : Machine) (failure : Failure) : Prop :=
  ∃ k purpose, (purpose, (move^[k] m).frames.length) ∈ m.evaluations ∧
    (move^[k] m).frames <:+ m.frames ∧ (move^[k] m).isOver = false ∧
      (move^[k + 1] m).outcome? = some (.failed failure)

/-- Outside of all suspended evaluations, the machine does a return from the run. -/
def ReturnsFromRun (m : Machine) : Prop :=
  ∃ height, m.evaluations.getLast? = some (.giveBack, height) ∧
    ReachesRoot (m.frames.drop (m.frames.length - height))

/-- How a run may end after a stop has been requested. -/
inductive MayEnd (m : Machine) : Outcome → Prop where
  | cancelled : MayEnd m .cancelled
  | failed {failure : Failure} (within : m.FailsWithin failure) : MayEnd m (.failed failure)
  | returned {value : Value} (returns : m.ReturnsFromRun) : MayEnd m (.completed (some value))
  /-- The frame of the run has been left at its end. -/
  | left (activity : m.activity = .scheduling) (frames : m.frames = []) :
      MayEnd m (.completed none)

/-- Nothing is held any more. -/
structure Released (m : Machine) : Prop where
  frames : m.frames = []
  scopes : m.env.scopes = []
  depth : m.depth = 0
  gauge : m.gauge = ⟨0, 0⟩

/-- The run is given up. -/
structure Unwinds (m : Machine) : Prop where
  heeds : ∀ n, Reaches m n → n.stop = true ∧ ¬n.Passes
  ends : ∃ k outcome, (move^[k] m).outcome? = some outcome ∧ m.MayEnd outcome ∧
    (move^[k] m).Released

/-! ## The checkpoint -/

section

variable {m n : Machine}

theorem isOver_perform (index : Nat) (op : Op) : (m.perform index op).isOver = false := by
  cases op <;> rfl

theorem isOver_performNext (f : Frame) : (m.performNext f).isOver = false := by
  unfold performNext
  split
  · exact isOver_perform _ _
  · rfl

theorem isOver_endOfFrame (f : Frame) : (m.endOfFrame f).isOver = false := by
  unfold endOfFrame
  split
  · rfl
  · rfl
  · rfl
  · rfl
  · split <;> rfl
  · simp only
    split <;> rfl

theorem move_of_above (activity : m.activity = .scheduling) (above : m.floor < m.frames.length)
    (stop : m.stop = true) : m.move = m.finish .cancelled := by
  rw [move_scheduling activity, dispatch, if_neg (Nat.not_le_of_lt above), if_pos stop]

/-- **After a request no block is begun, and no end of a frame gone on from.** -/
theorem not_passes_of_stop (stop : m.stop = true) : ¬m.Passes := by
  rintro ⟨activity, above, f, -, moved⟩
  have halted : m.move.isOver := by
    rw [move_of_above activity above stop]
    rfl
  rcases moved with moved | moved
  · rw [moved, isOver_performNext] at halted
    cases halted
  · rw [moved, isOver_endOfFrame] at halted
    cases halted

/-! ## The evaluations under way -/

/-- The frames of a machine are in order, and its native functions cooperate. -/
structure Orderly (S : ChainId → List Shape) (m : Machine) : Prop where
  framed : m.Framed S
  cooperates : m.Cooperates

variable {S : ChainId → List Shape}

theorem InOrder.stands (h : m.InOrder S) {around : Evaluation}
    (works : m.activity.around? = some around) : m.Stands S (some around.purpose) := by
  have order := h
  unfold InOrder at order
  cases activity : m.activity with
  | evaluating e around' | delivering value around' | calling callee arguments around'
  | waiting wait definition value around' =>
    rw [activity] at order works
    cases works
    exact order
  | idle | scheduling | ended _ | panicked _ =>
    rw [activity] at works
    cases works

theorem Framed.released (h : m.Framed S) {outcome : Outcome} (ended : m.outcome? = some outcome) :
    m.Released := by
  have order := h.order
  unfold outcome? at ended
  split at ended
  · next activity =>
    rw [InOrder, activity] at order
    obtain ⟨frames, depth⟩ := order
    have gauge := h.tidy.gauge
    rw [frames, depth] at gauge
    exact ⟨frames, List.length_eq_zero_iff.mp (h.tidy.scopes.trans depth), depth, gauge⟩
  · cases ended

theorem stop_iterate (orderly : ∀ k, (move^[k] m).Orderly S) (stop : m.stop = true) (k : Nat) :
    (move^[k] m).stop = true := by
  induction k with
  | zero => exact stop
  | succ k ih =>
    rw [Function.iterate_succ_apply']
    exact (orderly k).cooperates.stop_move ih

/-- A run that works on an evaluation that was under way ends. -/
theorem ends_of_inside (orderly : ∀ k, (move^[k] m).Orderly S) (stop : m.stop = true) {k : Nat}
    (inside : Inside m (move^[k] m)) :
    ∃ l outcome, (move^[l] m).outcome? = some outcome ∧ m.MayEnd outcome := by
  induction cost : (move^[k] m).cost using Nat.strongRecOn generalizing k with
  | ind c ih =>
    obtain ⟨around, works⟩ := Option.isSome_iff_exists.mp inside.works
    have known := evaluations_of_around works
    have next : (move^[k] m).move = move^[k + 1] m := (Function.iterate_succ_apply' _ _ _).symm
    have becomes : Becomes (move^[k] m) (move^[k] m).move :=
      becomes_move works ((orderly k).framed.order.stands works) fun _ _ arguments _ activity s =>
        ((orderly k).cooperates.callee activity).calm s arguments
    rw [next] at becomes
    cases becomes with
    | @failed failure ended =>
      refine ⟨k + 1, _, ended, .failed ⟨k, around.purpose, ?_, inside.frames, ?_, ended⟩⟩
      · refine inside.evaluations.mem ?_
        rw [known]
        exact List.mem_cons_self
      · unfold isOver
        cases activity : (move^[k] m).activity with
        | ended _ | panicked _ =>
          rw [activity] at works
          cases works
        | _ => rfl
    | @returned value ended last root =>
      refine ⟨k + 1, _, ended, .returned ⟨(move^[k] m).frames.length, ?_, ?_⟩⟩
      · obtain ⟨inner, same⟩ := inside.evaluations
        rw [← same, last, List.getLast?_append]
        rfl
      · rw [← List.suffix_iff_eq_drop.mp inside.frames]
        exact root
    | scheduling activity above =>
      refine ⟨k + 2, .cancelled, ?_, .cancelled⟩
      rw [Function.iterate_succ_apply' move (k + 1),
        move_of_above activity above (stop_iterate orderly stop _)]
      rfl
    | inside inside' less =>
      exact ih _ (cost ▸ less) (inside.trans inside') rfl

/-- A run that works on no evaluation ends in the next move. -/
theorem ends_of_scheduling (framed : m.Framed S) (stop : m.stop = true)
    (activity : m.activity = .scheduling) :
    ∃ outcome, m.move.outcome? = some outcome ∧ m.MayEnd outcome := by
  have order := framed.order
  rw [InOrder, activity] at order
  have moved := move_scheduling activity
  unfold dispatch at moved
  rcases order.split with ⟨frames, -, suspended⟩ | stack | ⟨s, outer, suspended, floor, -⟩
  · -- the frame of the run is gone, and nothing waits
    refine ⟨.completed none, ?_, .left activity frames⟩
    rw [moved, if_pos (by simp [frames]), suspended]
    rfl
  · refine ⟨.cancelled, ?_, .cancelled⟩
    rw [move_of_above activity stack.floor_lt stop]
    rfl
  · -- a procedure has come to its end, and its value is waited for
    have below : m.frames.length ≤ m.floor := by
      rw [Machine.floor, suspended]
      exact Nat.le_of_eq floor.symm
    rw [if_pos below, suspended] at moved
    have ended : m.move.outcome? =
        some (.failed ⟨.missingReturn s.procedure, m.location⟩) := by
      rw [moved]
      rfl
    have runs : m.isOver = false := by
      rw [isOver, activity]
    refine ⟨_, ended, .failed ⟨0, s.evaluation.purpose, ?_, List.suffix_rfl, runs, ended⟩⟩
    rw [evaluations, activity, suspended, List.map_cons, floor]
    exact List.mem_cons_self

theorem ends_of_stop (orderly : ∀ k, (move^[k] m).Orderly S) (stop : m.stop = true)
    (runs : m.isOver = false) :
    ∃ k outcome, (move^[k] m).outcome? = some outcome ∧ m.MayEnd outcome := by
  by_cases works : m.activity.around?.isSome
  · exact ends_of_inside (k := 0) orderly stop (.refl works)
  · cases activity : m.activity with
    | scheduling =>
      obtain ⟨outcome, ended, may⟩ := ends_of_scheduling (orderly 0).framed stop activity
      exact ⟨1, outcome, ended, may⟩
    | idle =>
      have order := (orderly 0).framed.order
      rw [Function.iterate_zero_apply, InOrder, activity] at order
      exact order.elim
    | ended _ | panicked _ =>
      rw [isOver, activity] at runs
      cases runs
    | evaluating _ _ | delivering _ _ | calling _ _ _ | waiting _ _ _ _ =>
      rw [activity] at works
      exact absurd rfl works

/-- A second request changes nothing, so there is nothing but the moves. -/
theorem iterate_of_reaches (orderly : ∀ k, (move^[k] m).Orderly S) (stop : m.stop = true)
    (h : Reaches m n) : ∃ k, n = move^[k] m := by
  induction h with
  | refl => exact ⟨0, rfl⟩
  | work _ ih =>
    obtain ⟨k, rfl⟩ := ih
    exact ⟨k + 1, (Function.iterate_succ_apply' _ _ _).symm⟩
  | stop _ ih =>
    obtain ⟨k, rfl⟩ := ih
    exact ⟨k, requestStop_of_stop (stop_iterate orderly stop k)⟩

/-- **After a request a run ends.** -/
theorem unwinds_of_stop (orderly : ∀ k, (move^[k] m).Orderly S) (stop : m.stop = true)
    (runs : m.isOver = false) : m.Unwinds := by
  obtain ⟨k, outcome, ended, may⟩ := ends_of_stop orderly stop runs
  refine ⟨fun n h => ?_, k, outcome, ended, may, (orderly k).framed.released ended⟩
  obtain ⟨l, rfl⟩ := iterate_of_reaches orderly stop h
  have still := stop_iterate orderly stop l
  exact ⟨still, not_passes_of_stop still⟩

end

end Machine

/-! ## Programs -/

section

open Machine

/-- **However and whenever a stop is requested, the run is given up:** no block is begun any more,
and the run ends as cancelled, or by what an evaluation that was under way leads to. If the request
comes from without, the run has printed what it would have printed anyway, up to some point. It
makes no difference whether the request comes just before a block is begun or a frame left, or just
after. -/
theorem Program.unwinds_of_reaches {p : Program} {natives : NativeTable}
    (keeps : ∀ name f, natives.get? name = some f → f.KeepsScopes)
    (cooperative : ∀ name f, natives.get? name = some f → f.Cooperative) (limit : Nat)
    (output : Output) (chain : ChainId) :
    (∀ m, Reaches ((ofProgram p natives limit output).start chain) m → m.stop = true →
      m.isOver = false → m.Unwinds) ∧
    (∀ i k, ∃ j, ∀ l, j ≤ l → Output.Extended
      (move^[k] (move^[i] ((ofProgram p natives limit output).start chain)).requestStop).output
      (move^[l] ((ofProgram p natives limit output).start chain)).output) ∧
    ∀ (m : Machine) (f : Frame),
      m.requestStop.performNext f = (m.performNext f).requestStop ∧
        m.requestStop.endOfFrame f = (m.endOfFrame f).requestStop := by
  have start : ((ofProgram p natives limit output).start chain).Cooperates :=
    all_of_table cooperative
  have orderly (m : Machine) (h : Reaches ((ofProgram p natives limit output).start chain) m) :
      m.Orderly p.shapes :=
    ⟨framed_of_reaches keeps h, start.reaches (covers_all _) h⟩
  have unwinds (m : Machine) (h : Reaches ((ofProgram p natives limit output).start chain) m)
      (stop : m.stop = true) (runs : m.isOver = false) : m.Unwinds :=
    unwinds_of_stop (fun k => orderly _ (h.trans (reaches_iterate m k))) stop runs
  refine ⟨unwinds, fun i k => ?_, fun m f =>
    ⟨performNext_requestStop f, endOfFrame_requestStop f⟩⟩
  have here := reaches_iterate ((ofProgram p natives limit output).start chain) i
  generalize reached : move^[i] ((ofProgram p natives limit output).start chain) = m at here
  -- the run that is stopped ends at some point, and all that it prints is printed by then
  obtain ⟨e, halted⟩ : ∃ e, (move^[e] m.requestStop).isOver := by
    by_cases runs : m.isOver = false
    · obtain ⟨e, outcome, ended, -⟩ := (unwinds _ here.stop rfl runs).ends
      exact ⟨e, isOver_of_outcome ended⟩
    · have halted : m.isOver := by simpa using runs
      exact ⟨0, halted⟩
  have later : (move^[k + e] m.requestStop).isOver := by
    rw [Function.iterate_add_apply, iterate_of_isOver halted]
    exact halted
  obtain ⟨j, same⟩ := (orderly m here).cooperates.follows later
  refine ⟨j + i, fun l le => ?_⟩
  have printed := (orderly _ here.stop).cooperates.extended_iterate (Nat.le_add_right k e)
  rw [same, ← reached, ← Function.iterate_add_apply] at printed
  rw [← reached]
  exact printed.trans (start.extended_iterate le)

end

namespace Program

/-- A block that requests a stop. -/
def halt : Definition := ⟨"halt", "control", .gray, [.text "halt"], .native "halt"⟩

/-- A program that requests a stop within a value that is to be printed. -/
def halting : Program where
  definitions := (Registry.builtins.insert (.procedure "give" [])).insert halt
  globals := .empty
  chains :=
    [⟨0, Chain.origin, [⟨"on_start", []⟩,
        ⟨"print", [.block "join" [.block "give" [], .literal (.text "!")]]⟩]⟩,
      ⟨1, Chain.origin, [⟨"define", [.definition (.procedure "give" [])]⟩, ⟨"halt", []⟩,
        ⟨"return", [.literal (.text "done")]⟩]⟩]

/-- The standard functions, and one that requests a stop. -/
def haltingNatives : NativeTable := Native.standard.set "halt" Native.stopping

/-- A run that is stopped by a native function while it prints. -/
theorem unwinds_of_reaches_halting :
    (∀ name f, haltingNatives.get? name = some f → f.KeepsScopes) ∧
      (∀ name f, haltingNatives.get? name = some f → f.Cooperative) ∧
      (Machine.move^[10]
        ((Machine.ofProgram halting haltingNatives 64 .unlimited).start 0)).Unwinds := by
  have keeps (name : String) (f : Native) (h : haltingNatives.get? name = some f) :
      f.KeepsScopes := by
    rcases Table.get?_of_set h with rfl | standard
    · exact Native.keepsScopes_stopping
    · exact (Native.harmless_standard standard).scopes
  have cooperative (name : String) (f : Native) (h : haltingNatives.get? name = some f) :
      f.Cooperative := by
    rcases Table.get?_of_set h with rfl | standard
    · exact Native.cooperative_stopping
    · exact (Native.harmless_standard standard).cooperative
  refine ⟨keeps, cooperative, ?_⟩
  exact (unwinds_of_reaches keeps cooperative 64 .unlimited 0).1 _ (Machine.reaches_iterate _ 10)
    (by decide +kernel) (by decide +kernel)

end Program

end Blockwork
