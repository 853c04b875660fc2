import Blockwork.Controller
import Blockwork.Proofs.Ends
import Blockwork.Proofs.Snapshots
import Mathlib.Data.List.Induction
import Mathlib.Logic.Relation

/-!
# What a worker does

A worker moves its machine, and shows what the machine does: it publishes the snapshots one by one,
and sets the gauge. When the machine has come to its end and all has been shown, it sends the
outcome, and its thread exits. The thread may also break off at any point.

An observer may look between any two of these actions, so they are the steps of a relation
(`Worker.Acts`). The steps that a worker is run by are sequences of them.

## Main statements

* `Worker.acts_step`, `Worker.acts_resume`: what a worker is run by is made of its actions.
* `Worker.Runs.of_acts`: how a worker belongs to a run, whatever it does.
* `Worker.Runs.exists_outcome`: an outcome that is sent is one that the run comes to.
-/

namespace Blockwork

open Relation

namespace Worker

/-! ## Actions -/

/-- All that the machine has done has been shown. -/
def Seen (w : Worker) : Prop := w.machine.snapshots = [] ∧ w.gauge = w.machine.gauge

/-- One action of a worker whose thread runs. -/
inductive Acts : Worker → Worker → Prop where
  /-- The machine moves, once all that it has done has been shown. -/
  | move {w : Worker} (running : w.thread = .running) (seen : w.Seen) :
      Acts w { w with machine := w.machine.move }
  /-- The oldest snapshot that has not been published is. -/
  | publish {w : Worker} {s : Snapshot} {newer : List Snapshot} (running : w.thread = .running)
      (oldest : w.machine.snapshots = newer ++ [s]) :
      Acts w { w with machine := { w.machine with snapshots := newer }, latest := some s }
  /-- The gauge is set on the way to what the machine holds. Its two counts are set one after the
  other. -/
  | measure {w : Worker} (gauge : Gauge) (running : w.thread = .running)
      (behind : w.gauge ≠ w.machine.gauge) : Acts w { w with gauge := gauge }
  /-- The outcome is sent when all has been shown. -/
  | send {w : Worker} {outcome : Outcome} (running : w.thread = .running) (seen : w.Seen)
      (ended : w.machine.outcome? = some outcome) : Acts w { w with sent := some outcome }
  | exit {w : Worker} (running : w.thread = .running) (sent : w.sent.isSome) :
      Acts w { w with thread := .exited }
  /-- The thread breaks off, if not for another reason then because the machine has. -/
  | breakOff {w : Worker} {message : String} (running : w.thread = .running)
      (reason : ∀ said, w.machine.activity = .panicked said → message = said) :
      Acts w { w with thread := .panicked message }

variable {w w' : Worker}

/-! ## What a worker is run by -/

/-- Snapshots are published one by one. -/
theorem acts_publish {snapshots : List Snapshot} (running : w.thread = .running)
    (pending : w.machine.snapshots = snapshots) :
    ReflTransGen Acts w
      { w with
        machine := { w.machine with snapshots := [] }
        latest := snapshots.head?.or w.latest } := by
  induction snapshots using List.reverseRecOn generalizing w with
  | nil =>
    have same : ({ w.machine with snapshots := [] } : Machine) = w.machine := by rw [← pending]
    rw [same]
    exact .refl
  | append_singleton newer s ih =>
    have first : Acts w _ := .publish running pending
    have others := ih (w := { w with
      machine := { w.machine with snapshots := newer }, latest := some s }) running rfl
    have latest : newer.head?.or (some s) = (newer ++ [s]).head?.or w.latest := by
      cases newer <;> rfl
    rw [← latest]
    exact .head first others

theorem acts_catchUp (running : w.thread = .running) : ReflTransGen Acts w w.catchUp := by
  have published := acts_publish running rfl
  have all : w.catchUp =
      { w with
        machine := { w.machine with snapshots := [] }
        latest := w.machine.snapshots.head?.or w.latest
        gauge := w.machine.gauge } := by
    simp only [catchUp, Machine.takeSnapshots, List.getLast?_reverse]
  rw [all]
  by_cases behind : w.gauge = w.machine.gauge
  · rwa [← behind]
  · exact published.tail (.measure w.machine.gauge running behind)

theorem seen_catchUp : w.catchUp.Seen := ⟨rfl, rfl⟩

theorem acts_close (running : w.thread = .running) (seen : w.Seen) :
    ReflTransGen Acts w w.close := by
  unfold close
  split
  · next outcome activity =>
    have ended : w.machine.outcome? = some outcome := by rw [Machine.outcome?, activity]
    exact .tail (.single (.send running seen ended)) (.exit running rfl)
  · next message activity =>
    refine .single (.breakOff running fun said panicked => ?_)
    rw [activity] at panicked
    exact Activity.panicked.inj panicked
  · exact .refl

theorem seen_close (seen : w.Seen) : w.close.Seen := by
  unfold close
  split <;> exact seen

/-- A move of the machine is followed by all that shows it. -/
theorem acts_follow {m : Machine} (running : w.thread = .running) (seen : w.Seen)
    (next : m = w.machine ∨ m = w.machine.move) : ReflTransGen Acts w (w.follow m) := by
  have moved : ReflTransGen Acts w { w with machine := m } := by
    rcases next with rfl | rfl
    · exact .refl
    · exact .single (.move running seen)
  exact (moved.trans (acts_catchUp running)).trans (acts_close running seen_catchUp)

/-- **A step of a worker is made of its actions.** -/
theorem acts_step (running : w.thread = .running) (seen : w.Seen) : ReflTransGen Acts w w.step := by
  refine acts_follow running seen ?_
  cases activity : w.machine.activity with
  | waiting wait definition value around =>
    left
    simp only [Machine.step, activity]
  | _ =>
    right
    simp only [Machine.move, activity]

/-- **The end of a wait is made of actions, too.** -/
theorem acts_resume (running : w.thread = .running) (seen : w.Seen) :
    ReflTransGen Acts w w.resume := by
  refine acts_follow running seen ?_
  cases activity : w.machine.activity with
  | waiting wait definition value around =>
    right
    simp only [Machine.move, activity]
  | _ =>
    left
    simp only [Machine.resume, activity]

/-- A worker that has shown all that it has done, and whose thread runs as long as its machine
does. -/
structure Current (w : Worker) : Prop where
  seen : w.Seen
  running : w.machine.isOver = false → w.thread = .running

theorem current_close (running : w.thread = .running) (seen : w.Seen) : w.close.Current := by
  refine ⟨seen_close seen, fun runs => ?_⟩
  unfold close at runs ⊢
  split at runs
  · next outcome activity => simp [Machine.isOver, activity] at runs
  · next message activity => simp [Machine.isOver, activity] at runs
  · exact running

theorem current_follow (running : w.thread = .running) (m : Machine) : (w.follow m).Current :=
  current_close running seen_catchUp

theorem rests_of_isOver {m : Machine} (halted : m.isOver = true) : m.activity.rests = true := by
  unfold Machine.isOver at halted
  cases activity : m.activity with
  | ended outcome => rfl
  | panicked message => rfl
  | _ => simp [activity] at halted

/-- A worker that is run until it rests does nothing but act. -/
theorem acts_advance (fuel : Nat) (h : w.Current) : ReflTransGen Acts w (w.advance fuel) := by
  induction fuel generalizing w with
  | zero => exact .refl
  | succ fuel ih =>
    unfold advance
    by_cases rests : w.machine.activity.rests
    · rw [if_pos rests]
    · rw [if_neg rests]
      have running : w.thread = .running := by
        refine h.running (Bool.eq_false_iff.mpr fun halted => ?_)
        exact rests (rests_of_isOver halted)
      exact (acts_step running h.seen).trans (ih (current_follow running _))

/-! ## How a worker belongs to a run -/

/-- A worker of the run that begins with `m`: it has got to a state of the run, but for the
snapshots that it has published, and what is seen of it fits that state. -/
structure Runs (m : Machine) (w : Worker) : Prop where
  machine : ∃ taken, Machine.Reaches m (w.machine.withTaken taken) ∧ w.latest = taken.head?
  /-- An outcome is the one that the machine has come to, and is sent when all has been shown. -/
  sent : ∀ outcome, w.sent = some outcome → w.machine.outcome? = some outcome ∧ w.Seen
  exited : w.thread = .exited → w.sent.isSome
  /-- A machine that has broken off leaves the gauge as it was, and its message to the thread. -/
  broken : ∀ said, w.machine.activity = .panicked said → w.gauge = w.machine.gauge ∧
    ∀ message, w.thread = .panicked message → message = said

variable {m : Machine}

/-- A worker begins with its run. -/
theorem runs_new (intact : ∀ said, m.activity ≠ .panicked said) : Runs m (new m) := by
  refine ⟨⟨[], ?_, rfl⟩, nofun, nofun, fun said panicked => absurd panicked (intact said)⟩
  have same : m.withTaken [] = m := by simp [Machine.withTaken, Machine.beside]
  show m.Reaches (m.withTaken [])
  rw [same]
  exact .refl

theorem Runs.requestStop (h : Runs m w) : Runs m w.requestStop := by
  obtain ⟨taken, reaches, latest⟩ := h.machine
  exact ⟨⟨taken, .stop reaches, latest⟩, h.sent, h.exited, h.broken⟩

/-- **A worker belongs to its run whatever it does.** -/
theorem Runs.of_acts (h : Runs m w) (acts : Acts w w') : Runs m w' := by
  obtain ⟨taken, reaches, latest⟩ := h.machine
  cases acts with
  | move running seen =>
    refine ⟨⟨taken, ?_, latest⟩, fun outcome sent => ?_, h.exited, fun said panicked => ?_⟩
    · rw [← Machine.move_withTaken]
      exact .work reaches
    · -- a machine whose outcome has been sent does not move any more
      obtain ⟨ended, seen⟩ := h.sent outcome sent
      simp only [Seen, Machine.move_of_isOver (Machine.isOver_of_outcome ended)]
      exact ⟨ended, seen⟩
    · refine ⟨?_, fun message thread => ?_⟩
      · cases halted : w.machine.isOver with
        | true =>
          simp only [Machine.move_of_isOver halted]
          exact seen.2
        | false => exact seen.2.trans ((Machine.leaves_move halted).panicked said panicked).symm
      · rw [running] at thread
        cases thread
  | @publish s newer running oldest =>
    refine ⟨⟨s :: taken, ?_, rfl⟩, fun outcome sent => ?_, h.exited, h.broken⟩
    · have same : ({ w.machine with snapshots := newer } : Machine).withTaken (s :: taken) =
          w.machine.withTaken taken := by
        simp [Machine.withTaken, Machine.beside, oldest]
      rwa [same]
    · -- nothing is left that could be published once the outcome has been sent
      obtain ⟨-, none, -⟩ := h.sent outcome sent
      rw [oldest] at none
      simp at none
  | measure gauge running behind =>
    -- the gauge is behind only before the outcome is sent, and before the machine has broken off
    refine ⟨⟨taken, reaches, latest⟩, fun outcome sent => ?_, h.exited, fun said panicked => ?_⟩
    · exact absurd (h.sent outcome sent).2.2 behind
    · exact absurd (h.broken said panicked).1 behind
  | send running seen ended =>
    refine ⟨⟨taken, reaches, latest⟩, fun outcome sent => ?_, fun _ => rfl, h.broken⟩
    cases sent
    exact ⟨ended, seen⟩
  | exit running sent =>
    refine ⟨⟨taken, reaches, latest⟩, h.sent, fun _ => sent, fun said panicked => ?_⟩
    refine ⟨(h.broken said panicked).1, fun message thread => ?_⟩
    cases thread
  | breakOff running reason =>
    refine ⟨⟨taken, reaches, latest⟩, h.sent, fun exited => ?_, fun said panicked => ?_⟩
    · cases exited
    · refine ⟨(h.broken said panicked).1, fun message thread => ?_⟩
      cases thread
      exact reason said panicked

/-- An outcome that has been sent is not taken back. -/
theorem Runs.sent_of_acts (h : Runs m w) (acts : Acts w w') {outcome : Outcome}
    (sent : w.sent = some outcome) : w'.sent = some outcome := by
  cases acts with
  | send running seen ended =>
    have known := (h.sent outcome sent).1
    rw [ended] at known
    exact known
  | _ => exact sent

/-- **An outcome that is sent is one that the run comes to.** -/
theorem Runs.exists_outcome (h : Runs m w) {outcome : Outcome} (sent : w.sent = some outcome) :
    ∃ n, Machine.Reaches m n ∧ n.outcome? = some outcome := by
  obtain ⟨taken, reaches, -⟩ := h.machine
  exact ⟨_, reaches, (h.sent outcome sent).1⟩

section

variable {p : Program} {natives : NativeTable} {limit : Nat} {output : Output} {chain : ChainId}

theorem runs_start : Runs ((Machine.ofProgram p natives limit output).start chain)
    (new ((Machine.ofProgram p natives limit output).start chain)) := by
  refine runs_new fun said => ?_
  unfold Machine.start
  split
  · exact nofun
  · exact nofun

/-- Once the outcome has been sent, the gauge is at zero. -/
theorem Runs.gauge_of_sent
    (h : Runs ((Machine.ofProgram p natives limit output).start chain) w) (sent : w.sent.isSome) :
    w.gauge = ⟨0, 0⟩ := by
  obtain ⟨outcome, sent⟩ := Option.isSome_iff_exists.mp sent
  obtain ⟨taken, reaches, -⟩ := h.machine
  obtain ⟨ended, -, shown⟩ := h.sent outcome sent
  have held : (w.machine.withTaken taken).gauge = ⟨0, 0⟩ := Machine.gauge_of_reaches reaches ended
  exact shown.trans held

/-- **A worker that breaks off in a native function goes on to hold a frame,** as long as native
functions leave the scopes alone. -/
theorem Runs.frames_of_panicked (keeps : ∀ name f, natives.get? name = some f → f.KeepsScopes)
    (h : Runs ((Machine.ofProgram p natives limit output).start chain) w) {message : String}
    (panicked : w.machine.activity = .panicked message) : 1 ≤ w.gauge.frames := by
  obtain ⟨taken, reaches, -⟩ := h.machine
  have framed := Machine.framed_of_reaches keeps reaches
  have order := framed.order
  have activity : (w.machine.withTaken taken).activity = .panicked message := panicked
  unfold Machine.InOrder at order
  rw [activity] at order
  obtain ⟨wanted, stack⟩ := order
  have held : w.gauge = ⟨w.machine.frames.length, w.machine.depth⟩ :=
    (h.broken message panicked).1.trans framed.tidy.gauge
  rw [held]
  exact List.length_pos_iff.mpr stack.ne_nil

/-- **While a worker is in an expression, a failure is located at the block that is being run,**
unless the expression is the condition of a loop that is tested again. -/
theorem Runs.failure_of_works
    (h : Runs ((Machine.ofProgram p natives limit output).start chain) w) (seen : w.Seen)
    {around : Evaluation} (works : w.machine.activity.around? = some around)
    (other : around.purpose ≠ .retest) {f : Frame} {rest : List Frame}
    (frames : w.machine.frames = f :: rest) (error : RunError) :
    w.failure error = .failed ⟨error, some ⟨f.plan.chain, f.current⟩⟩ := by
  obtain ⟨taken, reaches, latest⟩ := h.machine
  have view : (w.machine.withTaken taken).view =
      some ⟨f.plan.chain, f.current, (f :: rest).length⟩ := by
    rw [Machine.view, show (w.machine.withTaken taken).frames = f :: rest from frames]
    rfl
  have shown := (Machine.shows_of_reaches reaches).exact around works other _ view
  have all : (w.machine.withTaken taken).snapshots = taken := by
    simp [Machine.withTaken, Machine.beside, seen.1]
  rw [all, ← latest] at shown
  rw [failure, shown]
  rfl

end

/-- A native function that breaks off. -/
def breaking : Native := fun s _ => (.panicked "boom", s)

/-- A program that calls it. -/
def exploding : Program where
  definitions := Registry.builtins.insert ⟨"boom", "", .gray, [.text "boom"], .native "boom"⟩
  globals := .empty
  chains := [⟨0, Chain.origin, [⟨"on_start", []⟩, ⟨"boom", []⟩]⟩]

/-- The thread has ended, and the frame of the run still counts. -/
example :
    let natives := Native.standard.set "boom" breaking
    let w := (new ((Machine.ofProgram exploding natives 64 .unlimited).start 0)).advance 10
    w.thread = .panicked "boom" ∧ w.gauge = ⟨1, 0⟩ := by
  decide +kernel

/-! ## What is found out about a worker -/

theorem verdict?_eq_none : w.verdict? = none ↔ w.sent = none ∧ w.thread = .running := by
  unfold verdict?
  cases w.sent <;> cases w.thread <;> simp

/-- A worker has ended with the outcome that it has sent, or it has broken off without one. -/
theorem Runs.verdict_cases (h : Runs m w) {outcome : Outcome}
    (verdict : w.verdict? = some outcome) :
    w.sent = some outcome ∨ w.sent = none ∧ ∃ message, w.thread = .panicked message ∧
      outcome = w.failure (.panicked message) := by
  unfold verdict? at verdict
  cases sent : w.sent with
  | some o =>
    rw [sent] at verdict
    exact .inl verdict
  | none =>
    rw [sent] at verdict
    cases thread : w.thread with
    | running =>
      rw [thread] at verdict
      cases verdict
    | exited =>
      have some := h.exited thread
      rw [sent] at some
      cases some
    | panicked message =>
      rw [thread] at verdict
      exact .inr ⟨rfl, message, rfl, (Option.some.inj verdict).symm⟩

end Worker

end Blockwork
