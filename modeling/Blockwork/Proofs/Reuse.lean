import Blockwork.Proofs.CallDepth
import Blockwork.Proofs.Ends

/-!
# Runs one after another

A machine may be started again when a run has ended, whichever way it ended. What the earlier runs
have left in the global variables is there, and nothing else: the further run does what the first
run of a new machine does whose program begins with these variables.

## Main statements

* `Machine.start_of_holdsNothing`: a machine that holds nothing starts like a new one.
* `Program.exists_served`: a machine that keeps its plans has been through the same runs as one that
  has them all.
* `Program.runs_independent`: earlier runs do not show in a further one.

The snapshots of earlier runs that nobody has taken are still there, below those of the further run.
-/

namespace Blockwork

/-- What becomes of a machine by runs that follow each other, each of them up to its end. -/
inductive Served (start : Machine → ChainId → Machine) (move : Machine → Machine) (m : Machine) :
    Machine → Prop where
  | new : Served start move m m
  | run {n : Machine} {chain : ChainId} {k : Nat} {outcome : Outcome}
      (earlier : Served start move m n)
      (ended : (move^[k] (start n chain)).outcome? = some outcome) :
      Served start move m (move^[k] (start n chain))

namespace Machine

/-- A machine shows and does what another one does, but it has older snapshots, and its own
plans. -/
structure SameBut (m : Machine) (older : List Snapshot) (fresh : Machine) : Prop where
  isOver : m.isOver = fresh.isOver
  outcome : m.outcome? = fresh.outcome?
  printed : m.output = fresh.output
  globals : m.env.globals = fresh.env.globals
  snapshots : m.snapshots = fresh.snapshots ++ older
  /-- Nothing else is otherwise: neither frames nor scopes nor what is counted. -/
  rest : m = { fresh with plans := m.plans, snapshots := m.snapshots }

theorem sameBut_withTaken (fresh : Machine) (older : List Snapshot) :
    (fresh.withTaken older).SameBut older fresh := by
  refine ⟨rfl, rfl, rfl, rfl, rfl, ?_⟩
  simp [withTaken, beside]

/-- The plans do not show. -/
theorem SameBut.aside {m fresh : Machine} {older : List Snapshot} (h : m.SameBut older fresh)
    (plans other : List (ChainId × Except Failure Plan)) :
    (m.aside (.table plans)).SameBut older (fresh.aside (.table other)) := by
  rw [aside_table, aside_table]
  exact ⟨h.isOver, h.outcome, h.printed, h.globals, h.snapshots,
    congrArg (fun n : Machine => { n with plans := plans }) h.rest⟩

section

variable {m : Machine} {p : Program} {natives : NativeTable} {limit : Nat}

/-- Where a machine is, and what it held before, does not matter to a start. -/
theorem start_eq (m : Machine) (activity : Activity) (gauge : Gauge) (chain : ChainId) :
    ({ m with activity := activity, gauge := gauge } : Machine).start chain = m.start chain := by
  have plan : ({ m with activity := activity, gauge := gauge } : Machine).plan chain =
      m.plan chain := rfl
  unfold start
  rw [plan]
  cases m.plan chain <;> rfl

/-- A machine that holds nothing starts like a new one whose program has the variables that there
are. It may have been asked to stop, and there may be snapshots. -/
theorem start_eq_aside (h : m.HoldsNothing) (plans : m.plans = p.plans natives) (chain : ChainId) :
    m.start chain = ((ofProgram { p with globals := m.env.globals } natives m.depthLimit
      m.output).start chain).aside (.past m.stop m.snapshots) := by
  have new : ({ m with activity := .idle, gauge := ⟨0, 0⟩ } : Machine) =
      (ofProgram { p with globals := m.env.globals } natives m.depthLimit m.output).aside
        (.past m.stop m.snapshots) := by
    obtain ⟨frames, suspended, nested, scopes, -⟩ := h
    obtain ⟨_, _, ⟨_, _⟩, _, stop, _, _, _, _, _, _⟩ := m
    cases frames
    cases suspended
    cases nested
    cases scopes
    cases plans
    cases stop <;> rfl
  rw [← start_eq m .idle ⟨0, 0⟩ chain, new]
  exact start_aside rfl

/-- **A machine that holds nothing starts like a new one** whose program has the variables that
there are. -/
theorem start_of_holdsNothing (h : m.HoldsNothing) (plans : m.plans = p.plans natives)
    (depth : m.depthLimit = limit) (quiet : m.stop = false) (chain : ChainId) :
    m.start chain = ((ofProgram { p with globals := m.env.globals } natives limit m.output).start
      chain).withTaken m.snapshots := by
  rw [start_eq_aside h plans, depth, quiet]
  rfl

/-- The further run goes on like the one of the new machine. -/
theorem iterate_withTaken (m : Machine) (taken : List Snapshot) (k : Nat) :
    move^[k] (m.withTaken taken) = (move^[k] m).withTaken taken := by
  induction k with
  | zero => rfl
  | succ k ih => rw [Function.iterate_succ_apply', Function.iterate_succ_apply', ih, move_withTaken]

end

end Machine

namespace Program

variable {p : Program} {natives : NativeTable} {limit : Nat} {output : Output} {m : Machine}

/-- A machine that has been through runs is as it was, but for what runs are for. -/
theorem kept_of_served
    (h : Served Machine.start Machine.move (.ofProgram p natives limit output) m) :
    m.HoldsNothing ∧ m.plans = p.plans natives ∧ m.depthLimit = limit := by
  induction h with
  | new => exact ⟨⟨rfl, rfl, rfl, rfl, rfl⟩, rfl, rfl⟩
  | @run n chain k outcome earlier ended ih =>
    obtain ⟨-, plans, depth⟩ := ih
    have reaches := Machine.reaches_iterate (n.start chain) k
    obtain ⟨samePlans, sameLimit⟩ := reaches.plans
    have kept := Machine.kept_start n chain
    exact ⟨Machine.holdsNothing_of_reaches reaches ended,
      (samePlans.trans kept.plans).trans plans, (sameLimit.trans kept.depthLimit).trans depth⟩

/-- A run on a machine that has been through runs is the run of a new one. -/
theorem iterate_start_of_served
    (h : Served Machine.start Machine.move (.ofProgram p natives limit output) m)
    (quiet : m.stop = false) (chain : ChainId) (k : Nat) :
    Machine.move^[k] (m.start chain) =
      (after { p with globals := m.env.globals } natives limit m.output chain k).withTaken
        m.snapshots := by
  obtain ⟨holds, plans, depth⟩ := kept_of_served h
  rw [Machine.start_of_holdsNothing holds plans depth quiet, Machine.iterate_withTaken]
  rfl

/-- A run that makes the plans which it asks for goes on like one that has them all. -/
theorem iterate_startOn_aside {table : List (ChainId × Except Failure Plan)}
    (plans : m.plans = p.plans natives) (made : p.Made natives (fun _ => True) table)
    (chain : ChainId) (k : Nat) :
    ∃ table', p.Made natives (fun _ => True) table' ∧
      (p.moveLazily natives)^[k] (p.startOn natives (m.aside (.table table)) chain) =
        (Machine.move^[k] (m.start chain)).aside (.table table') := by
  induction k with
  | zero => exact startOn_aside plans made trivial
  | succ k ih =>
    obtain ⟨table', made', eq⟩ := ih
    have kept : (Machine.move^[k] (m.start chain)).plans = p.plans natives :=
      ((Machine.reaches_iterate _ k).plans.1.trans (Machine.kept_start m chain).plans).trans plans
    rw [Function.iterate_succ_apply', Function.iterate_succ_apply', eq]
    exact moveLazily_aside kept made' fun _ _ => trivial

/-- **A machine that keeps the plans which it has made has been through the same runs as one that
has them all.** What it keeps are plans that would be made again. -/
theorem exists_served (h : Served (p.startOn natives) (p.moveLazily natives)
      ((Machine.ofProgram p natives limit output).aside (.table [])) m) :
    ∃ (n : Machine) (table : List (ChainId × Except Failure Plan)),
      Served Machine.start Machine.move (.ofProgram p natives limit output) n ∧
        p.Made natives (fun _ => True) table ∧ m = n.aside (.table table) := by
  induction h with
  | new => exact ⟨_, [], .new, fun _ among => absurd among List.not_mem_nil, rfl⟩
  | @run m chain k outcome earlier ended ih =>
    obtain ⟨n, table, served, made, rfl⟩ := ih
    obtain ⟨-, plans, -⟩ := kept_of_served served
    obtain ⟨table', made', eq⟩ := iterate_startOn_aside plans made chain k
    rw [eq] at ended
    exact ⟨_, table', .run served ended, made', eq⟩

/-- **Earlier runs do not show in a further one.** A machine that has been through runs, none of
which has left a request to stop, holds nothing. When it is started again, then at each move it is
like a new machine whose program begins with the global variables that there are, and whose output
goes on where it is. So it is for a machine that makes its plans when they are asked for and keeps
those that it could make.

Variables and output are all that one run hands on to the next, since native functions keep nothing
to themselves and an output goes by what it has been given (`Native`, `Output`). -/
theorem runs_independent (p : Program) (natives : NativeTable) (limit : Nat) (output : Output) :
    (∀ m, Served Machine.start Machine.move (.ofProgram p natives limit output) m →
      m.stop = false → m.HoldsNothing ∧ ∀ chain k,
        (Machine.move^[k] (m.start chain)).SameBut m.snapshots
          (after { p with globals := m.env.globals } natives limit m.output chain k)) ∧
    ∀ m, Served (p.startOn natives) (p.moveLazily natives)
        ((Machine.ofProgram p natives limit output).aside (.table [])) m →
      m.stop = false → m.HoldsNothing ∧ p.Made natives (fun _ => True) m.plans ∧ ∀ chain k,
        ((p.moveLazily natives)^[k] (p.startOn natives m chain)).SameBut m.snapshots
          (lazilyAfter { p with globals := m.env.globals } natives limit m.output chain k) := by
  refine ⟨fun m served quiet => ⟨(kept_of_served served).1, fun chain k => ?_⟩, ?_⟩
  · rw [iterate_start_of_served served quiet]
    exact Machine.sameBut_withTaken _ _
  · intro m served quiet
    obtain ⟨n, table, served', made, rfl⟩ := exists_served served
    obtain ⟨⟨frames, suspended, depth, scopes, gauge⟩, plans, -⟩ := kept_of_served served'
    refine ⟨⟨frames, suspended, depth, scopes, gauge⟩, made, fun chain k => ?_⟩
    obtain ⟨table₁, -, further⟩ := iterate_startOn_aside plans made chain k
    obtain ⟨table₂, -, fresh⟩ := lazilyAfter_eq_aside
      { p with globals := n.env.globals } natives limit n.output chain k
    have older : (n.aside (.table table)).snapshots = n.snapshots := List.append_nil _
    rw [further, iterate_start_of_served served' quiet, older]
    show Machine.SameBut _ _ (lazilyAfter { p with globals := n.env.globals } natives limit n.output
      chain k)
    rw [fresh]
    exact (Machine.sameBut_withTaken _ _).aside _ _

set_option maxRecDepth 20000 in
/-- A run that has failed within a procedure does not show in the next one. -/
theorem runs_independent_diving :
    (diving.after Native.standard 1 .unlimited 0 13).outcome? =
        some (.failed ⟨.stackOverflow 1, some ⟨1, 2⟩⟩) ∧
      (diving.after Native.standard 1 .unlimited 0 13).HoldsNothing ∧
      ∀ chain k, (Machine.move^[k] ((diving.after Native.standard 1 .unlimited 0 13).start
          chain)).SameBut (diving.after Native.standard 1 .unlimited 0 13).snapshots
        (after
          { diving with globals := (diving.after Native.standard 1 .unlimited 0 13).env.globals }
          Native.standard 1 (diving.after Native.standard 1 .unlimited 0 13).output chain k) := by
  obtain ⟨ended, quiet⟩ : (diving.after Native.standard 1 .unlimited 0 13).outcome? =
        some (.failed ⟨.stackOverflow 1, some ⟨1, 2⟩⟩) ∧
      (diving.after Native.standard 1 .unlimited 0 13).stop = false := ⟨rfl, rfl⟩
  have served : Served Machine.start Machine.move (.ofProgram diving Native.standard 1 .unlimited)
      (diving.after Native.standard 1 .unlimited 0 13) := .run .new ended
  exact ⟨ended, (runs_independent diving Native.standard 1 .unlimited).1 _ served quiet⟩

end Program

end Blockwork
