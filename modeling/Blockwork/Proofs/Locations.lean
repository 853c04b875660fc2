import Blockwork.Proofs.CallDepth
import Blockwork.Proofs.Completions

/-!
# Where a run has failed

A failure names the block at which the run was, or the one for which a chain has no plan. Either way
there is such a block. Only a run of a chain that the program does not have fails nowhere, for there
is no block to be named.

## Main statements

* `Plan.located_of_ofChain`: a chain has no plan because of one of its blocks.
* `Machine.Traced.located`: what a machine fails with names a block of the program.
* `Program.failure_located`: where a run may have failed.

Nothing is assumed of native functions, nor of the program.
-/

namespace Blockwork

/-- The program has a block there. Of chains with one number only the first is ever run. -/
def Program.Locates (p : Program) (l : BlockLocation) : Prop :=
  ∃ c, p.chain? l.chain = some c ∧ l.block < c.blocks.length

/-- A failure names a block of the program. -/
def Program.Blames (p : Program) (failure : Failure) : Prop :=
  ∃ l, failure.location = some l ∧ p.Locates l

/-! ## Chains without a plan -/

namespace Plan

variable {l : Library}

theorem located_of_resolveOps {chain : ChainId} {index : Nat} {blocks : List (Block × Shape)}
    {failure : Failure} (h : resolveOps l chain index blocks = .error failure) :
    ∃ i < blocks.length, failure.location = some ⟨chain, index + i⟩ := by
  induction blocks generalizing index with
  | nil => cases h
  | cons entry rest ih =>
    obtain ⟨b, shape⟩ := entry
    unfold resolveOps at h
    cases first : resolveOp l b shape with
    | error e =>
      rw [first] at h
      cases h
      exact ⟨0, Nat.zero_lt_succ _, rfl⟩
    | ok op =>
      rw [first] at h
      rcases error_of_bind h with later | ⟨ops, -, h⟩
      · obtain ⟨i, lt, located⟩ := ih later
        refine ⟨i + 1, Nat.succ_lt_succ lt, located.trans ?_⟩
        rw [Nat.add_assoc, Nat.add_comm 1 i]
      · cases h

/-- A chain has no plan because of one of its blocks. -/
theorem located_of_ofChain {c : Chain} {failure : Failure} (h : ofChain l c = .error failure) :
    ∃ i < c.blocks.length, failure.location = some ⟨c.id, i⟩ := by
  unfold ofChain at h
  cases shapes : c.shapes l.definitions with
  | error e =>
    rw [shapes] at h
    cases h
    have lt := (shapesOfFlows_eq_error_iff.mp shapes).index_lt
    exact ⟨e.index, by simpa using lt, rfl⟩
  | ok s =>
    rw [shapes] at h
    rcases error_of_bind h with missing | ⟨ops, -, h⟩
    · obtain ⟨i, lt, located⟩ := located_of_resolveOps missing
      rw [List.length_zip] at lt
      refine ⟨i, Nat.lt_of_lt_of_le lt (Nat.min_le_left _ _), ?_⟩
      rw [located, Nat.zero_add]
    · cases h

/-- A chain has a block for each thing that its plan does. -/
theorem size_of_ofChain {c : Chain} {plan : Plan} (h : ofChain l c = .ok plan) :
    plan.ops.size = c.blocks.length := by
  obtain ⟨shapes, ops, closed, resolved, rfl⟩ := ofChain_ok h
  have length := (resolveOps_ok resolved).1
  have same := (shapes_closed closed).1
  rw [List.length_map] at same
  rw [List.length_zip, same, Nat.min_self] at length
  simpa using length

end Plan

/-! ## Failures of a machine -/

namespace Program

variable {p : Program} {natives : NativeTable}

theorem locates_of_resolve {plan : Plan} (made : p.resolve natives plan.chain = some (.ok plan))
    {i : Nat} (lt : i < plan.ops.size) : p.Locates ⟨plan.chain, i⟩ := by
  obtain ⟨c, first, made⟩ := Option.map_eq_some_iff.mp made
  exact ⟨c, first, Plan.size_of_ofChain made ▸ lt⟩

/-- A chain of the program has no plan because of one of its blocks. -/
theorem blames_of_ofChain {id : ChainId} {c : Chain} {failure : Failure}
    (first : p.chain? id = some c)
    (missing : Plan.ofChain ⟨p.definitions, natives⟩ c = .error failure) : p.Blames failure := by
  obtain ⟨i, lt, located⟩ := Plan.located_of_ofChain missing
  have number : c.id = id := by simpa using List.find?_some first
  exact ⟨⟨c.id, i⟩, located, c, number ▸ first, lt⟩

end Program

namespace Machine

variable {p : Program} {natives : NativeTable} {m n : Machine}

/-- A machine that works on an expression is located at a block of the program. -/
theorem located_of_works
    (plans : ∀ f ∈ m.frames, p.resolve natives f.plan.chain = some (.ok f.plan))
    {P : Expr → Prop} (works : Works m.frames P) : ∃ l, m.location = some l ∧ p.Locates l := by
  obtain ⟨f, rest, e, frames, expr, -⟩ := works
  obtain ⟨op, block, -⟩ := Option.bind_eq_some_iff.mp expr
  have lt := (Array.getElem?_eq_some_iff.mp block).1
  have located : m.location = some ⟨f.plan.chain, f.current⟩ := by
    rw [location, frames]
    rfl
  exact ⟨_, located, Program.locates_of_resolve (plans f (frames ▸ List.mem_cons_self)) lt⟩

/-- An error is raised while a machine works on an expression, or when the procedure has been left
that an evaluation waits for. -/
theorem Raises.works_or_waits {e : RunError} (h : m.Raises e) :
    m.activity.around?.isSome ∨ ∃ s ∈ m.suspended, m.frames.length ≤ s.floor := by
  cases h with
  | typeMismatch works => exact .inl works
  | noValue works => exact .inl works
  | missingReturn activity suspended floor =>
    exact .inr ⟨_, suspended ▸ List.mem_cons_self, floor⟩
  | stackOverflow overflows =>
    obtain ⟨-, _, _, _, _, _, activity⟩ := overflows
    exact .inl (by rw [activity]; rfl)
  | native activity answer => exact .inl (by rw [activity]; rfl)

/-- **What a machine fails with names a block of the program.** -/
theorem Traced.located
    (h : m.Traced fun plan => p.resolve natives plan.chain = some (.ok plan))
    (plans : m.plans = p.plans natives) {failure : Failure} (fails : m.FailsWith failure) :
    p.Blames failure := by
  cases fails with
  | raised raises =>
    rcases raises.works_or_waits with works | ⟨s, among, le⟩
    · exact located_of_works h.rooted.plans (h.works works)
    · -- the block that is being run is the one that called the procedure
      obtain ⟨below, suffix, length, works⟩ := h.rooted.suspended s among
      obtain rfl : below = m.frames :=
        suffix.eq_of_length (Nat.le_antisymm suffix.length_le (length ▸ le))
      exact located_of_works h.rooted.plans works
  | @unplanned id _ works missing =>
    rw [plan_of_plans plans] at missing
    cases first : p.chain? id with
    | some c =>
      rw [first] at missing
      exact Program.blames_of_ofChain first missing
    | none =>
      -- the body of the procedure is missing, so the failure is that of the call
      rw [first] at missing
      cases missing
      exact located_of_works h.rooted.plans (h.works works)

/-- A run that is over stays as it has ended. -/
theorem Reaches.outcome {outcome : Outcome} (h : Reaches m n) (ended : m.outcome? = some outcome) :
    n.outcome? = some outcome := by
  refine h.keeps (P := fun n => n.outcome? = some outcome) ended ?_ ?_
  · intro n ended
    rwa [move_of_isOver (isOver_of_outcome ended)]
  · intro n ended
    exact ended

end Machine

/-! ## Failures of a run -/

namespace Program

variable {p : Program} {natives : NativeTable} {m₀ m : Machine} {chain : ChainId}
  {failure : Failure}

theorem not_has_iff : ¬ p.Has chain ↔ p.chain? chain = none := by
  constructor
  · intro none
    cases first : p.chain? chain with
    | none => rfl
    | some c =>
      have number : c.id = chain := by simpa using List.find?_some first
      exact absurd ⟨c, List.mem_of_find?_eq_some first, number⟩ none
  · intro none has
    obtain ⟨c, -, first⟩ := has.chain?
    rw [none] at first
    cases first

/-- A run of a chain that the program does not have fails at once. -/
theorem failure_of_not_has (holds : m₀.HoldsNothing) (plans : m₀.plans = p.plans natives)
    (lacks : ¬ p.Has chain) (reaches : Machine.Reaches (m₀.start chain) m)
    (ended : m.outcome? = some (.failed failure)) : failure = ⟨.unknownChain chain, none⟩ := by
  have nowhere : m₀.location = none := by
    rw [Machine.location, holds.frames]
    rfl
  have missing : m₀.plan chain = .error ⟨.unknownChain chain, none⟩ := by
    rw [Machine.plan_of_plans plans, not_has_iff.mp lacks, nowhere]
  have started : (m₀.start chain).outcome? = some (.failed ⟨.unknownChain chain, none⟩) := by
    rw [Machine.start, missing]
    rfl
  have stays := reaches.outcome started
  rw [ended] at stays
  cases stays
  rfl

/-- A run of a chain of the program fails at a block of the program. -/
theorem blames_of_has (holds : m₀.HoldsNothing) (plans : m₀.plans = p.plans natives)
    (has : p.Has chain) (reaches : Machine.Reaches (m₀.start chain) m)
    (ended : m.outcome? = some (.failed failure)) : p.Blames failure := by
  obtain ⟨c, -, first⟩ := has.chain?
  induction reaches with
  | refl =>
    unfold Machine.start at ended
    split at ended
    · next failure' missing =>
      cases ended
      rw [Machine.plan_of_plans plans, first] at missing
      exact blames_of_ofChain first missing
    · cases ended
  | @work n on ih =>
    cases runs : n.isOver with
    | true =>
      rw [Machine.move_of_isOver runs] at ended
      exact ih ended
    | false =>
      have plans' : n.plans = p.plans natives :=
        (on.plans.1.trans (Machine.kept_start m₀ chain).plans).trans plans
      exact (Machine.traced_of_reaches holds plans on).located plans'
        (Machine.failsWith_of_move runs ended)
  | stop on ih => exact ih ended

/-- **Where a run may have failed.** It has failed nowhere just in case the program has no chain of
the number that was asked for, and that is its error. Otherwise it has failed at a block: the place
that it names is in a chain of the program. The machine may have been through other runs before,
and may be asked to stop at any time. -/
theorem failure_located (holds : m₀.HoldsNothing) (plans : m₀.plans = p.plans natives)
    (reaches : Machine.Reaches (m₀.start chain) m)
    (ended : m.outcome? = some (.failed failure)) :
    (failure.location = none ↔ ¬ p.Has chain) ∧
      (¬ p.Has chain → failure.error = .unknownChain chain) ∧
      ∀ l, failure.location = some l →
        ∃ c ∈ p.chains, p.chain? l.chain = some c ∧ c.id = l.chain ∧ l.block < c.blocks.length := by
  by_cases has : p.Has chain
  · obtain ⟨l, located, c, first, lt⟩ := blames_of_has holds plans has reaches ended
    refine ⟨?_, fun lacks => absurd has lacks, fun l' located' => ?_⟩
    · simp [located, has]
    · rw [located, Option.some.injEq] at located'
      subst located'
      exact ⟨c, List.mem_of_find?_eq_some first, first, by simpa using List.find?_some first, lt⟩
  · have same := failure_of_not_has holds plans has reaches ended
    subst same
    exact ⟨iff_of_true rfl has, fun _ => rfl, nofun⟩

set_option maxRecDepth 20000 in
/-- A run that fails in the body of a procedure, and one that does not begin. -/
theorem failure_located_diving :
    ((diving.after Native.standard 1 .unlimited 0 13).outcome? =
        some (.failed ⟨.stackOverflow 1, some ⟨1, 2⟩⟩) ∧
      ∃ c ∈ diving.chains, diving.chain? 1 = some c ∧ c.id = 1 ∧ 2 < c.blocks.length) ∧
    (diving.after Native.standard 1 .unlimited 7 0).outcome? =
        some (.failed ⟨.unknownChain 7, none⟩) ∧ ¬ diving.Has 7 := by
  have holds : (Machine.ofProgram diving Native.standard 1 .unlimited).HoldsNothing :=
    ⟨rfl, rfl, rfl, rfl, rfl⟩
  have deep : (diving.after Native.standard 1 .unlimited 0 13).outcome? =
      some (.failed ⟨.stackOverflow 1, some ⟨1, 2⟩⟩) := by rfl
  have missing : (diving.after Native.standard 1 .unlimited 7 0).outcome? =
      some (.failed ⟨.unknownChain 7, none⟩) := by rfl
  refine ⟨⟨deep, ?_⟩, missing, ?_⟩
  · exact (failure_located holds rfl (Machine.reaches_iterate _ 13) deep).2.2 _ rfl
  · exact (failure_located holds rfl (Machine.reaches_iterate _ 0) missing).1.mp rfl

end Program

end Blockwork
