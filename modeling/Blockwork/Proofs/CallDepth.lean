import Blockwork.Proofs.Ends
import Blockwork.Proofs.Lookups
import Blockwork.Proofs.Origins

/-!
# The limit on nested calls

How deep calls may be nested is looked at when a procedure is called, and nowhere else. So a run
that never calls too deep is the same under every higher limit, and one that does is the same up to
that call.

Nothing is asked of native functions for runs that do not end for the limit. Where a run does, the
error is taken to be the machine's own (`Native.LeavesLimit`): a function that gave it of its own
accord would end runs in this way however few calls are nested. And what a function prints is taken
to stay printed, as the one thing that it can do to the output is to write to it.

## Main statements

* `Program.after_deeper`: runs under two limits are the same up to a call that is too deep.
* `Program.overflows_of_outcome`: a run that ends for the limit has called too deep.
* `Program.deeper_calls`: the limit on nested calls only ever cuts runs short.
-/

namespace Blockwork

/-! ## Plans that cannot be made -/

namespace Plan

variable {l : Library}

theorem error_of_bind {ε α β : Type} {x : Except ε α} {f : α → Except ε β} {e : ε}
    (h : (x >>= f) = .error e) : x = .error e ∨ ∃ a, x = .ok a ∧ f a = .error e := by
  cases x with
  | error e' =>
    cases h
    exact .inl rfl
  | ok a => exact .inr ⟨a, rfl, h⟩

theorem error_of_map {ε α β : Type} {x : Except ε α} {f : α → β} {e : ε}
    (h : x.map f = .error e) : x = .error e := by
  cases x with
  | error e' =>
    cases h
    rfl
  | ok a => cases h

theorem structural_of_resolveWith {definition : String}
    {arguments : Nat → Except RunError (List Expr)} {e : RunError}
    (h : resolveWith l definition arguments = .error e)
    (each : ∀ n e, arguments n = .error e → e.isStructural) : e.isStructural := by
  unfold resolveWith at h
  cases found : l.definitions.find? definition with
  | none =>
    rw [found] at h
    cases h
    rfl
  | some d =>
    rw [found] at h
    rcases error_of_bind h with missing | ⟨es, -, h⟩
    · exact each _ _ missing
    · split at h
      · cases h
        rfl
      · split at h
        · cases h
          rfl
        · cases h
      · cases h
        rfl
      · cases h

mutual

theorem structural_of_resolveArgument : ∀ {a : Argument} {e : RunError},
    resolveArgument l a = .error e → e.isStructural
  | .literal _, _, h => by cases h
  | .choice _, _, h => by cases h
  | .block _ arguments, _, h => by
    rw [resolveArgument] at h
    exact structural_of_resolveWith h fun _ _ => structural_of_resolveFirst
  | .definition _, _, h => by
    cases h
    rfl

theorem structural_of_resolveFirst : ∀ {arguments : List Argument} {count index : Nat}
    {e : RunError}, resolveFirst l count index arguments = .error e → e.isStructural
  | [], count, index, e, h => by
    rw [resolveFirst] at h
    split at h
    · cases h
    · cases h
      rfl
  | a :: rest, count, index, e, h => by
    rw [resolveFirst] at h
    split at h
    · cases h
    · rcases error_of_bind h with first | ⟨x, -, h⟩
      · exact structural_of_resolveArgument first
      · rcases error_of_bind h with later | ⟨es, -, h⟩
        · exact structural_of_resolveFirst later
        · cases h

end

theorem structural_of_resolveAt {b : Block} {index : Nat} {e : RunError}
    (h : resolveAt l b index = .error e) : e.isStructural := by
  unfold resolveAt at h
  split at h
  · exact structural_of_resolveArgument h
  · cases h
    rfl

theorem structural_of_resolveOp {b : Block} {shape : Shape} {e : RunError}
    (h : resolveOp l b shape = .error e) : e.isStructural := by
  unfold resolveOp at h
  split at h
  · cases h
    rfl
  · split at h
    · exact structural_of_resolveWith (error_of_map h) fun _ _ => structural_of_resolveFirst
    · cases h
    · cases h
    · cases h
    · cases h
    · exact structural_of_resolveAt (error_of_map h)
    · exact structural_of_resolveAt (error_of_map h)
    · exact structural_of_resolveAt (error_of_map h)
    · cases h
    · exact structural_of_resolveAt (error_of_map h)
    · cases h
      rfl

theorem structural_of_resolveOps {chain : ChainId} {index : Nat} {blocks : List (Block × Shape)}
    {failure : Failure} (h : resolveOps l chain index blocks = .error failure) :
    failure.error.isStructural := by
  induction blocks generalizing index with
  | nil => cases h
  | cons entry rest ih =>
    obtain ⟨b, shape⟩ := entry
    unfold resolveOps at h
    cases first : resolveOp l b shape with
    | error e =>
      rw [first] at h
      cases h
      exact structural_of_resolveOp first
    | ok op =>
      rw [first] at h
      rcases error_of_bind h with later | ⟨ops, -, h⟩
      · exact ih later
      · cases h

/-- A chain without a plan lacks something of the program. -/
theorem structural_of_ofChain {c : Chain} {failure : Failure} (h : ofChain l c = .error failure) :
    failure.error.isStructural := by
  unfold ofChain at h
  cases shapes : c.shapes l.definitions with
  | error e =>
    rw [shapes] at h
    cases h
    rfl
  | ok s =>
    rw [shapes] at h
    rcases error_of_bind h with missing | ⟨ops, -, h⟩
    · exact structural_of_resolveOps missing
    · cases h

end Plan

/-! ## Calls that are too deep -/

/-- Another limit on nested calls. -/
def Aside.deeper (limit : Nat) : Aside := ⟨false, [], id, fun _ => limit⟩

namespace Machine

variable {m n : Machine}

theorem aside_deeper (m : Machine) (limit : Nat) :
    m.aside (.deeper limit) = { m with depthLimit := limit } := by
  simp [aside, Aside.deeper]

theorem move_of_overflows (h : m.Overflows) : m.move = m.fail (.stackOverflow m.depthLimit) := by
  obtain ⟨full, definition, body, parameters, arguments, around, activity⟩ := h
  rw [move_calling activity, call_procedure, enterProcedure, if_pos full]

/-- Under a higher limit a machine goes on in the same way, unless it calls too deep. -/
theorem move_deeper {limit : Nat} (le : m.depthLimit ≤ limit) (room : ¬ m.Overflows) :
    (m.aside (.deeper limit)).move = m.move.aside (.deeper limit) := by
  refine move_aside (.inl rfl) ?_
  intro definition body parameters arguments around activity
  by_cases full : m.depthLimit ≤ m.depth
  · exact absurd ⟨full, definition, body, parameters, arguments, around, activity⟩ room
  · have free := Nat.lt_of_not_le full
    exact .room free (Nat.lt_of_lt_of_le free le) rfl

/-! ## Failures -/

/-- The plan of a chain is missing for what the program lacks. -/
theorem structural_of_plan {p : Program} {natives : NativeTable} (plans : m.plans = p.plans natives)
    {id : ChainId} {failure : Failure} (missing : m.plan id = .error failure) :
    failure.error.isStructural := by
  rw [plan_of_plans plans] at missing
  cases first : p.chain? id with
  | none =>
    rw [first] at missing
    cases missing
    rfl
  | some c =>
    rw [first] at missing
    exact Plan.structural_of_ofChain missing

/-- A plan that a machine has is that of a chain of the program. -/
theorem resolve_of_plan {p : Program} {natives : NativeTable} (plans : m.plans = p.plans natives)
    {id : ChainId} {plan : Plan} (ok : m.plan id = .ok plan) :
    p.resolve natives plan.chain = some (.ok plan) := by
  rw [Program.plan_eq_resolve plans] at ok
  cases resolved : p.resolve natives id with
  | none =>
    rw [resolved] at ok
    cases ok
  | some made =>
    rw [resolved] at ok
    obtain rfl : made = .ok plan := ok
    obtain ⟨c, first, made⟩ := Option.map_eq_some_iff.mp resolved
    have number : c.id = id := by simpa using List.find?_some first
    rw [Plan.chain_of_ofChain made, number, resolved]

/-- The evaluations of a run belong to the blocks of the program, whatever the machine has been
through before. -/
theorem traced_of_reaches {p : Program} {natives : NativeTable} (holds : m.HoldsNothing)
    (plans : m.plans = p.plans natives) {chain : ChainId} (reaches : Reaches (m.start chain) n) :
    n.Traced fun plan => p.resolve natives plan.chain = some (.ok plan) := by
  have plans' : (m.start chain).plans = p.plans natives := (kept_start m chain).plans.trans plans
  induction reaches with
  | refl =>
    unfold start
    split
    · exact traced_finish _ _
    · next plan ok =>
      have idle : m.Rooted fun plan => p.resolve natives plan.chain = some (.ok plan) := by
        refine ⟨?_, ?_, ?_⟩
        · rw [holds.frames]
          exact nofun
        · rw [holds.depth]
          exact Nat.zero_le _
        · rw [holds.suspended]
          exact nofun
      exact (idle.push (resolve_of_plan plans ok)).scheduled
  | work on ih =>
    have order := (inOrder_start holds.frames holds.depth holds.suspended plans chain).reaches
      plans' on
    exact ih.move order fun _ _ => resolve_of_plan (on.plans.1.trans plans')
  | stop on ih => exact ⟨ih.rooted.of_same rfl rfl rfl rfl, ih.works⟩

/-- Calls are nested as deep as they may be, and the block at which the run is located makes one
more. -/
structure Attempts (m : Machine) (p : Program) (natives : NativeTable) (limit : Nat)
    (location : Option BlockLocation) : Prop where
  depth : m.depth = limit
  /-- There is a frame for each call. -/
  frames : m.frames.countP (fun f => f.kind = .procedure) = limit
  located : m.location = location
  block : ∃ l plan op e definition body parameters expressions arguments around,
    location = some l ∧ p.resolve natives l.chain = some (.ok plan) ∧
      plan.ops[l.block]? = some op ∧ op.expr? = some e ∧
      e.Contains (.call definition body parameters expressions) ∧
      m.activity = .calling (.procedure definition body parameters) arguments around

end Machine

/-! ## Runs -/

namespace Program

section

variable {p : Program} {natives : NativeTable} {limit limit' : Nat} {output : Output}
  {chain : ChainId} {j k : Nat}

theorem depthLimit_after (k : Nat) : (p.after natives limit output chain k).depthLimit = limit := by
  have start : ((Machine.ofProgram p natives limit output).start chain).depthLimit = limit :=
    (Machine.kept_start _ chain).depthLimit
  exact (Machine.reaches_iterate _ k).plans.2.trans start

/-- A run that is over stays as it is. -/
theorem after_of_isOver (over_ : (p.after natives limit output chain j).isOver) (le : j ≤ k) :
    p.after natives limit output chain k = p.after natives limit output chain j := by
  obtain ⟨i, rfl⟩ := Nat.exists_eq_add_of_le' le
  rw [after, Function.iterate_add_apply]
  exact Machine.iterate_of_isOver over_ i

/-- **Runs under two limits are the same up to a call that is too deep.** -/
theorem after_deeper (le : limit ≤ limit')
    (room : ∀ j < k, ¬ (p.after natives limit output chain j).Overflows) :
    p.after natives limit' output chain k =
      (p.after natives limit output chain k).aside (.deeper limit') := by
  -- only a call looks at the limit, and there is room for each one that is made
  induction k with
  | zero =>
    have first : Machine.ofProgram p natives limit' output =
        (Machine.ofProgram p natives limit output).aside (.deeper limit') := by
      rw [Machine.aside_deeper]
      rfl
    show (Machine.ofProgram p natives limit' output).start chain = _
    rw [first]
    exact Machine.start_aside rfl
  | succ k ih =>
    rw [after_succ, after_succ, ih fun j lt => room j (Nat.lt_succ_of_lt lt)]
    refine Machine.move_deeper ?_ (room k (Nat.lt_succ_self k))
    rw [depthLimit_after]
    exact le

/-- A run that ends otherwise has not called too deep. -/
theorem not_overflows (other : ∀ location, (p.after natives limit output chain k).outcome? ≠
      some (.failed ⟨.stackOverflow limit, location⟩))
    (lt : j < k) : ¬ (p.after natives limit output chain j).Overflows := by
  intro overflows
  have ended : (p.after natives limit output chain (j + 1)).outcome? =
      some (.failed ⟨.stackOverflow limit, (p.after natives limit output chain j).location⟩) := by
    rw [after_succ, Machine.move_of_overflows overflows, depthLimit_after]
    rfl
  refine other (p.after natives limit output chain j).location ?_
  rw [after_of_isOver (Machine.isOver_of_outcome ended) lt, ended]

/-- A run that ends for the limit has called too deep, if native functions leave it to the machine
to end it so. -/
theorem overflows_of_outcome {location : Option BlockLocation}
    (leaves : ∀ name f, natives.get? name = some f → f.LeavesLimit)
    (ended : (p.after natives limit output chain k).outcome? =
      some (.failed ⟨.stackOverflow limit, location⟩)) :
    ∃ j < k, (p.after natives limit output chain j).isOver = false ∧
      p.after natives limit output chain k = (p.after natives limit output chain j).move ∧
      (p.after natives limit output chain j).Overflows := by
  induction k with
  | zero =>
    exfalso
    have start : p.after natives limit output chain 0 =
        (Machine.ofProgram p natives limit output).start chain := rfl
    rw [start, Machine.start] at ended
    split at ended
    · next failure missing =>
      -- a run that does not even start lacks something of the program
      have structural := Machine.structural_of_plan (p := p) rfl missing
      cases ended
      cases structural
    · cases ended
  | succ k ih =>
    cases runs : (p.after natives limit output chain k).isOver with
    | true =>
      -- the run was over before the last move
      have same := after_of_isOver runs (Nat.le_succ k)
      rw [same] at ended
      obtain ⟨j, lt, runs', last, overflows⟩ := ih ended
      exact ⟨j, Nat.lt_succ_of_lt lt, runs', same.trans last, overflows⟩
    | false =>
      refine ⟨k, Nat.lt_succ_self k, runs, after_succ k, ?_⟩
      rw [after_succ] at ended
      have fails := Machine.failsWith_of_move runs ended
      generalize is : (⟨.stackOverflow limit, location⟩ : Failure) = failure at fails
      cases fails with
      | raised raises =>
        obtain ⟨same, -⟩ := Failure.mk.inj is
        cases raises with
        | stackOverflow overflows => exact overflows
        | native activity answer =>
          have own := Machine.called_of_reaches leaves (Machine.reaches_iterate _ k) activity
          exact absurd (same ▸ answer) (own _ _ limit)
        | typeMismatch works => cases same
        | noValue works => cases same
        | missingReturn activity suspended floor => cases same
      | unplanned works missing =>
        subst is
        cases Machine.structural_of_plan (plans_after k) missing

/-- What is printed stays printed, if it does for each native function. -/
theorem extended_after (prints : ∀ name f, natives.get? name = some f → ∀ (s : Surroundings)
      arguments, s.output.Extended (f s arguments).2.output) (le : j ≤ k) :
    (p.after natives limit output chain j).output.Extended
      (p.after natives limit output chain k).output := by
  induction le with
  | refl => exact .refl _
  | @step k _ ih =>
    refine ih.trans ?_
    rw [after_succ]
    rcases Machine.own_or_reacts (p.after natives limit output chain k) with
      own | ⟨definition, function, arguments, around, activity, moved⟩
    · rw [(Machine.kept_move own).output]
      exact .refl _
    · rw [moved, (Machine.kept_react _ _ _ _).output]
      exact Machine.called_of_reaches prints (Machine.reaches_iterate _ k) activity _ _

/-- The evaluations of a run belong to the blocks of the program. -/
theorem traced_after (p : Program) (natives : NativeTable) (limit : Nat) (output : Output)
    (chain : ChainId) (k : Nat) : (p.after natives limit output chain k).Traced fun plan =>
      p.resolve natives plan.chain = some (.ok plan) :=
  Machine.traced_of_reaches ⟨rfl, rfl, rfl, rfl, rfl⟩ rfl (Machine.reaches_iterate _ k)

/-- A call that is too deep is one more than there may be, and is made where the run is located. -/
theorem attempts_of_overflows (overflows : (p.after natives limit output chain j).Overflows) :
    (p.after natives limit output chain j).Attempts p natives limit
      (p.after natives limit output chain j).location := by
  obtain ⟨full, definition, body, parameters, arguments, around, activity⟩ := overflows
  have traced := traced_after p natives limit output chain j
  have order := Machine.inOrder_of_reaches (Machine.reaches_iterate
    ((Machine.ofProgram p natives limit output).start chain) j)
  have bound := traced.rooted.limit
  rw [depthLimit_after] at full bound
  -- calls are never nested deeper than is allowed, so they are nested just as deep here
  have depth := Nat.le_antisymm bound full
  obtain ⟨f, rest, op, e, expressions, frames, made, block, expr, contains⟩ :=
    traced.calling activity
  refine ⟨depth, ?_, rfl, ⟨f.plan.chain, f.current⟩, f.plan, op, e, definition, body, parameters,
    expressions, arguments, around, ?_, made, block, expr, contains, activity⟩
  · have works : (p.after natives limit output chain j).activity.around? = some around := by
      rw [activity]
      rfl
    exact (Stacked.count_procedures (order.stands works)).trans depth
  · rw [Machine.location, frames]
    rfl

end

/-- **The limit on nested calls only ever cuts runs short.** As long as a run has not ended for the
limit, and so also when it has ended otherwise, it is the same under every higher limit. A run that
ends for the limit has as many calls nested as there may be, and fails at the block that makes one
more. What it has printed is the beginning of what is printed under a higher limit, whether that run
ends or not.

Both runs call the same functions, which keep nothing to themselves and so answer alike in both, and
have outputs that go by what they have been given (`Native`, `Output`). The second half takes native
functions that leave the error of the limit to the machine and take nothing back that has been
printed. -/
theorem deeper_calls {p : Program} {natives : NativeTable} {limit limit' : Nat}
    (le : limit ≤ limit') (output : Output) (chain : ChainId) :
    (∀ k, (∀ location, (p.after natives limit output chain k).outcome? ≠
        some (.failed ⟨.stackOverflow limit, location⟩)) →
      p.after natives limit' output chain k =
          { p.after natives limit output chain k with depthLimit := limit' } ∧
        (p.after natives limit' output chain k).outcome? =
          (p.after natives limit output chain k).outcome? ∧
        (p.after natives limit' output chain k).output =
          (p.after natives limit output chain k).output ∧
        (p.after natives limit' output chain k).env.globals =
          (p.after natives limit output chain k).env.globals ∧
        (p.after natives limit' output chain k).snapshots =
          (p.after natives limit output chain k).snapshots) ∧
    ((∀ name f, natives.get? name = some f → f.LeavesLimit) →
      (∀ name f, natives.get? name = some f → ∀ (s : Surroundings) arguments,
        s.output.Extended (f s arguments).2.output) →
      ∀ k location, (p.after natives limit output chain k).outcome? =
          some (.failed ⟨.stackOverflow limit, location⟩) →
        ∃ j < k, (p.after natives limit output chain j).isOver = false ∧
          p.after natives limit output chain k = (p.after natives limit output chain j).move ∧
          (p.after natives limit output chain j).Attempts p natives limit location ∧
          p.after natives limit' output chain j =
            { p.after natives limit output chain j with depthLimit := limit' } ∧
          ∀ i, j < i → (p.after natives limit output chain k).output.Extended
            (p.after natives limit' output chain i).output) := by
  refine ⟨fun k other => ?_, fun leaves prints k location ended => ?_⟩
  · have same := after_deeper le fun j lt => not_overflows other lt
    rw [Machine.aside_deeper] at same
    rw [same]
    exact ⟨rfl, rfl, rfl, rfl, rfl⟩
  · obtain ⟨j, lt, runs, last, overflows⟩ := overflows_of_outcome leaves ended
    -- the run goes on up to there, so it has not called too deep before
    have room (i : Nat) (before : i < j) : ¬ (p.after natives limit output chain i).Overflows := by
      intro overflows
      have over_ : (p.after natives limit output chain (i + 1)).isOver := by
        rw [after_succ, Machine.move_of_overflows overflows]
        rfl
      rw [after_of_isOver over_ before, over_] at runs
      cases runs
    have same : p.after natives limit' output chain j =
        (p.after natives limit output chain j).aside (.deeper limit') := after_deeper le room
    have located : location = (p.after natives limit output chain j).location := by
      rw [last, Machine.move_of_overflows overflows, depthLimit_after] at ended
      cases ended
      rfl
    refine ⟨j, lt, runs, last, located ▸ attempts_of_overflows overflows,
      same.trans (Machine.aside_deeper _ _), fun i after_ => ?_⟩
    -- a call that is too deep prints nothing
    have printed : (p.after natives limit output chain k).output =
        (p.after natives limit' output chain j).output := by
      rw [last, Machine.move_of_overflows overflows, same]
      rfl
    rw [printed]
    exact extended_after prints (Nat.le_of_lt after_)

/-- A program whose procedure prints a line and calls itself, which only the limit cuts off. -/
def diving : Program where
  definitions := Registry.builtins.insert (.procedure "dive" [])
  globals := .empty
  chains :=
    [⟨0, Chain.origin, [⟨"on_start", []⟩, ⟨"dive", []⟩]⟩,
      ⟨1, Chain.origin, [⟨"define", [.definition (.procedure "dive" [])]⟩,
        ⟨"print", [.literal (.text "down")]⟩, ⟨"dive", []⟩]⟩]

set_option maxRecDepth 20000 in
/-- A run that ends for the limit within a procedure has printed the beginning of what is printed
under a higher one. -/
theorem deeper_calls_diving :
    1 ≤ 4 ∧ (∀ name f, Native.standard.get? name = some f → f.LeavesLimit) ∧
      (∀ name f, Native.standard.get? name = some f → ∀ (s : Surroundings) arguments,
        s.output.Extended (f s arguments).2.output) ∧
      (diving.after Native.standard 1 .unlimited 0 13).outcome? =
        some (.failed ⟨.stackOverflow 1, some ⟨1, 2⟩⟩) ∧
      ∃ j < 13,
        (diving.after Native.standard 1 .unlimited 0 j).Attempts diving Native.standard 1
          (some ⟨1, 2⟩) ∧
        ∀ i, j < i → (diving.after Native.standard 1 .unlimited 0 13).output.Extended
          (diving.after Native.standard 4 .unlimited 0 i).output := by
  have le : 1 ≤ 4 := by decide
  have leaves (name : String) (f : Native) (known : Native.standard.get? name = some f) :
      f.LeavesLimit := Native.leavesLimit_standard known
  have prints (name : String) (f : Native) (known : Native.standard.get? name = some f)
      (s : Surroundings) (arguments : List Value) : s.output.Extended (f s arguments).2.output :=
    (Native.harmless_standard known).cooperative.prints s arguments
  have ended : (diving.after Native.standard 1 .unlimited 0 13).outcome? =
      some (.failed ⟨.stackOverflow 1, some ⟨1, 2⟩⟩) := by rfl
  obtain ⟨j, lt, -, -, attempts, -, beginning⟩ :=
    (deeper_calls le .unlimited 0).2 leaves prints 13 _ ended
  exact ⟨le, leaves, prints, ended, j, lt, attempts, beginning⟩

end Program

end Blockwork
