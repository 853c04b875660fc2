import Blockwork.Proofs.Gate
import Blockwork.Proofs.Unseen

/-!
# The chains that a run looks up

A run looks up the chain that it is started with, and the body of each procedure when it enters it.
Nothing else of the chains of a program matters to it: not whether another chain is there, nor
whether it could be run. So the plan of a chain need not be made before the run asks for it, and
when it is kept then it stays the right one.

## Main statements

* `Program.LooksUp`: the chains that a run looks up.
* `Program.after_eq_aside`: where these are the same, runs go on in the same way.
* `Program.lazilyAfter_eq_aside`: plans may be made when they are asked for.
* `Program.runs_alike`: only the chains that a run looks up matter.
-/

namespace Blockwork

/-- The machine with other plans. -/
def Aside.table (plans : List (ChainId × Except Failure Plan)) : Aside :=
  ⟨false, [], fun _ => plans, id⟩

namespace Machine

theorem aside_table (m : Machine) (plans : List (ChainId × Except Failure Plan)) :
    m.aside (.table plans) = { m with plans := plans } := by
  simp [aside, Aside.table]

theorem aside_table_table (m : Machine) (plans other : List (ChainId × Except Failure Plan)) :
    (m.aside (.table plans)).aside (.table other) = m.aside (.table other) := by
  simp only [aside_table]

/-- The body of the procedure that a machine is about to enter. -/
def entering? (m : Machine) : Option ChainId :=
  match m.activity with
  | .calling (.procedure _ body _) _ _ => if m.depth < m.depthLimit then some body else none
  | _ => none

theorem entering?_of_calling {m : Machine} {definition : String} {body : ChainId}
    {parameters : List String} {arguments : List Value} {around : Evaluation}
    (activity : m.activity = .calling (.procedure definition body parameters) arguments around) :
    m.entering? = if m.depth < m.depthLimit then some body else none := by
  rw [entering?, activity]

/-- A machine goes on in the same way with other plans if they have the same plan of the body that
it is about to enter. -/
theorem move_table {m : Machine} {plans : List (ChainId × Except Failure Plan)}
    (same : ∀ id, m.entering? = some id → (m.aside (.table plans)).plan id = m.plan id) :
    (m.aside (.table plans)).move = m.move.aside (.table plans) := by
  refine move_aside (.inl rfl) ?_
  intro definition body parameters arguments around activity
  by_cases full : m.depthLimit ≤ m.depth
  · exact .full full rfl
  · have room := Nat.lt_of_not_le full
    have entering := entering?_of_calling activity
    rw [if_pos room] at entering
    exact .room room room (same body entering)

end Machine

namespace Program

/-! ## What is looked up -/

/-- The plan of the first chain of a number, if there is one. -/
def resolve (p : Program) (natives : NativeTable) (id : ChainId) : Option (Except Failure Plan) :=
  (p.chain? id).map (Plan.ofChain ⟨p.definitions, natives⟩)

/-- A plan is made from the number and the blocks of a chain; where it stands on the canvas does not
matter. -/
theorem resolve_congr {p p' : Program} {natives : NativeTable} {id : ChainId}
    (definitions : p'.definitions = p.definitions)
    (same : (p'.chain? id).map Chain.blocks = (p.chain? id).map Chain.blocks) :
    p'.resolve natives id = p.resolve natives id := by
  have number {q : Program} {c : Chain} (h : q.chain? id = some c) : c.id = id := by
    simpa using List.find?_some h
  unfold resolve
  cases first : p.chain? id with
  | none =>
    rw [first] at same
    rw [Option.map_eq_none_iff.mp same]
    rfl
  | some c =>
    rw [first] at same
    obtain ⟨c', first', blocks⟩ := Option.map_eq_some_iff.mp same
    have shapes : c'.shapes p.definitions = c.shapes p.definitions := by
      rw [Chain.shapes, blocks, Chain.shapes]
    rw [first', Option.map_some, Option.map_some, definitions]
    simp only [Plan.ofChain, shapes, number first, number first', blocks]

/-- A machine that has the plans of a program finds the plan that is made from it. -/
theorem plan_eq_resolve {m : Machine} {p : Program} {natives : NativeTable}
    (plans : m.plans = p.plans natives) (id : ChainId) :
    m.plan id = (p.resolve natives id).getD (.error ⟨.unknownChain id, m.location⟩) := by
  rw [Machine.plan_of_plans plans, resolve]
  cases p.chain? id <;> rfl

/-- A run of a chain after so many moves. -/
def after (p : Program) (natives : NativeTable) (limit : Nat) (output : Output) (chain : ChainId)
    (k : Nat) : Machine :=
  Machine.move^[k] ((Machine.ofProgram p natives limit output).start chain)

/-- A run looks up a chain: it is the one that is run, or the body of a procedure that it enters. -/
inductive LooksUp (p : Program) (natives : NativeTable) (limit : Nat) (output : Output)
    (chain : ChainId) : ChainId → Prop where
  | root : LooksUp p natives limit output chain chain
  | body {k : Nat} {id : ChainId}
      (enters : (p.after natives limit output chain k).entering? = some id) :
      LooksUp p natives limit output chain id

section

variable {p p' : Program} {natives : NativeTable} {limit : Nat} {output : Output}
  {chain : ChainId}

theorem after_succ (k : Nat) : p.after natives limit output chain (k + 1) =
    (p.after natives limit output chain k).move :=
  Function.iterate_succ_apply' ..

theorem plans_after (k : Nat) : (p.after natives limit output chain k).plans = p.plans natives := by
  have start : ((Machine.ofProgram p natives limit output).start chain).plans = p.plans natives :=
    (Machine.kept_start _ chain).plans
  exact (Machine.reaches_iterate _ k).plans.1.trans start

/-- **Where the chains that are looked up are the same, runs go on in the same way.** -/
theorem after_eq_aside (globals : p'.globals = p.globals)
    (same : ∀ id, p.LooksUp natives limit output chain id →
      p'.resolve natives id = p.resolve natives id) (k : Nat) :
    p'.after natives limit output chain k =
      (p.after natives limit output chain k).aside (.table (p'.plans natives)) := by
  have plan (m : Machine) (plans : m.plans = p.plans natives) (id : ChainId)
      (looks : p.LooksUp natives limit output chain id) :
      (m.aside (.table (p'.plans natives))).plan id = m.plan id := by
    rw [plan_eq_resolve plans, plan_eq_resolve rfl, same id looks]
    rfl
  -- a move asks for one plan at most, and it is that of a chain that is looked up
  induction k with
  | zero =>
    have first : Machine.ofProgram p' natives limit output =
        (Machine.ofProgram p natives limit output).aside (.table (p'.plans natives)) := by
      rw [Machine.aside_table, Machine.ofProgram, globals, Machine.ofProgram]
    show (Machine.ofProgram p' natives limit output).start chain = _
    rw [first]
    exact Machine.start_aside (plan _ rfl chain .root)
  | succ k ih =>
    rw [after_succ, after_succ, ih]
    exact Machine.move_table fun id enters => plan _ (plans_after k) id (.body enters)

/-- Both runs look up the same. -/
theorem looksUp_iff (globals : p'.globals = p.globals)
    (same : ∀ id, p.LooksUp natives limit output chain id →
      p'.resolve natives id = p.resolve natives id) (id : ChainId) :
    p'.LooksUp natives limit output chain id ↔ p.LooksUp natives limit output chain id := by
  have entering (k : Nat) : (p'.after natives limit output chain k).entering? =
      (p.after natives limit output chain k).entering? := by
    rw [after_eq_aside globals same]
    rfl
  constructor
  · rintro (_ | ⟨enters⟩)
    · exact .root
    · exact .body (entering _ ▸ enters)
  · rintro (_ | ⟨enters⟩)
    · exact .root
    · exact .body ((entering _).trans enters)

end

/-! ## Plans that are made when they are asked for -/

/-- Makes the plan of a chain, unless there is one already. -/
def fetched (p : Program) (natives : NativeTable) (id : ChainId)
    (table : List (ChainId × Except Failure Plan)) : List (ChainId × Except Failure Plan) :=
  match table.find? fun e => e.1 = id with
  | some _ => table
  | none => ((p.resolve natives id).map fun plan => (id, plan)).toList ++ table

/-- A chain that has no plan is not remembered. -/
def remembered (table : List (ChainId × Except Failure Plan)) :
    List (ChainId × Except Failure Plan) :=
  table.filter fun e => e.2.isOk

/-- The start of a run that makes the plans which it asks for, with those that the machine has. -/
def startOn (p : Program) (natives : NativeTable) (m : Machine) (chain : ChainId) : Machine :=
  let table := p.fetched natives chain m.plans
  ((m.aside (.table table)).start chain).aside (.table (remembered table))

/-- The start of a run that makes the plans which it asks for. -/
def startLazily (p : Program) (natives : NativeTable) (limit : Nat) (output : Output)
    (chain : ChainId) : Machine :=
  let table := p.fetched natives chain []
  (((Machine.ofProgram p natives limit output).aside (.table table)).start chain).aside
    (.table (remembered table))

/-- A move of a run that makes the plans which it asks for. -/
def moveLazily (p : Program) (natives : NativeTable) (m : Machine) : Machine :=
  match m.entering? with
  | none => m.move
  | some id =>
    let table := p.fetched natives id m.plans
    (m.aside (.table table)).move.aside (.table (remembered table))

/-- A run that makes the plans which it asks for, after so many moves. -/
def lazilyAfter (p : Program) (natives : NativeTable) (limit : Nat) (output : Output)
    (chain : ChainId) (k : Nat) : Machine :=
  (p.moveLazily natives)^[k] (p.startLazily natives limit output chain)

/-- The plans in a table are those of chains that have been looked up. -/
def Made (p : Program) (natives : NativeTable) (looked : ChainId → Prop)
    (table : List (ChainId × Except Failure Plan)) : Prop :=
  ∀ e ∈ table, looked e.1 ∧ p.resolve natives e.1 = some e.2

section

variable {p p' : Program} {natives : NativeTable} {limit : Nat} {output : Output}
  {chain : ChainId} {looked : ChainId → Prop} {table : List (ChainId × Except Failure Plan)}

theorem Made.fetched {id : ChainId} (made : p.Made natives looked table) (looks : looked id) :
    p.Made natives looked (p.fetched natives id table) := by
  unfold Program.fetched
  split
  · exact made
  · intro e among
    rcases List.mem_append.mp among with new | old
    · obtain ⟨plan, resolved, rfl⟩ := Option.map_eq_some_iff.mp (Option.mem_toList.mp new)
      exact ⟨looks, resolved⟩
    · exact made e old

theorem Made.remembered (made : p.Made natives looked table) :
    p.Made natives looked (remembered table) :=
  fun e among => made e (List.mem_filter.mp among).1

/-- A plan that has been made is the one that would be made now. -/
theorem Made.plan {m : Machine} {id : ChainId} (made : p.Made natives looked table) :
    (m.aside (.table (p.fetched natives id table))).plan id =
      (p.resolve natives id).getD (.error ⟨.unknownChain id, m.location⟩) := by
  have plans : (m.aside (.table (p.fetched natives id table))).plans =
      p.fetched natives id table := rfl
  rw [Machine.plan, plans, Program.fetched]
  cases found : table.find? fun e => e.1 = id with
  | some e =>
    obtain ⟨id', plan⟩ := e
    obtain rfl : id' = id := by simpa using List.find?_some found
    rw [found, (made _ (List.mem_of_find?_eq_some found)).2]
    rfl
  | none =>
    cases p.resolve natives id with
    | none =>
      rw [Option.map_none, Option.toList_none, List.nil_append, found]
      rfl
    | some plan => simp

theorem lazilyAfter_succ (k : Nat) : p.lazilyAfter natives limit output chain (k + 1) =
    p.moveLazily natives (p.lazilyAfter natives limit output chain k) :=
  Function.iterate_succ_apply' ..

/-- A run begins in the same way with the plans that have been made. -/
theorem startOn_aside {m : Machine} (plans : m.plans = p.plans natives)
    (made : p.Made natives looked table) (looks : looked chain) :
    ∃ table', p.Made natives looked table' ∧
      p.startOn natives (m.aside (.table table)) chain = (m.start chain).aside (.table table') := by
  refine ⟨_, (made.fetched looks).remembered, ?_⟩
  show (((m.aside _).aside _).start chain).aside _ = _
  rw [Machine.aside_table_table, Machine.start_aside, Machine.aside_table_table]
  · rfl
  · exact made.plan.trans (plan_eq_resolve plans chain).symm

/-- A run goes on in the same way with the plans that have been made. -/
theorem moveLazily_aside {m : Machine} (plans : m.plans = p.plans natives)
    (made : p.Made natives looked table) (looks : ∀ id, m.entering? = some id → looked id) :
    ∃ table', p.Made natives looked table' ∧
      p.moveLazily natives (m.aside (.table table)) = m.move.aside (.table table') := by
  have entering : (m.aside (.table table)).entering? = m.entering? := rfl
  unfold moveLazily
  rw [entering]
  cases enters : m.entering? with
  | none =>
    refine ⟨table, made, Machine.move_table ?_⟩
    rw [enters]
    exact nofun
  | some id =>
    -- the plan is made for this move, and what is no plan is forgotten after it
    refine ⟨_, (made.fetched (looks id enters)).remembered, ?_⟩
    show (Machine.move _).aside _ = _
    rw [Machine.aside_table_table, Machine.move_table, Machine.aside_table_table]
    · rfl
    · rw [enters]
      rintro _ ⟨⟩
      exact made.plan.trans (plan_eq_resolve plans id).symm

/-- **Plans may be made when they are asked for.** The run is the same, and it holds plans only of
chains that it has looked up, which are still the right ones. -/
theorem lazilyAfter_eq_aside (p : Program) (natives : NativeTable) (limit : Nat) (output : Output)
    (chain : ChainId) (k : Nat) :
    ∃ table, p.Made natives (p.LooksUp natives limit output chain) table ∧
      p.lazilyAfter natives limit output chain k =
        (p.after natives limit output chain k).aside (.table table) := by
  -- all that the table holds is right, so that the rest is missing does not show
  induction k with
  | zero =>
    have made : p.Made natives (p.LooksUp natives limit output chain) [] :=
      fun _ among => absurd among List.not_mem_nil
    exact startOn_aside (m := .ofProgram p natives limit output) rfl made .root
  | succ k ih =>
    obtain ⟨table, made, eq⟩ := ih
    rw [lazilyAfter_succ, after_succ, eq]
    exact moveLazily_aside (plans_after k) made fun id enters => .body enters

/-- A run that makes its plans does not even hold anything of the other chains. -/
theorem lazilyAfter_congr (globals : p'.globals = p.globals)
    (same : ∀ id, p.LooksUp natives limit output chain id →
      p'.resolve natives id = p.resolve natives id) (k : Nat) :
    p'.lazilyAfter natives limit output chain k = p.lazilyAfter natives limit output chain k := by
  have fetched (id : ChainId) (looks : p.LooksUp natives limit output chain id)
      (table : List (ChainId × Except Failure Plan)) :
      p'.fetched natives id table = p.fetched natives id table := by
    rw [Program.fetched, Program.fetched, same id looks]
  induction k with
  | zero =>
    have first (table : List (ChainId × Except Failure Plan)) :
        (Machine.ofProgram p' natives limit output).aside (.table table) =
          (Machine.ofProgram p natives limit output).aside (.table table) := by
      rw [Machine.aside_table, Machine.aside_table, Machine.ofProgram, globals, Machine.ofProgram]
    show p'.startLazily natives limit output chain = p.startLazily natives limit output chain
    simp only [startLazily, fetched chain .root, first]
  | succ k ih =>
    obtain ⟨table, -, eq⟩ := lazilyAfter_eq_aside p natives limit output chain k
    rw [lazilyAfter_succ, lazilyAfter_succ, ih, moveLazily, moveLazily]
    cases enters : (p.lazilyAfter natives limit output chain k).entering? with
    | none => rfl
    | some id =>
      have looks : p.LooksUp natives limit output chain id := .body (k := k) (by
        rw [eq] at enters
        exact enters)
      simp only [fetched id looks]

end

/-! ## Chains that are not looked up -/

/-- A chain that a run looks up is the one that is run, or a definition names it as the body of a
procedure. -/
theorem named_of_looksUp {p : Program} {natives : NativeTable} {limit : Nat} {output : Output}
    {chain id : ChainId} (looks : p.LooksUp natives limit output chain id) :
    id = chain ∨ (Plan.Library.mk p.definitions natives).Names id := by
  rcases looks with _ | ⟨enters⟩
  · exact .inl rfl
  · next k =>
    have start : ((Machine.ofProgram p natives limit output).start chain).All (fun _ _ => True)
        (fun id => id = chain ∨ (Plan.Library.mk p.definitions natives).Names id)
        fun _ => True :=
      Machine.all_start (fun _ _ _ => trivial) (fun _ => .inr) (fun _ _ _ _ => trivial) (.inl rfl)
    have all := start.reaches (covers_all _) (Machine.reaches_iterate _ k)
    unfold Machine.entering? at enters
    split at enters
    · next activity =>
      split at enters
      · cases enters
        have is := all.activity
        rw [show (Machine.move^[k] _).activity = _ from activity] at is
        exact is.1
      · cases enters
    · cases enters

/-- What the first chain of a number is depends only on the chains of some numbers, in their order.
-/
theorem blocks_of_entered {p p' : Program} {entered : ChainId → Bool}
    (same : (p'.chains.filter fun c => entered c.id).map (fun c => (c.id, c.blocks)) =
      (p.chains.filter fun c => entered c.id).map fun c => (c.id, c.blocks))
    {id : ChainId} (enters : entered id) :
    (p'.chain? id).map Chain.blocks = (p.chain? id).map Chain.blocks := by
  -- the first chain of such a number is the first one among the chains of such numbers
  have among (q : Program) : (q.chain? id).map Chain.blocks =
      (((q.chains.filter fun c => entered c.id).map fun c => (c.id, c.blocks)).find?
        fun e => e.1 = id).map Prod.snd := by
    have first :
        q.chain? id = (q.chains.filter fun c => entered c.id).find? fun c => c.id = id := by
      rw [chain?, List.find?_filter]
      refine congrArg (q.chains.find? ·) (funext fun c => ?_)
      by_cases is : c.id = id
      · simp [is, enters]
      · simp [is]
    rw [first, List.find?_map, Option.map_map]
    rfl
  rw [among, among, same]

/-! ## Runs -/

/-- The runs of a chain do the same in two programs, move by move, whether all plans are made before
or when they are asked for. -/
structure RunsAs (p' p : Program) (natives : NativeTable) (limit : Nat) (output : Output)
    (chain : ChainId) : Prop where
  isOver : ∀ k, (p'.after natives limit output chain k).isOver =
    (p.after natives limit output chain k).isOver
  outcome : ∀ k, (p'.after natives limit output chain k).outcome? =
    (p.after natives limit output chain k).outcome?
  printed : ∀ k, (p'.after natives limit output chain k).output =
    (p.after natives limit output chain k).output
  globals : ∀ k, (p'.after natives limit output chain k).env.globals =
    (p.after natives limit output chain k).env.globals
  snapshots : ∀ k, (p'.after natives limit output chain k).snapshots =
    (p.after natives limit output chain k).snapshots
  /-- Nothing but the plans is otherwise. -/
  rest : ∀ k, p'.after natives limit output chain k =
    { p.after natives limit output chain k with plans := p'.plans natives }
  /-- Runs that make their plans make the same ones, only of chains that are looked up. -/
  lazily : ∀ k, ∃ table, p.Made natives (p.LooksUp natives limit output chain) table ∧
    p.lazilyAfter natives limit output chain k =
      { p.after natives limit output chain k with plans := table } ∧
    p'.lazilyAfter natives limit output chain k =
      { p.after natives limit output chain k with plans := table }
  looksUp : ∀ id, p'.LooksUp natives limit output chain id ↔ p.LooksUp natives limit output chain id

theorem runsAs_of_resolve {p p' : Program} {natives : NativeTable} {limit : Nat} {output : Output}
    {chain : ChainId} (globals : p'.globals = p.globals)
    (same : ∀ id, p.LooksUp natives limit output chain id →
      p'.resolve natives id = p.resolve natives id) : p'.RunsAs p natives limit output chain := by
  have eq (k : Nat) := after_eq_aside globals same k
  refine ⟨fun k => ?_, fun k => ?_, fun k => ?_, fun k => ?_, fun k => ?_, fun k => ?_, fun k => ?_,
    looksUp_iff globals same⟩
  · rw [eq]
    rfl
  · rw [eq]
    rfl
  · rw [eq]
    rfl
  · rw [eq]
    rfl
  · rw [eq, Machine.aside_table]
  · rw [eq, Machine.aside_table]
  · obtain ⟨table, made, lazily⟩ := lazilyAfter_eq_aside p natives limit output chain k
    rw [Machine.aside_table] at lazily
    exact ⟨table, made, lazily, (lazilyAfter_congr globals same k).trans lazily⟩

/-- **Only the chains that a run looks up matter.** Let two programs have the same definitions and
variables. If for each chain that the run of one looks up the first chain of that number has the
same blocks in both, or there is none in both, then their runs do the same. So chains that are not
looked up may be added, taken away, broken, put into another order or moved.

Both runs use the same native functions and outputs alike: a function that kept something to itself
between calls, or an output that went by more than what it has been given, could tell the runs apart
(`Native`, `Output`). -/
theorem runs_alike {p p' : Program} {natives : NativeTable} {limit : Nat} {output : Output}
    {chain : ChainId} (definitions : p'.definitions = p.definitions)
    (globals : p'.globals = p.globals) :
    ((∀ id, p.LooksUp natives limit output chain id →
        (p'.chain? id).map Chain.blocks = (p.chain? id).map Chain.blocks) →
      p'.RunsAs p natives limit output chain) ∧
    ∀ entered : ChainId → Bool, (∀ id, p.LooksUp natives limit output chain id → entered id) →
      (p'.chains.filter fun c => entered c.id).map (fun c => (c.id, c.blocks)) =
        (p.chains.filter fun c => entered c.id).map (fun c => (c.id, c.blocks)) →
      p'.RunsAs p natives limit output chain := by
  have of_blocks (same : ∀ id, p.LooksUp natives limit output chain id →
      (p'.chain? id).map Chain.blocks = (p.chain? id).map Chain.blocks) :
      p'.RunsAs p natives limit output chain :=
    runsAs_of_resolve globals fun id looks => resolve_congr definitions (same id looks)
  refine ⟨of_blocks, fun entered enters same => ?_⟩
  exact of_blocks fun id looks => blocks_of_entered same (enters id looks)

/-- A program with a chain that is broken before those of another one, which are moved. -/
def crowded : Program :=
  { greeting with
    chains := ⟨7, Chain.origin, [⟨"end", []⟩]⟩ ::
      greeting.chains.map fun c => { c with position := ⟨3, 4⟩ } }

/-- A chain that is broken, and is not looked up, does not change a run. -/
theorem runs_alike_crowded :
    (crowded.definitions = greeting.definitions ∧ crowded.globals = greeting.globals) ∧
      (∀ id, greeting.LooksUp Native.standard 64 .unlimited 0 id →
        (crowded.chain? id).map Chain.blocks = (greeting.chain? id).map Chain.blocks) ∧
      crowded.RunsAs greeting Native.standard 64 .unlimited 0 := by
  have named (id : ChainId)
      (names : (Plan.Library.mk greeting.definitions Native.standard).Names id) : id = 1 := by
    obtain ⟨name, d, found, behavior⟩ := names
    rcases Ordered.mem_insert (Ordered.mem_of_find? found) with rfl | builtin
    · cases behavior
      rfl
    · have standard := isStandard_of_builtins d builtin
      rw [Definition.isStandard, behavior] at standard
      cases standard
  have same (id : ChainId) (looks : greeting.LooksUp Native.standard 64 .unlimited 0 id) :
      (crowded.chain? id).map Chain.blocks = (greeting.chain? id).map Chain.blocks := by
    rcases named_of_looksUp looks with rfl | names
    · rfl
    · rw [named id names]
      rfl
  have definitions : crowded.definitions = greeting.definitions := rfl
  have globals : crowded.globals = greeting.globals := rfl
  exact ⟨⟨definitions, globals⟩, same, (runs_alike definitions globals).1 same⟩

end Program

end Blockwork
