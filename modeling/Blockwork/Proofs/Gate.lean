import Blockwork.Integrity
import Blockwork.Proofs.Calls
import Blockwork.Proofs.Natives

/-!
# What the integrity of a program is good for

The check looks at the slots of a block, the making of a plan at the indices of its arguments. Both
go through the same blocks, and where the check finds nothing wrong a plan is made. As a run calls
only what stands in plans, it never comes upon a block that is put together badly.

## Main statements

* `Plan.resolveArgument_of_check`: an argument that passes the check is an expression.
* `Plan.ofChain_of_violations`: a chain without violations has a plan.
* `Program.runs_of_violations`: a program without violations has plans for all chains, and no run of
  it fails for what a program lacks.

The check does not look at the definitions themselves, so they have to make sense: that is
`Definition.Regular`.
-/

namespace Blockwork

/-! ## Definitions that make sense -/

/-- Whether a block of the part looks at an argument. -/
def Flow.looksAtArgument : Flow → Bool
  | .repeatTimes | .repeatUntil | .ifThen | .giveBack => true
  | _ => false

/-- Whether a slot holds a value, or a block that gives one. -/
def Slot.holdsValue : Slot → Bool
  | .argument _ | .dropdown .. => true
  | _ => false

/-- A definition can be used among given functions and bodies of procedures. A native function is to
read no more arguments than there are slots for, and to find no other fault with the program
(`Native.Reads`). -/
structure Definition.Regular (d : Definition) (natives : NativeTable) (bodies : ChainId → Prop) :
    Prop where
  directing : ∀ flow, d.behavior = .control flow → flow.looksAtArgument →
    ∃ slot, d.valueSlots.head? = some slot ∧ slot.holdsValue
  noEditor : d.behavior.flow? = none → .definitionEditor ∉ d.slots
  native : ∀ name, d.behavior = .native name →
    ∃ f count, natives.get? name = some f ∧ f.Reads count ∧ count ≤ d.arity
  procedure : ∀ body?, d.behavior = .procedure body? → ∃ body, body? = some body ∧ bodies body

/-- A program has a chain of the number. -/
def Program.Has (p : Program) (id : ChainId) : Prop := ∃ c ∈ p.chains, c.id = id

/-- All definitions of a program can be used. -/
def Program.Regular (p : Program) (natives : NativeTable) : Prop :=
  ∀ id d, p.definitions.find? id = some d → d.Regular natives p.Has

theorem Definition.Regular.slots {d : Definition} {natives : NativeTable} {bodies : ChainId → Prop}
    (h : d.Regular natives bodies) (plain : d.behavior.flow? = none) :
    ∀ slot ∈ d.valueSlots, slot.holdsValue := by
  intro slot mem
  obtain ⟨among, isValue⟩ := List.mem_filter.mp mem
  cases slot with
  | argument name => rfl
  | dropdown name choices => rfl
  | definitionEditor => exact absurd among (h.noEditor plain)
  | text label => cases isValue
  | image asset => cases isValue

/-! ## The check of a block -/

namespace Integrity

variable {r : Registry} {path : BlockPath} {definition : String}

theorem defined_of_check {found : Nat} {inSlots : List Slot → List Finding}
    (h : checkDefined r path definition found inSlots = []) :
    ∃ d, r.find? definition = some d ∧ d.arity = found ∧ inSlots d.valueSlots = [] := by
  unfold checkDefined at h
  split at h
  · cases h
  · next d hd =>
    obtain ⟨arity, slots⟩ := List.append_eq_nil_iff.mp h
    refine ⟨d, hd, ?_, slots⟩
    by_contra other
    rw [if_neg other] at arity
    cases arity

theorem check_cons {index : Nat} {slot : Slot} {slots : List Slot} {a : Argument}
    {rest : List Argument}
    (h : checkArguments r path definition index (slot :: slots) (a :: rest) = []) :
    checkArgument r path definition index slot a = [] ∧
      checkArguments r path definition (index + 1) slots rest = [] := by
  rw [checkArguments] at h
  exact List.append_eq_nil_iff.mp h

/-- A block that passes the check in the place of a value directs nothing. -/
theorem check_block {index : Nat} {slot : Slot} {inner : String} {arguments : List Argument}
    (value : slot.holdsValue)
    (h : checkArgument r path definition index slot (.block inner arguments) = []) :
    r.flow? inner = none ∧
      checkDefined r (path.child index) inner arguments.length (fun slots =>
        checkArguments r (path.child index) inner 0 slots arguments) = [] := by
  cases slot with
  | argument name =>
    rw [checkArgument] at h
    obtain ⟨control, rest⟩ := List.append_eq_nil_iff.mp h
    refine ⟨?_, rest⟩
    cases flow : r.flow? inner with
    | none => rfl
    | some flow' =>
      rw [flow] at control
      cases control
  | dropdown name choices =>
    simp only [checkArgument, checkFit] at h
    cases h
  | text label => cases value
  | image asset => cases value
  | definitionEditor => cases value

/-- The definition of a procedure does not pass the check in the place of a value. -/
theorem check_definition {index : Nat} {slot : Slot} {d : Definition} (value : slot.holdsValue) :
    checkArgument r path definition index slot (.definition d) ≠ [] := by
  cases slot with
  | argument name => simp [checkArgument, checkFit]
  | dropdown name choices => simp [checkArgument, checkFit]
  | text label => cases value
  | image asset => cases value
  | definitionEditor => cases value

end Integrity

/-! ## From the check to plans -/

namespace Plan

open Integrity

variable {l : Library} {path : BlockPath} {definition : String}

/-- A block that directs nothing is an expression if its arguments are. -/
theorem resolveWith_ok {bodies : ChainId → Prop} {d : Definition}
    {arguments : Nat → Except RunError (List Expr)} {es : List Expr}
    (found : l.definitions.find? definition = some d) (regular : d.Regular l.natives bodies)
    (plain : l.definitions.flow? definition = none) (ok : arguments d.arity = .ok es) :
    ∃ e, resolveWith l definition arguments = .ok e := by
  unfold resolveWith
  rw [found]
  simp only [ok, bind, Except.bind]
  cases behavior : d.behavior with
  | control flow => simp [Registry.flow?, found, behavior, Behavior.flow?] at plain
  | native name =>
    obtain ⟨f, _, hf, -, -⟩ := regular.native name behavior
    exact ⟨.native definition f es, by simp only [hf]⟩
  | procedure body? =>
    obtain ⟨body, rfl, -⟩ := regular.procedure body? behavior
    exact ⟨_, rfl⟩

mutual

/-- **An argument that passes the check is an expression.** -/
theorem resolveArgument_of_check {bodies : ChainId → Prop}
    (regular : ∀ id d, l.definitions.find? id = some d → d.Regular l.natives bodies) :
    ∀ {path : BlockPath} {definition : String} {index : Nat} {slot : Slot} {a : Argument},
      slot.holdsValue → checkArgument l.definitions path definition index slot a = [] →
        ∃ e, resolveArgument l a = .ok e
  | _, _, _, _, .literal value, _, _ => ⟨.literal value, by rw [resolveArgument]⟩
  | _, _, _, _, .choice name, _, _ => ⟨.literal (.text name), by rw [resolveArgument]⟩
  | path, _, index, _, .block inner arguments, value, h => by
    obtain ⟨plain, checked⟩ := check_block value h
    obtain ⟨d, found, arity, slots⟩ := defined_of_check checked
    have none : d.behavior.flow? = none := by
      simpa [Registry.flow?, found] using plain
    obtain ⟨es, ok⟩ := resolveFirst_of_check regular (j := 0)
      ((regular inner d found).slots none) arity slots
    rw [resolveArgument]
    exact resolveWith_ok found (regular inner d found) plain (by rw [arity]; exact ok)
  | _, _, _, _, .definition d, value, h => absurd h (check_definition value)

/-- Arguments that pass the check are expressions. -/
theorem resolveFirst_of_check {bodies : ChainId → Prop}
    (regular : ∀ id d, l.definitions.find? id = some d → d.Regular l.natives bodies) :
    ∀ {path : BlockPath} {definition : String} {index j : Nat} {slots : List Slot}
      {arguments : List Argument}, (∀ slot ∈ slots, slot.holdsValue) →
        slots.length = arguments.length →
        checkArguments l.definitions path definition index slots arguments = [] →
          ∃ es, resolveFirst l arguments.length j arguments = .ok es
  | _, _, _, _, _, [], _, _, _ => ⟨[], by rw [resolveFirst]; rfl⟩
  | _, _, _, _, [], _ :: _, _, length, _ => by cases length
  | path, definition, index, j, slot :: slots, a :: rest, values, length, h => by
    obtain ⟨first, later⟩ := check_cons h
    obtain ⟨e, he⟩ := resolveArgument_of_check regular (values slot List.mem_cons_self) first
    obtain ⟨es, hes⟩ := resolveFirst_of_check regular (j := j + 1)
      (fun s hs => values s (List.mem_cons_of_mem _ hs)) (Nat.succ.inj length) later
    refine ⟨e :: es, ?_⟩
    rw [resolveFirst, if_neg (by simp)]
    simp only [he, List.length_cons, Nat.add_sub_cancel, hes, bind, Except.bind, Pure.pure,
      Except.pure]

end

section

variable {bodies : ChainId → Prop}
  (regular : ∀ id d, l.definitions.find? id = some d → d.Regular l.natives bodies)
include regular

/-- The argument that a block looks at is an expression. -/
theorem resolveAt_of_check {b : Block} {d : Definition} {flow : Flow}
    (found : l.definitions.find? b.definition = some d) (behavior : d.behavior = .control flow)
    (looks : flow.looksAtArgument) (arity : d.arity = b.arguments.length)
    (h : checkArguments l.definitions path b.definition 0 d.valueSlots b.arguments = []) :
    ∃ e, resolveAt l b 0 = .ok e := by
  obtain ⟨slot, head, value⟩ := (regular _ d found).directing flow behavior looks
  unfold Definition.arity at arity
  unfold resolveAt
  cases slots : d.valueSlots with
  | nil => rw [slots] at head; cases head
  | cons first rest =>
    rw [slots] at head h arity
    cases head
    cases arguments : b.arguments with
    | nil => rw [arguments] at arity; cases arity
    | cons a others =>
      rw [arguments] at h
      exact resolveArgument_of_check regular value (check_cons h).1

/-- A block that directs nothing is an expression. -/
theorem resolveBlock_of_check {b : Block} {d : Definition}
    (found : l.definitions.find? b.definition = some d) (plain : d.behavior.flow? = none)
    (arity : d.arity = b.arguments.length)
    (h : checkArguments l.definitions path b.definition 0 d.valueSlots b.arguments = []) :
    ∃ e, resolveBlock l b = .ok e := by
  have known := regular _ d found
  obtain ⟨es, ok⟩ := resolveFirst_of_check regular (j := 0) (known.slots plain) arity h
  refine resolveWith_ok found known ?_ (by rw [arity]; exact ok)
  rw [Registry.flow?, found]
  exact plain

/-- A block that passes the check does something, given a shape that suits it. -/
theorem resolveOp_of_check {b : Block} {shape : Shape} (h : checkBlock l.definitions path b = [])
    (suits : shape.Suits (l.definitions.flow? b.definition)) :
    ∃ op, resolveOp l b shape = .ok op := by
  obtain ⟨d, found, arity, slots⟩ := defined_of_check h
  unfold resolveOp
  unfold Registry.flow? at suits
  rw [found] at suits ⊢
  simp only [Option.bind_some] at suits ⊢
  cases part : d.behavior.flow? with
  | none =>
    obtain ⟨e, he⟩ := resolveBlock_of_check regular found part arity slots
    exact ⟨.statement e, by rw [he]; rfl⟩
  | some flow =>
    have behavior : d.behavior = .control flow := by
      cases hb : d.behavior with
      | control flow' => rw [hb] at part; cases part; rfl
      | native name => rw [hb] at part; cases part
      | procedure body? => rw [hb] at part; cases part
    have first (looks : flow.looksAtArgument) : ∃ e, resolveAt l b 0 = .ok e :=
      resolveAt_of_check regular found behavior looks arity slots
    have opened (opens : flow.opensBody) : ∃ middle close, shape = .opener flow middle close :=
      Shape.Suits.opener (part ▸ suits) opens
    cases flow with
    | onStart => exact ⟨.marker, rfl⟩
    | defineProcedure => exact ⟨.marker, rfl⟩
    | otherwise => exact ⟨.marker, rfl⟩
    | endBody => exact ⟨.marker, rfl⟩
    | giveBack =>
      obtain ⟨e, he⟩ := first rfl
      exact ⟨.giveBack e, by rw [he]; rfl⟩
    | repeatTimes =>
      obtain ⟨e, he⟩ := first rfl
      obtain ⟨middle, close, rfl⟩ := opened rfl
      exact ⟨.repeatTimes e close, by rw [he]; rfl⟩
    | repeatUntil =>
      obtain ⟨e, he⟩ := first rfl
      obtain ⟨middle, close, rfl⟩ := opened rfl
      exact ⟨.repeatUntil e close, by rw [he]; rfl⟩
    | forever =>
      obtain ⟨middle, close, rfl⟩ := opened rfl
      exact ⟨.forever close, rfl⟩
    | ifThen =>
      obtain ⟨e, he⟩ := first rfl
      obtain ⟨middle, close, rfl⟩ := opened rfl
      exact ⟨.ifThen e middle close, by rw [he]; rfl⟩

omit regular in
theorem resolveOps_of_each {chain : ChainId} {index : Nat} {blocks : List (Block × Shape)}
    (each : ∀ entry ∈ blocks, ∃ op, resolveOp l entry.1 entry.2 = .ok op) :
    ∃ ops, resolveOps l chain index blocks = .ok ops := by
  induction blocks generalizing index with
  | nil => exact ⟨[], rfl⟩
  | cons entry rest ih =>
    obtain ⟨op, hop⟩ := each entry List.mem_cons_self
    obtain ⟨ops, hops⟩ : ∃ ops, resolveOps l chain (index + 1) rest = .ok ops :=
      ih fun e he => each e (List.mem_cons_of_mem _ he)
    obtain ⟨b, shape⟩ := entry
    exact ⟨op :: ops, by simp only [resolveOps, hop, hops, bind, Except.bind, Pure.pure,
      Except.pure]⟩

/-- **A chain without violations has a plan.** -/
theorem ofChain_of_violations {c : Chain} (h : c.violations l.definitions = []) :
    ∃ plan, ofChain l c = .ok plan := by
  obtain ⟨blocks, structured⟩ := List.append_eq_nil_iff.mp (List.map_eq_nil_iff.mp h)
  cases hs : c.shapes l.definitions with
  | error e => simp [checkShapes, hs] at structured
  | ok shapes =>
    obtain ⟨length, -, suits⟩ := shapes_closed hs
    have each : ∀ entry ∈ c.blocks.zip shapes, ∃ op, resolveOp l entry.1 entry.2 = .ok op := by
      rintro ⟨b, shape⟩ mem
      obtain ⟨i, hi⟩ := List.getElem?_of_mem mem
      obtain ⟨hb, hshape⟩ := List.getElem?_zip_eq_some.mp hi
      have checked : checkTopLevel l.definitions i b = [] :=
        List.flatMap_eq_nil_iff.mp blocks (b, i) (List.mk_mem_zipIdx_iff_getElem?.mpr hb)
      obtain ⟨shape', hshape', suit⟩ := suits i (l.definitions.flow? b.definition) (by simp [hb])
      rw [hshape] at hshape'
      cases hshape'
      exact resolveOp_of_check regular (List.append_eq_nil_iff.mp checked).2 suit
    obtain ⟨ops, hops⟩ : ∃ ops, resolveOps l c.id 0 (c.blocks.zip shapes) = .ok ops :=
      resolveOps_of_each each
    refine ⟨⟨c.id, ops.toArray⟩, ?_⟩
    simp only [ofChain, hs, hops, bind, Except.bind, Pure.pure, Except.pure]

end

end Plan

/-! ## The standard definitions -/

/-- Whether a definition directs a run or stands for a standard function, and can be used. -/
def Definition.isStandard (d : Definition) : Bool :=
  match d.behavior with
  | .control flow => !flow.looksAtArgument || d.valueSlots.head?.any Slot.holdsValue
  | .native name => !d.slots.contains .definitionEditor && (Native.standard.get? name).isSome &&
      decide (Native.standardReads name ≤ d.arity)
  | .procedure _ => false

theorem Definition.regular_of_isStandard {d : Definition} {bodies : ChainId → Prop}
    (h : d.isStandard) : d.Regular Native.standard bodies := by
  unfold isStandard at h
  cases behavior : d.behavior with
  | control flow =>
    rw [behavior] at h
    refine ⟨?_, ?_, ?_, ?_⟩
    · rintro flow' same looks
      rw [behavior] at same
      cases same
      cases head : d.valueSlots.head? with
      | none => simp [looks, head] at h
      | some slot =>
        refine ⟨slot, rfl, ?_⟩
        simpa [looks, head] using h
    · intro plain
      rw [behavior] at plain
      cases plain
    · intro name other
      rw [behavior] at other
      cases other
    · intro body? other
      rw [behavior] at other
      cases other
  | native name =>
    rw [behavior] at h
    simp only [Bool.and_eq_true, decide_eq_true_eq, Bool.not_eq_true', List.contains_eq_mem,
      decide_eq_false_iff_not] at h
    obtain ⟨⟨noEditor, known⟩, enough⟩ := h
    obtain ⟨f, hf⟩ := Option.isSome_iff_exists.mp known
    refine ⟨?_, fun _ => noEditor, ?_, ?_⟩
    · intro flow other
      rw [behavior] at other
      cases other
    · rintro name' same
      rw [behavior] at same
      cases same
      exact ⟨f, _, hf, Native.reads_standard hf, enough⟩
    · intro body? other
      rw [behavior] at other
      cases other
  | procedure body? =>
    rw [behavior] at h
    cases h

theorem isStandard_of_builtins : ∀ d ∈ Registry.builtins.items, d.isStandard := by
  decide +kernel

/-- A program without procedures can be run with the standard functions. -/
theorem Program.regular_of_builtins {p : Program} (h : p.definitions = Registry.builtins) :
    p.Regular Native.standard := by
  intro id d found
  rw [h] at found
  exact Definition.regular_of_isStandard (isStandard_of_builtins d (Ordered.mem_of_find? found))

namespace Program

/-- A program that calls a procedure twice. -/
def greeting : Program where
  definitions := Registry.builtins.insert (.procedure "greet" [])
  globals := .empty
  chains :=
    [⟨0, Chain.origin, [⟨"on_start", []⟩, ⟨"repeat", [.literal (.text "2")]⟩, ⟨"greet", []⟩,
        ⟨"end", []⟩]⟩,
      ⟨1, Chain.origin, [⟨"define", [.definition (.procedure "greet" [])]⟩,
        ⟨"print", [.block "join" [.literal (.text "hello "), .literal (.text "there")]]⟩]⟩]

theorem regular_greeting : greeting.Regular Native.standard := by
  intro id d found
  rcases Ordered.mem_insert (Ordered.mem_of_find? found) with rfl | builtin
  · refine ⟨nofun, fun _ => by decide, nofun, fun body? same => ?_⟩
    cases same
    exact ⟨1, rfl, _, List.mem_cons_of_mem _ List.mem_cons_self, rfl⟩
  · exact Definition.regular_of_isStandard (isStandard_of_builtins d builtin)

end Program

/-! ## Runs -/

namespace Program

open Machine

variable {p : Program} {natives : NativeTable}

theorem Has.chain? {id : ChainId} (h : p.Has id) : ∃ c ∈ p.chains, p.chain? id = some c := by
  obtain ⟨c, mem, rfl⟩ := h
  cases found : p.chain? c.id with
  | none => exact absurd (List.find?_eq_none.mp found c mem) (by simp)
  | some first => exact ⟨first, List.mem_of_find?_eq_some found, rfl⟩

/-- Whatever else may go wrong in a run, it is not for what the program lacks. -/
theorem covers_structural :
    Covers (fun f count => ∃ n ≤ count, f.Reads n) fun e => e.isStructural = false := by
  refine ⟨fun f s s' arguments e is fails => ?_, fun _ _ => rfl, fun _ => rfl, fun _ => rfl,
    fun _ => rfl⟩
  obtain ⟨n, enough, reads⟩ := is
  exact reads.not_structural enough fails

/-- A run of a program whose chains have plans calls only chains of the program, and native
functions that find the arguments that they read. -/
theorem Regular.all_start (regular : p.Regular natives)
    (plans : ∀ c ∈ p.chains, ∃ plan, Plan.ofChain ⟨p.definitions, natives⟩ c = .ok plan)
    (limit : Nat) (output : Output) {chain : ChainId} (has : p.Has chain) :
    ((ofProgram p natives limit output).start chain).All
      (fun f count => ∃ n ≤ count, f.Reads n) p.Has fun e => e.isStructural = false := by
  refine Machine.all_start ?_ ?_ ?_ has
  · rintro f count ⟨id, d, name, found, behavior, hf, rfl⟩
    obtain ⟨f', n, hf', reads, enough⟩ := (regular id d found).native name behavior
    rw [show natives.get? name = some f from hf] at hf'
    cases hf'
    exact ⟨n, enough, reads⟩
  · rintro id ⟨definition, d, found, behavior⟩
    obtain ⟨body, same, has⟩ := (regular definition d found).procedure _ behavior
    cases same
    exact has
  · intro id e has fails
    obtain ⟨c, mem, first⟩ := has.chain?
    obtain ⟨plan, ok⟩ := plans c mem
    have known := plan_of_plans (m := ofProgram p natives limit output) rfl id
    rw [first] at known
    simp only [planError?, known, ok] at fails
    cases fails

/-- **The integrity of a program is enough to run it.** If nothing is wrong with a program whose
definitions can be used, then all of its chains have plans, and no run of any of them fails for
what the program lacks, however deep calls may be nested and whenever it is asked to stop. -/
theorem runs_of_violations (regular : p.Regular natives) (sound : p.violations = []) :
    (∀ c ∈ p.chains, ∃ plan, Plan.ofChain ⟨p.definitions, natives⟩ c = .ok plan) ∧
      ∀ (limit : Nat) (output : Output) (chain : ChainId), p.Has chain → ∀ (m : Machine),
        Reaches ((ofProgram p natives limit output).start chain) m → ∀ (failure : Failure),
          m.outcome? = some (.failed failure) → failure.error.isStructural = false := by
  have plans : ∀ c ∈ p.chains, ∃ plan, Plan.ofChain ⟨p.definitions, natives⟩ c = .ok plan :=
    fun c mem => Plan.ofChain_of_violations (l := ⟨p.definitions, natives⟩) regular
      (List.flatMap_eq_nil_iff.mp sound c mem)
  refine ⟨plans, fun limit output chain has m reaches failure ended => ?_⟩
  have start := regular.all_start plans limit output has
  have all := start.reaches covers_structural reaches
  cases activity : m.activity with
  | ended outcome =>
    have is := all.activity
    rw [activity] at is
    simp only [outcome?, activity, Option.some.injEq] at ended
    rw [ended] at is
    exact is
  | _ => simp [outcome?, activity] at ended

/-- A run of a program that calls a procedure. -/
theorem runs_of_violations_greeting :
    greeting.violations = [] ∧ greeting.Has 0 ∧
      ∀ m, Reaches ((ofProgram greeting Native.standard 64 .unlimited).start 0) m →
        ∀ failure, m.outcome? = some (.failed failure) → failure.error.isStructural = false := by
  have sound : greeting.violations = [] := by decide +kernel
  have has : greeting.Has 0 := ⟨_, List.mem_cons_self, rfl⟩
  exact ⟨sound, has, fun m reaches =>
    (runs_of_violations regular_greeting sound).2 64 .unlimited 0 has m reaches⟩

end Program

end Blockwork
