import Blockwork.Proofs.Defects
import Blockwork.Proofs.Gathering
import Blockwork.Proofs.CallDepth

/-!
# The parameters of a procedure

The names of the parameters and the arguments of a call come from different places: the names from
the slots of the definition that have one, the arguments from the block. In a chain that passes the
check and has a plan they belong together, for the slots without a name are those that a procedure
called there cannot have. So each parameter has the value of the argument in its own slot.

## Main statements

* `Plan.rendered_of_ofChain`: every expression of a plan stands for a literal or for a block.
* `Chain.calls_of_violations`: how a call of a plan fits the definition of the procedure.
* `Program.parameters_bound`: what the parameters of a procedure are bound to when it is called.
-/

namespace Blockwork

/-! ## Blocks and their expressions -/

namespace Plan

variable {l : Library}

/-- The first arguments of a block are looked up one by one. -/
theorem resolveFirst_ok {arguments : List Argument} {count index : Nat} {es : List Expr}
    (h : resolveFirst l count index arguments = .ok es) :
    es.length = count ∧ ∀ (k : Nat) (e : Expr), es[k]? = some e →
      ∃ a, arguments[k]? = some a ∧ resolveArgument l a = .ok e := by
  induction arguments generalizing count index es with
  | nil =>
    rw [resolveFirst] at h
    split at h
    · next none =>
      cases h
      exact ⟨none.symm, nofun⟩
    · cases h
  | cons a rest ih =>
    rw [resolveFirst] at h
    split at h
    · next none =>
      cases h
      exact ⟨none.symm, nofun⟩
    · obtain ⟨first, made, h⟩ := ok_of_bind h
      obtain ⟨later, others, h⟩ := ok_of_bind h
      cases h
      obtain ⟨length, each⟩ := ih others
      refine ⟨by simp only [List.length_cons]; omega, fun k e is => ?_⟩
      cases k with
      | zero =>
        cases is
        exact ⟨a, rfl, made⟩
      | succ k => exact each k e is

/-- A block that is an expression calls what its definition stands for, with its first arguments. -/
theorem resolveBlock_ok {b : Block} {e : Expr} (h : resolveBlock l b = .ok e) :
    ∃ (d : Definition) (es : List Expr) (callee : Callee),
      l.definitions.find? b.definition = some d ∧
      resolveFirst l d.arity 0 b.arguments = .ok es ∧ e = callee.applied es ∧
      ∀ definition body parameters, callee = .procedure definition body parameters →
        definition = b.definition ∧ d.behavior = .procedure (some body) ∧
          parameters = d.parameterNames := by
  unfold resolveBlock resolveWith at h
  cases found : l.definitions.find? b.definition with
  | none =>
    rw [found] at h
    cases h
  | some d =>
    rw [found] at h
    obtain ⟨es, made, h⟩ := ok_of_bind h
    cases behavior : d.behavior with
    | control flow =>
      rw [behavior] at h
      cases h
    | native name =>
      rw [behavior] at h
      cases known : l.natives.get? name with
      | none => simp [known] at h
      | some function =>
        simp only [known] at h
        cases h
        exact ⟨d, es, .native b.definition function, rfl, made, rfl, nofun⟩
    | procedure body? =>
      rw [behavior] at h
      cases body? with
      | none => cases h
      | some body =>
        cases h
        refine ⟨d, es, .procedure b.definition body d.parameterNames, rfl, made, rfl, ?_⟩
        rintro _ _ _ ⟨⟩
        exact ⟨rfl, behavior, rfl⟩

/-- The expression of a block is the block itself, or its first argument. -/
theorem resolveOp_expr {b : Block} {shape : Shape} {op : Op} {e : Expr}
    (h : resolveOp l b shape = .ok op) (expr : op.expr? = some e) :
    resolveBlock l b = .ok e ∨ resolveAt l b 0 = .ok e := by
  have first {f : Expr → Op} (own : ∀ x, (f x).expr? = some x)
      (h : (resolveAt l b 0).map f = .ok op) : resolveAt l b 0 = .ok e := by
    obtain ⟨e', made, rfl⟩ := ok_of_map h
    rw [own, Option.some.injEq] at expr
    rwa [← expr]
  have nothing (h : (.ok .marker : Except RunError Op) = .ok op) : resolveBlock l b = .ok e := by
    cases h
    cases expr
  unfold resolveOp at h
  split at h
  · cases h
  · split at h
    · obtain ⟨e', made, rfl⟩ := ok_of_map h
      cases expr
      exact .inl made
    · exact .inl (nothing h)
    · exact .inl (nothing h)
    · exact .inl (nothing h)
    · exact .inl (nothing h)
    · exact .inr (first (fun _ => rfl) h)
    · exact .inr (first (fun _ => rfl) h)
    · exact .inr (first (fun _ => rfl) h)
    · cases h
      cases expr
    · exact .inr (first (fun _ => rfl) h)
    · cases h

end Plan

/-- An expression stands for a literal, or for a block that stands in a block of the chain. -/
inductive Chain.Renders (c : Chain) (l : Plan.Library) (index : Nat) : Expr → Prop where
  | literal {value : Value} : Renders c l index (.literal value)
  | block {path : BlockPath} {b : Block} {e : Expr} (stands : c.at? path = some b)
      (within : path.index = index) (made : Plan.resolveBlock l b = .ok e) : Renders c l index e

namespace Chain

variable {c : Chain} {l : Plan.Library} {path : BlockPath} {b inner : Block} {index : Nat}

theorem at?_child (stands : c.at? path = some b) {slot : Nat} (holds : b.child? slot = some inner) :
    c.at? (path.child slot) = some inner := by
  have descends (slots : List Nat) (top : Block) (down : top.descend slots = some b) :
      top.descend (slots ++ [slot]) = some inner := by
    induction slots generalizing top with
    | nil =>
      cases down
      rw [List.nil_append, Block.descend, holds]
      rfl
    | cons first rest ih =>
      obtain ⟨next, into, down⟩ := Option.bind_eq_some_iff.mp down
      rw [List.cons_append, Block.descend, into, Option.bind_some]
      exact ih next down
  obtain ⟨top, first, down⟩ := Option.bind_eq_some_iff.mp stands
  exact Option.bind_eq_some_iff.mpr ⟨top, first, descends path.slots top down⟩

/-- An argument stands for a literal, or for the block that it is. -/
theorem Renders.of_argument (stands : c.at? path = some b) {slot : Nat} {a : Argument} {e : Expr}
    (holds : b.arguments[slot]? = some a) (made : Plan.resolveArgument l a = .ok e) :
    c.Renders l path.index e := by
  cases a with
  | literal value =>
    cases made
    exact .literal
  | choice name =>
    cases made
    exact .literal
  | definition d => cases made
  | block definition arguments =>
    have child : b.child? slot = some ⟨definition, arguments⟩ := Block.child?_eq_some.mpr holds
    rw [Plan.resolveArgument] at made
    exact .block (at?_child stands child) rfl made

/-- So do the parts of an expression. -/
theorem Renders.contains {e x : Expr} (part : e.Contains x) (h : c.Renders l index e) :
    c.Renders l index x := by
  induction part with
  | self => exact h
  | @argument callee arguments a call among ih =>
    generalize whole : callee.applied arguments = y at ih
    cases ih with
    | literal => cases callee <;> cases whole
    | @block path b _ stands within made =>
      obtain ⟨d, es, callee', -, first, rfl, -⟩ := Plan.resolveBlock_ok made
      have same : arguments = es := by
        cases callee <;> cases callee' <;> cases whole <;> rfl
      subst same
      obtain ⟨k, is⟩ := List.getElem?_of_mem among
      obtain ⟨a', holds, made⟩ := (Plan.resolveFirst_ok first).2 k a is
      exact within ▸ .of_argument stands holds made

end Chain

/-- **Every expression of a plan stands for a literal, or for a block of the chain.** -/
theorem Plan.rendered_of_ofChain {l : Library} {c : Chain} {plan : Plan}
    (h : ofChain l c = .ok plan) {i : Nat} {op : Op} {e x : Expr} (block : plan.ops[i]? = some op)
    (expr : op.expr? = some e) (part : e.Contains x) : c.Renders l i x := by
  obtain ⟨shapes, ops, -, resolved, rfl⟩ := ofChain_ok h
  obtain ⟨length, each⟩ := resolveOps_ok resolved
  have block : ops[i]? = some op := by simpa using block
  have lt : i < (c.blocks.zip shapes).length := length ▸ (List.getElem?_eq_some_iff.mp block).1
  obtain ⟨op', block', made⟩ := each i _ _ (List.getElem?_eq_getElem lt)
  obtain rfl : op' = op := Option.some.inj (block'.symm.trans block)
  obtain ⟨first, -⟩ := List.getElem?_zip_eq_some.mp (List.getElem?_eq_getElem lt)
  have stands : c.at? (.topLevel i) = some (c.blocks.zip shapes)[i].1 := by
    rw [Chain.at?, BlockPath.topLevel, first]
    rfl
  refine Chain.Renders.contains part ?_
  rcases resolveOp_expr made expr with whole | argument
  · exact .block stands rfl whole
  · unfold resolveAt at argument
    split at argument
    · next a holds => exact .of_argument stands holds argument
    · cases argument

/-! ## The slots of a procedure -/

/-- The slots of a block that is an expression have names. -/
theorem Block.WellFormed.named {l : Plan.Library} {b : Block} {d : Definition} {es : List Expr}
    (h : b.WellFormed l.definitions) (found : l.definitions.find? b.definition = some d)
    (made : Plan.resolveFirst l d.arity 0 b.arguments = .ok es) {slot : Slot}
    (among : slot ∈ d.valueSlots) : ∃ name, slot.name? = some name := by
  obtain ⟨d', found', arity, fits⟩ := h
  obtain rfl : d' = d := Option.some.inj (found'.symm.trans found)
  obtain ⟨k, wants⟩ := List.getElem?_of_mem among
  obtain ⟨length, each⟩ := Plan.resolveFirst_ok made
  have lt : k < es.length := by
    rw [length]
    exact (List.getElem?_eq_some_iff.mp wants).1
  obtain ⟨a, holds, made⟩ := each k _ (List.getElem?_eq_getElem lt)
  have takes : slot.Takes a.kind := (fits k slot a wants holds).1
  cases slot with
  | argument name => exact ⟨name, rfl⟩
  | dropdown name choices => exact ⟨name, rfl⟩
  | definitionEditor =>
    -- there can only be a definition, which is no expression
    cases a with
    | definition content => cases made
    | literal value => cases takes
    | choice name => cases takes
    | block definition arguments => cases takes
  | text label => exact takes.elim
  | image asset => exact takes.elim

/-- The parameters of a procedure are the names of its slots if each slot has one. -/
theorem Definition.map_parameterNames {d : Definition}
    (named : ∀ slot ∈ d.valueSlots, ∃ name, slot.name? = some name) :
    d.parameterNames.map some = d.valueSlots.map Slot.name? := by
  unfold parameterNames
  generalize d.valueSlots = slots at named
  induction slots with
  | nil => rfl
  | cons slot rest ih =>
    obtain ⟨name, is⟩ := named slot List.mem_cons_self
    rw [List.filterMap_cons_some is, List.map_cons, List.map_cons, is,
      ih fun s among => named s (List.mem_cons_of_mem _ among)]

/-- A parameter stands where its slot does. -/
theorem Definition.getElem?_parameterNames {d : Definition}
    (named : ∀ slot ∈ d.valueSlots, ∃ name, slot.name? = some name) {k : Nat} {name : String} :
    d.parameterNames[k]? = some name ↔
      ∃ slot, d.valueSlots[k]? = some slot ∧ slot.name? = some name := by
  have same := congrArg (fun names : List (Option String) => names[k]?) (map_parameterNames named)
  simp only [List.getElem?_map] at same
  constructor
  · intro is
    rw [is] at same
    exact Option.map_eq_some_iff.mp same.symm
  · rintro ⟨slot, wants, is⟩
    rw [wants, Option.map_some, is] at same
    simpa using same

/-! ## The scope of a call -/

/-- A parameter is bound to the argument in its place; of several parameters of one name it is the
last one. -/
theorem Scope.get?_ofParameters {parameters : List String} {arguments : List Value} {name : String}
    {value : Value} (length : arguments.length = parameters.length) :
    Table.get? (Scope.ofParameters parameters arguments) name = some value ↔
      ∃ k : Nat, parameters[k]? = some name ∧ arguments[k]? = some value ∧
        ∀ j, k < j → parameters[j]? ≠ some name := by
  rw [Scope.ofParameters, Table.get?_ofList]
  refine exists_congr fun k => ?_
  rw [List.getElem?_zip_eq_some, and_assoc]
  refine and_congr_right fun _ => and_congr_right fun _ => ?_
  constructor
  · intro last j after is
    have lt : j < arguments.length := length ▸ (List.getElem?_eq_some_iff.mp is).1
    refine last j (name, arguments[j]) after ?_ rfl
    exact List.getElem?_zip_eq_some.mpr ⟨is, List.getElem?_eq_getElem lt⟩
  · rintro last j ⟨other, value'⟩ after is rfl
    exact last j after (List.getElem?_zip_eq_some.mp is).1

/-- A scope binds each name of a slot to the value in the last slot of that name, and nothing
else. -/
def Definition.Binds (d : Definition) (values : List Value) (scope : Scope) : Prop :=
  ∀ name value, Table.get? scope name = some value ↔
    ∃ (k : Nat) (slot : Slot), d.valueSlots[k]? = some slot ∧ slot.name? = some name ∧
      values[k]? = some value ∧
      ∀ (j : Nat) (later : Slot), k < j → d.valueSlots[j]? = some later → later.name? ≠ some name

theorem Definition.binds_ofParameters {d : Definition}
    (named : ∀ slot ∈ d.valueSlots, ∃ name, slot.name? = some name) {values : List Value}
    (length : values.length = d.parameterNames.length) :
    d.Binds values (.ofParameters d.parameterNames values) := by
  intro name value
  rw [Scope.get?_ofParameters length]
  refine exists_congr fun k => ?_
  rw [getElem?_parameterNames named]
  constructor
  · rintro ⟨⟨slot, wants, is⟩, given, last⟩
    refine ⟨slot, wants, is, given, fun j later after wants is => ?_⟩
    exact last j after ((getElem?_parameterNames named).mpr ⟨later, wants, is⟩)
  · rintro ⟨slot, wants, is, given, last⟩
    refine ⟨⟨slot, wants, is⟩, given, fun j after is => ?_⟩
    obtain ⟨later, wants, is⟩ := (getElem?_parameterNames named).mp is
    exact last j later after wants is

/-! ## Calls of a plan -/

/-- A call fits the definition of the procedure. It is the expression of a block at the index of the
chain, each of its arguments that of an argument of the block. -/
structure Chain.Calls (c : Chain) (l : Plan.Library) (index : Nat) (definition : String)
    (body : ChainId) (parameters : List String) (arguments : List Expr) (d : Definition) :
    Prop where
  found : l.definitions.find? definition = some d
  behavior : d.behavior = .procedure (some body)
  /-- There is an argument for each value slot. -/
  given : arguments.length = d.valueSlots.length
  /-- There is a parameter for each argument. -/
  named : parameters.length = arguments.length
  block : ∃ path b, c.at? path = some b ∧ path.index = index ∧ b.definition = definition ∧
    b.arguments.length = arguments.length ∧
    ∀ (k : Nat) (e : Expr), arguments[k]? = some e →
      ∃ a, b.arguments[k]? = some a ∧ Plan.resolveArgument l a = .ok e
  /-- The parameters of a scope have the values of the arguments in their slots. -/
  binds : ∀ values : List Value, values.length = arguments.length →
    d.Binds values (.ofParameters parameters values)

/-- **A call of a plan fits the definition of the procedure** if the chain passes the check. -/
theorem Chain.calls_of_violations {c : Chain} {l : Plan.Library} {plan : Plan}
    (sound : c.violations l.definitions = []) (made : Plan.ofChain l c = .ok plan) {i : Nat}
    {op : Op} {e : Expr} (block : plan.ops[i]? = some op) (expr : op.expr? = some e)
    {definition : String} {body : ChainId} {parameters : List String} {arguments : List Expr}
    (part : e.Contains (.call definition body parameters arguments)) :
    ∃ d, c.Calls l i definition body parameters arguments d := by
  have renders := Plan.rendered_of_ofChain made block expr part
  generalize call : Expr.call definition body parameters arguments = x at renders
  cases renders with
  | literal => cases call
  | @block path b _ stands within made =>
    obtain ⟨d, es, callee, found, first, rfl, procedure⟩ := Plan.resolveBlock_ok made
    have wellFormed := (violations_eq_nil_iff.mp sound).wellFormed path b stands
    have named (slot : Slot) (among : slot ∈ d.valueSlots) := wellFormed.named found first among
    obtain ⟨length, each⟩ := Plan.resolveFirst_ok first
    obtain ⟨d', found', arity, -⟩ := wellFormed
    obtain rfl : d' = d := Option.some.inj (found'.symm.trans found)
    cases callee with
    | native name function => cases call
    | procedure name body' parameters' =>
      cases call
      obtain ⟨rfl, behavior, rfl⟩ := procedure _ _ _ rfl
      have names : d'.parameterNames.length = d'.valueSlots.length := by
        simpa using congrArg List.length (Definition.map_parameterNames named)
      have given : arguments.length = d'.valueSlots.length := length
      refine ⟨d', found, behavior, given, names.trans given.symm, ?_, fun values all => ?_⟩
      · exact ⟨path, b, stands, within, rfl, arity.symm.trans length.symm, each⟩
      · exact Definition.binds_ofParameters named (all.trans (given.trans names.symm))

/-! ## Calls of a run -/

namespace Machine

variable {m m₀ n : Machine}

/-- A procedure that is entered has its arguments in a scope of its own. -/
theorem env_enterProcedure {definition : String} {body : ChainId} {parameters : List String}
    {arguments : List Value} {wanted : Option Evaluation}
    (on : (m.enterProcedure definition body parameters arguments wanted).isOver = false) :
    (m.enterProcedure definition body parameters arguments wanted).env =
      m.env.push (.ofParameters parameters arguments) := by
  unfold enterProcedure at on ⊢
  split at on
  · cases on
  · next room =>
    rw [if_neg room]
    split at on
    · cases on
    · rfl

theorem start_fresh (suspended : m.suspended = []) (chain : ChainId) :
    (m.start chain).activity.around? = none ∧ (m.start chain).suspended = [] := by
  unfold start
  split
  · exact ⟨rfl, rfl⟩
  · exact ⟨rfl, suspended⟩

end Machine

namespace Program

/-- **What the parameters of a procedure are bound to.** In a chain that passes the check and has a
plan, each call of a procedure, whether for its value or not and however deep among the arguments of
others, has one argument for each value slot of the definition and one parameter for each argument.
When a run makes a call, its arguments have been evaluated one after the other; unless the run ends
for it, a scope is entered that binds each name of a slot to the value of the argument in the last
slot of that name, and nothing else. -/
theorem parameters_bound (p : Program) (natives : NativeTable) :
    (∀ (c : Chain) (plan : Plan), c.violations p.definitions = [] →
      Plan.ofChain ⟨p.definitions, natives⟩ c = .ok plan →
      ∀ (i : Nat) (op : Op) (e : Expr) (definition : String) (body : ChainId)
        (parameters : List String) (arguments : List Expr),
        plan.ops[i]? = some op → op.expr? = some e →
        e.Contains (.call definition body parameters arguments) →
        ∃ d, c.Calls ⟨p.definitions, natives⟩ i definition body parameters arguments d) ∧
    ∀ (m₀ n : Machine) (chain : ChainId) (definition : String) (body : ChainId)
      (parameters : List String) (values : List Value) (around : Evaluation),
      m₀.HoldsNothing → m₀.plans = p.plans natives → Machine.Reaches (m₀.start chain) n →
      n.activity = .calling (.procedure definition body parameters) values around →
      ∃ m arguments f rest op e,
        (Machine.Reaches (m₀.start chain) m ∧
          m.Gathers (.procedure definition body parameters) arguments around values n ∧
          values.length = arguments.length) ∧
        (m.frames = f :: rest ∧ p.resolve natives f.plan.chain = some (.ok f.plan) ∧
          f.plan.ops[f.current]? = some op ∧ op.expr? = some e ∧
          e.Contains (.call definition body parameters arguments)) ∧
        ∀ c, p.chain? f.plan.chain = some c → c.violations p.definitions = [] →
          ∃ d, c.Calls ⟨p.definitions, natives⟩ f.current definition body parameters arguments d ∧
            (n.move.isOver = false →
              ∃ scope, n.move.env = n.env.push scope ∧ d.Binds values scope) := by
  refine ⟨?_, ?_⟩
  · intro c plan sound made i op e definition body parameters arguments block expr part
    exact Chain.calls_of_violations (l := ⟨p.definitions, natives⟩) sound made block expr part
  · intro m₀ n chain definition body parameters values around holds plans reaches calls
    obtain ⟨rests, fresh⟩ := Machine.start_fresh holds.suspended chain
    obtain ⟨m, arguments, reached, gathers, all⟩ :=
      Machine.gathers_of_reaches rests fresh reaches calls
    -- the call is a part of the block that is being run
    obtain ⟨rooted, works⟩ := Machine.traced_of_reaches holds plans reached
    rw [gathers.evaluates] at works
    obtain ⟨f, rest, e, frames, expr, part, -⟩ := works rfl
    obtain ⟨op, block, expr⟩ := Option.bind_eq_some_iff.mp expr
    have made := rooted.plans f (frames ▸ List.mem_cons_self)
    refine ⟨m, arguments, f, rest, op, e, ⟨reached, gathers, all⟩,
      ⟨frames, made, block, expr, part⟩, fun c first sound => ?_⟩
    rw [resolve, first, Option.map_some, Option.some.injEq] at made
    obtain ⟨d, fits⟩ := Chain.calls_of_violations (l := ⟨p.definitions, natives⟩) sound made block
      expr part
    refine ⟨d, fits, fun on => ⟨_, ?_, fits.binds values all⟩⟩
    rw [Machine.move_calling calls, Machine.call_procedure] at on ⊢
    exact Machine.env_enterProcedure on

/-- A procedure whose first slot and last slot have one name. -/
def mix : Definition :=
  ⟨"mix", "procedures", .gray, [.text "mix", .argument "part", .dropdown "mode" ["fast", "slow"],
    .argument "part"], .procedure (some 1)⟩

/-- A program that calls it once. -/
def mixing : Program where
  definitions := .ofList (mix :: Builtins.directing)
  globals := .empty
  chains :=
    [⟨0, Chain.origin, [⟨"on_start", []⟩,
        ⟨"mix", [.literal (.text "one"), .choice "slow", .literal (.text "two")]⟩]⟩,
      ⟨1, Chain.origin, [⟨"define", [.definition mix]⟩]⟩]

set_option maxRecDepth 20000 in
/-- The call is in the plan, and the run makes it at its tenth move. -/
theorem parameters_bound_mixing :
    (∃ c ∈ mixing.chains, c.violations mixing.definitions = [] ∧ ∃ plan op parameters arguments d,
      Plan.ofChain ⟨mixing.definitions, Native.standard⟩ c = .ok plan ∧ plan.ops[1]? = some op ∧
      op.expr? = some (.call "mix" 1 parameters arguments) ∧
      c.Calls ⟨mixing.definitions, Native.standard⟩ 1 "mix" 1 parameters arguments d) ∧
    ∃ n parameters around d scope,
      Machine.Reaches ((Machine.ofProgram mixing Native.standard 64 .unlimited).start 0) n ∧
      n.activity = .calling (.procedure "mix" 1 parameters)
        [.text "one", .text "slow", .text "two"] around ∧
      n.move.isOver = false ∧ mixing.definitions.find? "mix" = some d ∧
      n.move.env = n.env.push scope ∧
      d.Binds [.text "one", .text "slow", .text "two"] scope := by
  have sound : ∀ c ∈ mixing.chains, c.violations mixing.definitions = [] := by decide +kernel
  constructor
  · obtain ⟨plan, op, parameters, arguments, made, block, expr⟩ :
        ∃ plan op parameters arguments,
          Plan.ofChain ⟨mixing.definitions, Native.standard⟩ mixing.chains[0] = .ok plan ∧
          plan.ops[1]? = some op ∧ op.expr? = some (.call "mix" 1 parameters arguments) :=
      ⟨_, _, _, _, rfl, rfl, rfl⟩
    have first : mixing.chains[0] ∈ mixing.chains := List.mem_cons_self
    obtain ⟨d, fits⟩ := (parameters_bound mixing Native.standard).1 _ plan (sound _ first) made 1
      op _ "mix" 1 parameters arguments block expr .self
    exact ⟨_, first, sound _ first, plan, op, parameters, arguments, d, made, block, expr, fits⟩
  · have holds : (Machine.ofProgram mixing Native.standard 64 .unlimited).HoldsNothing :=
      ⟨rfl, rfl, rfl, rfl, rfl⟩
    obtain ⟨n, reaches, parameters, around, calls, on⟩ : ∃ n,
        Machine.Reaches ((Machine.ofProgram mixing Native.standard 64 .unlimited).start 0) n ∧
        ∃ parameters around, n.activity = .calling (.procedure "mix" 1 parameters)
          [.text "one", .text "slow", .text "two"] around ∧ n.move.isOver = false :=
      ⟨_, Machine.reaches_iterate _ 9, _, _, rfl, rfl⟩
    obtain ⟨m, arguments, f, rest, op, e, -, ⟨-, made, -⟩, binds⟩ :=
      (parameters_bound mixing Native.standard).2 _ n 0 "mix" 1 parameters _ around holds rfl
        reaches calls
    obtain ⟨c, first, -⟩ := Option.map_eq_some_iff.mp made
    obtain ⟨d, fits, entered⟩ := binds c first (sound c (List.mem_of_find?_eq_some first))
    obtain ⟨scope, env, is⟩ := entered on
    exact ⟨n, parameters, around, d, scope, reaches, calls, on, fits.found, env, is⟩

end Program

end Blockwork
