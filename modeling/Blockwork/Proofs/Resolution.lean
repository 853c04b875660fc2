import Blockwork.Plan
import Blockwork.Proofs.Bodies

/-!
# What plans are made of

A plan is made by looking up blocks one by one. What is found is told here once for all users: what
a block does fits the shape that the block has, and every call in an expression is of a native
function or of a procedure that was looked up, with as many arguments as its definition asks for.

## Main statements

* `Plan.bracketed_of_ofChain`: what the blocks of a plan do fits the bodies of the chain.
* `Plan.all_of_ofChain`: what the expressions of a plan call was looked up.
-/

namespace Blockwork

/-! ## Plans and shapes -/

/-- A block of the given shape does the given thing. -/
inductive Op.Fits : Op → Shape → Prop where
  | hat : Op.Fits .marker .plain
  | otherwise {opener close : Nat} : Op.Fits .marker (.otherwise opener close)
  | close {opener : Nat} : Op.Fits .marker (.close opener)
  | statement {e : Expr} : Op.Fits (.statement e) .plain
  | giveBack {e : Expr} : Op.Fits (.giveBack e) .plain
  | repeatTimes {times : Expr} {close : Nat} :
      Op.Fits (.repeatTimes times close) (.opener .repeatTimes none close)
  | repeatUntil {condition : Expr} {close : Nat} :
      Op.Fits (.repeatUntil condition close) (.opener .repeatUntil none close)
  | forever {close : Nat} : Op.Fits (.forever close) (.opener .forever none close)
  | ifThen {condition : Expr} {middle : Option Nat} {close : Nat} :
      Op.Fits (.ifThen condition middle close) (.opener .ifThen middle close)

/-- What the blocks of a plan do fits their shapes, and their bodies are closed. -/
structure Plan.Bracketed (plan : Plan) (shapes : List Shape) : Prop where
  length : shapes.length = plan.ops.size
  closed : Closed shapes 0 shapes.length
  fits : ∀ (i : Nat) (shape : Shape), shapes[i]? = some shape →
    ∃ op, plan.ops[i]? = some op ∧ op.Fits shape

/-! ## What succeeds -/

theorem ok_of_bind {ε α β : Type} {x : Except ε α} {f : α → Except ε β} {b : β}
    (h : x >>= f = .ok b) : ∃ a, x = .ok a ∧ f a = .ok b := by
  cases x with
  | error _ => cases h
  | ok a => exact ⟨a, rfl, h⟩

theorem ok_of_map {ε α β : Type} {x : Except ε α} {f : α → β} {b : β} (h : x.map f = .ok b) :
    ∃ a, x = .ok a ∧ f a = b := by
  cases x with
  | error _ => cases h
  | ok a => exact ⟨a, rfl, Except.ok.inj h⟩

namespace Plan

variable {l : Library}

theorem resolveOp_fits_plain {b : Block} {d : Definition} {op : Op}
    (h : resolveOp l b .plain = .ok op) (hd : l.definitions.find? b.definition = some d)
    (suits : Shape.plain.Suits d.behavior.flow?) : op.Fits .plain := by
  unfold resolveOp at h
  simp only [hd] at h
  cases hflow : d.behavior.flow? with
  | none =>
    rw [hflow] at h
    obtain ⟨e, -, rfl⟩ := ok_of_map h
    exact .statement
  | some flow =>
    rw [hflow] at h suits
    cases flow with
    | onStart => cases h; exact .hat
    | defineProcedure => cases h; exact .hat
    | giveBack =>
      obtain ⟨e, -, rfl⟩ := ok_of_map h
      exact .giveBack
    | repeatTimes => cases h
    | repeatUntil => cases h
    | forever => cases h
    | ifThen => cases h
    | otherwise => simp [Shape.Suits, Flow.isPlain] at suits
    | endBody => simp [Shape.Suits, Flow.isPlain] at suits

theorem resolveOp_fits_opener {b : Block} {d : Definition} {op : Op} {flow : Flow}
    {middle : Option Nat} {close : Nat} (h : resolveOp l b (.opener flow middle close) = .ok op)
    (hd : l.definitions.find? b.definition = some d)
    (suits : (Shape.opener flow middle close).Suits d.behavior.flow?) :
    op.Fits (.opener flow middle close) := by
  obtain ⟨hflow, opens, split⟩ := suits
  -- only the body of an `if` may be split
  have unsplit (other : flow ≠ .ifThen) : middle = none :=
    Classical.byContradiction fun h => other (split h)
  unfold resolveOp at h
  simp only [hd, hflow] at h
  cases flow with
  | repeatTimes =>
    obtain ⟨e, -, rfl⟩ := ok_of_map h
    rw [unsplit (by decide)]
    exact .repeatTimes
  | repeatUntil =>
    obtain ⟨e, -, rfl⟩ := ok_of_map h
    rw [unsplit (by decide)]
    exact .repeatUntil
  | forever =>
    cases h
    rw [unsplit (by decide)]
    exact .forever
  | ifThen =>
    obtain ⟨e, -, rfl⟩ := ok_of_map h
    exact .ifThen
  | onStart => cases opens
  | defineProcedure => cases opens
  | otherwise => cases opens
  | endBody => cases opens
  | giveBack => cases opens

/-- A block does what its place among the bodies says. -/
theorem resolveOp_fits {b : Block} {shape : Shape} {op : Op} (h : resolveOp l b shape = .ok op)
    (suits : shape.Suits (l.definitions.flow? b.definition)) : op.Fits shape := by
  cases hd : l.definitions.find? b.definition with
  | none =>
    unfold resolveOp at h
    rw [hd] at h
    cases h
  | some d =>
    have flow : l.definitions.flow? b.definition = d.behavior.flow? := by
      rw [Registry.flow?, hd, Option.bind_some]
    rw [flow] at suits
    cases shape with
    | plain => exact resolveOp_fits_plain h hd suits
    | opener flow middle close => exact resolveOp_fits_opener h hd suits
    | otherwise opener close =>
      unfold resolveOp at h
      simp only [hd, show d.behavior.flow? = some .otherwise from suits] at h
      cases h
      exact .otherwise
    | close opener =>
      unfold resolveOp at h
      simp only [hd, show d.behavior.flow? = some .endBody from suits] at h
      cases h
      exact .close

/-- Blocks are looked up one by one. -/
theorem resolveOps_ok {chain : ChainId} {index : Nat} {blocks : List (Block × Shape)}
    {ops : List Op} (h : resolveOps l chain index blocks = .ok ops) :
    ops.length = blocks.length ∧ ∀ (k : Nat) (b : Block) (shape : Shape),
      blocks[k]? = some (b, shape) → ∃ op, ops[k]? = some op ∧ resolveOp l b shape = .ok op := by
  induction blocks generalizing index ops with
  | nil =>
    cases h
    exact ⟨rfl, fun k b shape hk => by cases hk⟩
  | cons entry rest ih =>
    obtain ⟨b, shape⟩ := entry
    unfold resolveOps at h
    cases hop : resolveOp l b shape with
    | error e => rw [hop] at h; cases h
    | ok op =>
      rw [hop] at h
      obtain ⟨later, hlater, h⟩ := ok_of_bind h
      cases h
      obtain ⟨length, each⟩ := ih hlater
      refine ⟨by simp [length], fun k b' shape' hk => ?_⟩
      cases k with
      | zero =>
        cases hk
        exact ⟨op, rfl, hop⟩
      | succ k => exact each k b' shape' (by simpa using hk)

/-- A chain that has a plan has shapes, and its blocks were looked up with them. -/
theorem ofChain_ok {c : Chain} {plan : Plan} (h : ofChain l c = .ok plan) :
    ∃ shapes ops, c.shapes l.definitions = .ok shapes ∧
      resolveOps l c.id 0 (c.blocks.zip shapes) = .ok ops ∧ plan = ⟨c.id, ops.toArray⟩ := by
  unfold ofChain at h
  cases hs : c.shapes l.definitions with
  | error e => rw [hs] at h; cases h
  | ok shapes =>
    rw [hs] at h
    obtain ⟨ops, hops, h⟩ := ok_of_bind h
    cases h
    exact ⟨shapes, ops, rfl, hops, rfl⟩

theorem chain_of_ofChain {c : Chain} {plan : Plan} (h : ofChain l c = .ok plan) :
    plan.chain = c.id := by
  obtain ⟨_, _, _, _, rfl⟩ := ofChain_ok h
  rfl

/-- **What the blocks of a plan do fits the bodies of the chain.** -/
theorem bracketed_of_ofChain {c : Chain} {plan : Plan} {shapes : List Shape}
    (h : ofChain l c = .ok plan) (hs : c.shapes l.definitions = .ok shapes) :
    plan.Bracketed shapes := by
  obtain ⟨shapes', ops, hs', hops, rfl⟩ := ofChain_ok h
  obtain rfl : shapes' = shapes := by rw [hs] at hs'; exact (Except.ok.inj hs').symm
  obtain ⟨length, closed, suits⟩ := shapes_closed hs
  obtain ⟨length_ops, each⟩ := resolveOps_ok hops
  rw [List.length_map] at length
  rw [List.length_zip, length, Nat.min_self] at length_ops
  refine ⟨by simp [length, length_ops], closed, fun i shape hshape => ?_⟩
  have lt : i < c.blocks.length := by
    rw [← length]
    exact (List.getElem?_eq_some_iff.mp hshape).1
  obtain ⟨op, hop, resolved⟩ := each i c.blocks[i] shape (by
    rw [List.getElem?_zip_eq_some]
    exact ⟨List.getElem?_eq_getElem lt, hshape⟩)
  refine ⟨op, by simpa using hop, resolveOp_fits resolved ?_⟩
  obtain ⟨shape', hshape', suits'⟩ := suits i (l.definitions.flow? c.blocks[i].definition)
    (by simp [lt])
  rw [hshape] at hshape'
  cases hshape'
  exact suits'

end Plan

/-! ## What is called -/

/-- Every call in an expression is of a native function that is as `N` says for so many arguments,
or of a procedure whose body is as `C` says. -/
inductive Expr.All (N : Native → Nat → Prop) (C : ChainId → Prop) : Expr → Prop where
  | literal {value : Value} : Expr.All N C (.literal value)
  | native {definition : String} {function : Native} {arguments : List Expr}
      (is : N function arguments.length) (all : ∀ e ∈ arguments, Expr.All N C e) :
      Expr.All N C (.native definition function arguments)
  | call {definition : String} {body : ChainId} {parameters : List String}
      {arguments : List Expr} (is : C body) (all : ∀ e ∈ arguments, Expr.All N C e) :
      Expr.All N C (.call definition body parameters arguments)

theorem Expr.All.mono {N N' : Native → Nat → Prop} {C C' : ChainId → Prop} {e : Expr}
    (h : e.All N C) (native : ∀ f count, N f count → N' f count) (body : ∀ id, C id → C' id) :
    e.All N' C' := by
  induction h with
  | literal => exact .literal
  | native is _ ih => exact .native (native _ _ is) ih
  | call is _ ih => exact .call (body _ is) ih

/-- The expression that is evaluated for a block. -/
def Op.expr? : Op → Option Expr
  | .marker | .forever _ => none
  | .statement e | .repeatTimes e _ | .repeatUntil e _ | .ifThen e _ _ | .giveBack e => some e

/-- Every call in a plan is as `N` and `C` say. -/
def Plan.All (N : Native → Nat → Prop) (C : ChainId → Prop) (plan : Plan) : Prop :=
  ∀ (i : Nat) (op : Op) (e : Expr), plan.ops[i]? = some op → op.expr? = some e → e.All N C

theorem Plan.All.mono {N N' : Native → Nat → Prop} {C C' : ChainId → Prop} {plan : Plan}
    (h : plan.All N C) (native : ∀ f count, N f count → N' f count) (body : ∀ id, C id → C' id) :
    plan.All N' C' :=
  fun i op e hop he => (h i op e hop he).mono native body

namespace Plan

variable {l : Library}

/-- A native function that a definition with so many value slots stands for. -/
def Library.Offers (l : Library) (function : Native) (count : Nat) : Prop :=
  ∃ id d name, l.definitions.find? id = some d ∧ d.behavior = .native name ∧
    l.natives.get? name = some function ∧ d.arity = count

/-- The body of a procedure. -/
def Library.Names (l : Library) (body : ChainId) : Prop :=
  ∃ id d, l.definitions.find? id = some d ∧ d.behavior = .procedure (some body)

theorem resolveWith_all {definition : String} {arguments : Nat → Except RunError (List Expr)}
    {e : Expr} (h : resolveWith l definition arguments = .ok e)
    (each : ∀ n es, arguments n = .ok es →
      es.length = n ∧ ∀ a ∈ es, a.All l.Offers l.Names) : e.All l.Offers l.Names := by
  unfold resolveWith at h
  cases hd : l.definitions.find? definition with
  | none => rw [hd] at h; cases h
  | some d =>
    rw [hd] at h
    obtain ⟨es, hes, h⟩ := ok_of_bind h
    obtain ⟨length, all⟩ := each _ _ hes
    cases hb : d.behavior with
    | control flow => rw [hb] at h; cases h
    | native name =>
      rw [hb] at h
      cases hf : l.natives.get? name with
      | none => simp [hf] at h
      | some function =>
        simp only [hf] at h
        cases h
        exact .native ⟨definition, d, name, hd, hb, hf, length.symm⟩ all
    | procedure body =>
      rw [hb] at h
      cases body with
      | none => cases h
      | some body =>
        cases h
        exact .call ⟨definition, d, hd, hb⟩ all

mutual

theorem resolveArgument_all : ∀ {a : Argument} {e : Expr}, resolveArgument l a = .ok e →
    e.All l.Offers l.Names
  | .literal _, _, h => by
    cases h
    exact .literal
  | .choice _, _, h => by
    cases h
    exact .literal
  | .block _ arguments, _, h => by
    rw [resolveArgument] at h
    exact resolveWith_all h fun _ _ => resolveFirst_all
  | .definition _, _, h => by
    rw [resolveArgument] at h
    cases h

theorem resolveFirst_all : ∀ {arguments : List Argument} {count index : Nat} {es : List Expr},
    resolveFirst l count index arguments = .ok es →
      es.length = count ∧ ∀ e ∈ es, e.All l.Offers l.Names
  | [], count, index, es, h => by
    rw [resolveFirst] at h
    split at h
    · next none =>
      cases h
      exact ⟨none.symm, by simp⟩
    · cases h
  | a :: rest, count, index, es, h => by
    rw [resolveFirst] at h
    split at h
    · next none =>
      cases h
      exact ⟨none.symm, by simp⟩
    · obtain ⟨e, he, h⟩ := ok_of_bind h
      obtain ⟨later, hlater, h⟩ := ok_of_bind h
      cases h
      obtain ⟨length, all⟩ := resolveFirst_all hlater
      refine ⟨by simp only [List.length_cons]; omega, fun x hx => ?_⟩
      rcases List.mem_cons.mp hx with rfl | hx
      · exact resolveArgument_all he
      · exact all x hx

end

theorem resolveOp_all {b : Block} {shape : Shape} {op : Op} {e : Expr}
    (h : resolveOp l b shape = .ok op) (he : op.expr? = some e) : e.All l.Offers l.Names := by
  -- a control block that looks at an argument looks at its first
  have first {f : Expr → Op} (own : ∀ x, (f x).expr? = some x)
      (h : (resolveAt l b 0).map f = .ok op) : e.All l.Offers l.Names := by
    obtain ⟨e', ha, rfl⟩ := ok_of_map h
    rw [own, Option.some.injEq] at he
    subst he
    unfold resolveAt at ha
    split at ha
    · exact resolveArgument_all ha
    · cases ha
  have nothing (h : (.ok .marker : Except RunError Op) = .ok op) : e.All l.Offers l.Names := by
    cases h
    cases he
  unfold resolveOp at h
  split at h
  · cases h
  · split at h
    · obtain ⟨e', hb, rfl⟩ := ok_of_map h
      cases he
      exact resolveWith_all hb fun _ _ => resolveFirst_all
    · exact nothing h
    · exact nothing h
    · exact nothing h
    · exact nothing h
    · exact first (fun _ => rfl) h
    · exact first (fun _ => rfl) h
    · exact first (fun _ => rfl) h
    · cases h
      cases he
    · exact first (fun _ => rfl) h
    · cases h

/-- **What the expressions of a plan call was looked up.** -/
theorem all_of_ofChain {c : Chain} {plan : Plan} (h : ofChain l c = .ok plan) :
    plan.All l.Offers l.Names := by
  obtain ⟨shapes, ops, hs, hops, rfl⟩ := ofChain_ok h
  obtain ⟨length, each⟩ := resolveOps_ok hops
  intro i op e hop he
  have lt : i < (c.blocks.zip shapes).length := by
    rw [← length]
    exact (List.getElem?_eq_some_iff.mp (by simpa using hop)).1
  obtain ⟨op', hop', resolved⟩ := each i _ _ (List.getElem?_eq_getElem lt)
  obtain rfl : op' = op := by
    rw [show ops[i]? = some op by simpa using hop] at hop'
    exact (Option.some.inj hop').symm
  exact resolveOp_all resolved he

end Plan

/-! ## Procedures -/

/-- A procedure with parameters of the given names, whose body is the chain 1. -/
def Definition.procedure (name : String) (parameters : List String) : Definition :=
  ⟨name, "procedures", .gray, .text name :: parameters.map .argument, .procedure (some 1)⟩

end Blockwork
