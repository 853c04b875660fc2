import Blockwork.Proofs.Contexts
import Blockwork.Proofs.FrameRuns

/-!
# Procedures are isolated

A procedure sees the globals, its arguments and what it declares itself, and nothing of those who
call it. So two machines that call the same procedure may differ in their frames and in their local
variables: the procedure does the same, and it leaves both as it found them.

## Main statements

* `Machine.calls_isolated`: two calls of a procedure end alike, and the scopes of the callers are
  kept.
* `Machine.aboutTo_of_reaches`: the machines of all runs are of this kind.
-/

namespace Blockwork

/-- What a procedure is called with. -/
structure ProcedureCall where
  definition : String
  body : ChainId
  parameters : List String
  arguments : List Value

/-- How the call of a procedure ends. -/
inductive CallEnd where
  /-- It returns, with a value if one is wanted. -/
  | returned (value : Option Value)
  | failed (error : RunError)

namespace Machine

/-! ## Calls -/

/-- A machine that runs a program with the standard functions is about to call a procedure from one
of its frames, and no stop has been requested. -/
structure AboutTo (p : Program) (c : ProcedureCall) (around : Evaluation) (m : Machine) : Prop where
  plans : m.plans = p.plans Native.standard
  stop : m.stop = false
  activity :
    m.activity = .calling (.procedure c.definition c.body c.parameters) c.arguments around
  above : m.floor < m.frames.length

/-- Two machines have the same globals, have printed the same, and have room for the same calls. -/
structure SameOutside (m m' : Machine) : Prop where
  globals : m.env.globals = m'.env.globals
  output : m.output = m'.output
  depth : m.depth = m'.depth
  limit : m.depthLimit = m'.depthLimit

/-- A procedure that was called by `m` has not been left: it has a frame, or is waited for. -/
def CallOpen (m n : Machine) : Prop :=
  m.frames.length < n.frames.length ∨ m.suspended.length < n.suspended.length

instance (m n : Machine) : Decidable (m.CallOpen n) := inferInstanceAs (Decidable (_ ∨ _))

/-- The procedure that is called is left with the move of the given number. -/
def CallEnds (m : Machine) (k : Nat) : Prop :=
  0 < k ∧ (∀ j < k, 0 < j → m.CallOpen (move^[j] m)) ∧ ¬m.CallOpen (move^[k] m)

instance (m : Machine) (k : Nat) : Decidable (m.CallEnds k) := inferInstanceAs (Decidable (_ ∧ _))

/-- What lies below a procedure is as it was when `m` called it. -/
structure Restored (m n : Machine) : Prop where
  frames : n.frames = m.frames
  scopes : n.env.scopes = m.env.scopes
  suspended : n.suspended = m.suspended

/-- The call that `m` made has come to its end. -/
inductive Answers (m : Machine) (around : Evaluation) : CallEnd → Machine → Prop where
  | statement {n : Machine} (unwanted : around.wantsValue = false) (restored : m.Restored n)
      (activity : n.activity = .scheduling) : Answers m around (.returned none) n
  | value {n : Machine} {value : Value} (wanted : around.wantsValue = true)
      (restored : m.Restored n) (activity : n.activity = .delivering value around) :
      Answers m around (.returned (some value)) n
  /-- With the call, the whole run fails. -/
  | failed (n : Machine) (failure : Failure) :
      Answers m around (.failed failure.error) (n.finish (.failed failure))

/-- The call ends with a move in the given way, and leaves an output and globals behind. -/
structure CallEndsAs (m : Machine) (around : Evaluation) (k : Nat) (e : CallEnd) (output : Output)
    (globals : Table Value) : Prop where
  ends : m.CallEnds k
  answers : m.Answers around e (move^[k] m)
  output : (move^[k] m).output = output
  globals : (move^[k] m).env.globals = globals

theorem CallEnds.unique {m : Machine} {j k : Nat} (hj : m.CallEnds j) (hk : m.CallEnds k) :
    j = k := by
  rcases Nat.lt_trichotomy j k with lt | same | lt
  · exact absurd (hk.2.1 j lt hj.1) hj.2.2
  · exact same
  · exact absurd (hj.2.1 k lt hk.1) hk.2.2

/-! ## The procedure alone -/

/-- The same call with nothing below. -/
def alone (m : Machine) (c : ProcedureCall) : Machine where
  plans := m.plans
  depthLimit := m.depthLimit
  env := .ofGlobals m.env.globals
  output := m.output
  stop := false
  frames := []
  depth := m.depth
  suspended := []
  activity := .calling (.procedure c.definition c.body c.parameters) c.arguments ⟨.statement, []⟩
  snapshots := []
  gauge := ⟨0, 0⟩

/-- What lies below a procedure that a machine calls. -/
def base (m : Machine) (c : ProcedureCall) (around : Evaluation) : Base where
  frames := m.frames
  scopes := m.env.scopes
  suspended :=
    (m.waiting c.definition (if around.wantsValue then some around else none)).toList ++ m.suspended

/-- A machine leaves its last frame with the move of the given number. -/
def Empties (n : Machine) (k : Nat) : Prop :=
  0 < k ∧ (∀ j < k, 0 < j → (move^[j] n).frames ≠ []) ∧ (move^[k] n).frames = []

/-- How a call ends when the procedure alone is left so. -/
def callEnd (n : Machine) (definition : String) (wanted : Bool) : CallEnd :=
  match n.activity with
  | .ended (.failed failure) => .failed failure.error
  | .ended (.completed value) => .returned (if wanted then value else none)
  | _ => if wanted then .failed (.missingReturn definition) else .returned none

/-- The moves after which it shows. That a value is missing is noticed when it is looked what to do
next. -/
def delay (n : Machine) (wanted : Bool) : Nat :=
  match n.activity with
  | .scheduling => wanted.toNat
  | _ => 0

theorem SameOutside.alone {m m' : Machine} (h : m.SameOutside m') (plans : m.plans = m'.plans)
    (c : ProcedureCall) : m.alone c = m'.alone c := by
  unfold Machine.alone
  rw [plans, h.limit, h.globals, h.output, h.depth]

section

variable {p : Program} {c : ProcedureCall} {around : Evaluation} {m : Machine}

namespace AboutTo

theorem low (h : m.AboutTo p c around) : (m.base c around).Low := by
  unfold Base.Low base
  cases around.wantsValue with
  | true => exact Nat.le_refl _
  | false => exact Nat.le_of_lt h.above

/-- The procedure is entered. -/
theorem enter (h : m.AboutTo p c around) :
    Follows (m.base c around) (move (m.alone c)) (move m) := by
  have entered : move (m.alone c) =
      (m.alone c).enterProcedure c.definition c.body c.parameters c.arguments none := by
    rw [move_calling (m := m.alone c) rfl, call_procedure]
    rfl
  rw [move_calling h.activity, entered, call_procedure]
  refine Follows.enter (n := m.alone c) (m := m) rfl rfl rfl rfl h.stop rfl rfl
    (fun plan scope => ?_) (fun plan => ?_) _ _ _
  · rfl
  · exact .bottom rfl

/-- The procedure alone calls only standard functions. -/
theorem all (h : m.AboutTo p c around) :
    (m.alone c).All (fun f _ => f.Local ∧ f.Harmless) (fun _ => True) fun _ => True := by
  refine ⟨?_, fun _ _ _ _ => trivial, nofun, nofun, trivial, nofun⟩
  have run : ((ofProgram p Native.standard 0 .unlimited).start 0).All
      (fun f _ => f.Local ∧ f.Harmless) (fun _ => True) fun _ => True :=
    all_of_table fun _ _ known => ⟨Native.local_standard known, Native.harmless_standard known⟩
  have plans : (m.alone c).plans = ((ofProgram p Native.standard 0 .unlimited).start 0).plans :=
    h.plans.trans (kept_start (ofProgram p Native.standard 0 .unlimited) 0).plans.symm
  rw [plans]
  exact run.plans

/-- The machine goes step by step with the procedure alone. -/
theorem follows (h : m.AboutTo p c around) {k : Nat}
    (inner : ∀ j < k + 1, 0 < j → (move^[j] (m.alone c)).frames ≠ []) :
    Follows (m.base c around) (move^[k + 1] (m.alone c)) (move^[k + 1] m) := by
  induction k with
  | zero => exact h.enter
  | succ k ih =>
    have before := ih fun j lt => inner j (Nat.lt_succ_of_lt lt)
    rw [Function.iterate_succ_apply', Function.iterate_succ_apply' _ _ m]
    refine before.move h.low (inner (k + 1) (Nat.lt_succ_self _) (Nat.succ_pos k)) ?_
    intro definition function arguments around activity
    have is := (h.all.reaches (covers_all _) (reaches_iterate _ (k + 1))).activity
    rw [activity] at is
    exact is.1

/-- The procedure has not been left as long as it has a frame. -/
theorem callOpen (h : m.AboutTo p c around) {k : Nat} (pos : 0 < k)
    (inner : ∀ j < k, 0 < j → (move^[j] (m.alone c)).frames ≠ [])
    (there : (move^[k] (m.alone c)).frames ≠ []) : m.CallOpen (move^[k] m) := by
  obtain ⟨k, rfl⟩ := Nat.exists_eq_succ_of_ne_zero (Nat.ne_of_gt pos)
  exact Or.inl ((h.follows inner).taller there)

/-- If the call ends, then so does the procedure alone. -/
theorem empties (h : m.AboutTo p c around) {k : Nat} (ends : m.CallEnds k) :
    ∃ j, (m.alone c).Empties j := by
  by_contra never
  have stays (j : Nat) (pos : 0 < j) : (move^[j] (m.alone c)).frames ≠ [] := by
    induction j using Nat.strongRecOn with
    | ind j ih => exact fun gone => never ⟨j, pos, fun i lt pos => ih i lt pos, gone⟩
  exact ends.2.2 (h.callOpen ends.1 (fun j _ pos => stays j pos) (stays k ends.1))

/-- The call has not ended before the procedure alone does. -/
theorem opens (h : m.AboutTo p c around) {k : Nat} (empties : (m.alone c).Empties k) :
    ∀ j < k, 0 < j → m.CallOpen (move^[j] m) := fun j lt pos =>
  h.callOpen pos (fun i less => empties.2.1 i (Nat.lt_trans less lt)) (empties.2.1 j lt pos)

end AboutTo

/-- Nothing is left of a procedure that has come to its end. -/
theorem Answers.closed {e : CallEnd} {n : Machine} (h : m.Answers around e n) :
    ¬m.CallOpen n := by
  have below (restored : m.Restored n) : ¬m.CallOpen n := by
    unfold CallOpen
    rw [restored.frames, restored.suspended]
    exact not_or.mpr ⟨Nat.lt_irrefl _, Nat.lt_irrefl _⟩
  cases h with
  | statement _ restored _ => exact below restored
  | value _ restored _ => exact below restored
  | failed n failure => exact not_or.mpr ⟨Nat.not_lt_zero _, Nat.not_lt_zero _⟩

theorem CallEndsAs.of_answers {k : Nat} {e : CallEnd} {n : Machine} (pos : 0 < k)
    (opens : ∀ j < k, 0 < j → m.CallOpen (move^[j] m)) (same : move^[k] m = n)
    (answers : m.Answers around e n) : m.CallEndsAs around k e n.output n.env.globals := by
  subst same
  exact ⟨⟨pos, opens, answers.closed⟩, answers, rfl, rfl⟩

/-- A procedure that is done without the value that is waited for makes the run fail. It takes one
more move to notice that. -/
theorem CallEndsAs.of_missing {definition : String} {k : Nat} {o : Machine}
    (opens : ∀ j < k, 0 < j → m.CallOpen (move^[j] m)) (same : move^[k] m = o)
    (activity : o.activity = .scheduling) (frames : o.frames = m.frames)
    (suspended : o.suspended = ⟨definition, m.frames.length, around⟩ :: m.suspended) :
    m.CallEndsAs around (k + 1) (.failed (.missingReturn definition)) o.output o.env.globals := by
  have next : move^[k + 1] m = o.fail (.missingReturn definition) := by
    rw [Function.iterate_succ_apply', same, move_scheduling activity,
      dispatch_missing suspended (congrArg List.length frames.symm)]
  refine .of_answers (n := o.fail _) (Nat.succ_pos k) (fun j lt pos => ?_) next
    (.failed o ⟨.missingReturn definition, o.location⟩)
  rcases Nat.lt_succ_iff_lt_or_eq.mp lt with lt | rfl
  · exact opens j lt pos
  · -- the call is still waited for
    refine Or.inr ?_
    rw [same, suspended]
    exact Nat.lt_succ_self _

theorem suspended_base_unwanted (unwanted : around.wantsValue = false) :
    (m.base c around).suspended = m.suspended := by
  unfold base
  rw [unwanted]
  rfl

theorem suspended_base_wanted (wanted : around.wantsValue = true) :
    (m.base c around).suspended = ⟨c.definition, m.frames.length, around⟩ :: m.suspended := by
  unfold base
  rw [wanted]
  rfl

/-- **A call ends as the procedure alone does.** -/
theorem AboutTo.ends (h : m.AboutTo p c around) {k : Nat} (empties : (m.alone c).Empties k)
    {n : Machine} (is : move^[k] (m.alone c) = n) :
    m.CallEndsAs around (k + n.delay around.wantsValue)
      (n.callEnd c.definition around.wantsValue) n.output n.env.globals := by
  obtain ⟨i, rfl⟩ := Nat.exists_eq_succ_of_ne_zero (Nat.ne_of_gt empties.1)
  have follows := h.follows empties.2.1
  have gone := empties.2.2
  have opens := h.opens empties
  rw [is] at follows gone
  generalize same : move^[i + 1] m = o at follows
  unfold delay callEnd
  cases follows with
  | inside bears activity settled =>
    obtain ⟨scheduling, scopes, suspended⟩ := settled.gone gone
    obtain ⟨frames', scopes', suspended'⟩ := bears.below gone scopes suspended
    rw [scheduling] at activity
    rw [scheduling, ← bears.output, ← bears.globals]
    cases use : around.wantsValue with
    | false =>
      rw [suspended_base_unwanted use] at suspended'
      exact .of_answers empties.1 opens same
        (.statement use ⟨frames', scopes', suspended'⟩ activity)
    | true =>
      rw [suspended_base_wanted use] at suspended'
      exact .of_missing opens same activity frames' suspended'
  | returned n' o' value bears frames scopes suspended is is' =>
    obtain ⟨frames', scopes', suspended'⟩ := bears.below frames scopes suspended
    rw [handOver_gone frames suspended] at is
    subst is
    show m.CallEndsAs around (i + 1) (.returned (if around.wantsValue then some value else none))
      n'.output n'.env.globals
    rw [← bears.output, ← bears.globals]
    cases use : around.wantsValue with
    | false =>
      rw [suspended_base_unwanted use] at suspended'
      have above : o'.floor < o'.frames.length := by
        rw [show o'.floor = floorOf o'.suspended from rfl, suspended', frames']
        exact h.above
      rw [handOver_above above] at is'
      rw [is'] at same
      exact .of_answers (n := o'.schedule) empties.1 opens same
        (.statement use ⟨frames', scopes', suspended'⟩ rfl)
    | true =>
      rw [suspended_base_wanted use] at suspended'
      rw [handOver_waiting suspended' (congrArg List.length frames'.symm)] at is'
      rw [is'] at same
      exact .of_answers
        (n := { o' with suspended := m.suspended, activity := .delivering value around })
        empties.1 opens same (.value use ⟨frames', scopes', rfl⟩ rfl)
  | failed n' o' failure failure' is is' error output globals =>
    subst is
    rw [is'] at same
    show m.CallEndsAs around (i + 1) (.failed failure.error) n'.output n'.env.globals
    rw [← error, ← output, ← globals]
    exact .of_answers (n := o'.finish _) empties.1 opens same (.failed o' failure')

end

/-! ## Two calls -/

/-- Whenever a run calls a procedure and no stop has been requested, its machine is of this kind. -/
theorem aboutTo_of_reaches {p : Program} {limit : Nat} {output : Output} {chain : ChainId}
    {c : ProcedureCall} {around : Evaluation} {m : Machine}
    (reaches : Reaches ((ofProgram p Native.standard limit output).start chain) m)
    (stop : m.stop = false) (activity :
      m.activity = .calling (.procedure c.definition c.body c.parameters) c.arguments around) :
    m.AboutTo p c around := by
  have order := (framed_of_reaches (fun _ _ known => (Native.harmless_standard known).scopes)
    reaches).order
  unfold InOrder at order
  rw [activity] at order
  exact ⟨reaches.plans.1.trans (kept_start _ chain).plans, stop, activity, Stacked.floor_lt order⟩

/-- **A procedure does the same whoever calls it.** Two machines that have the same globals and have
printed the same call it with the same arguments, and both want its value or neither does; their
frames and their local variables may be any. Then either call ends with the same move, or neither
does. Both give the same value or the same error, print the same and leave the same globals; and
what lies below is as it was if they return. -/
theorem calls_isolated {p : Program} {c : ProcedureCall} {around around' : Evaluation}
    {m m' : Machine}
    (h : m.AboutTo p c around) (h' : m'.AboutTo p c around') (outside : m.SameOutside m')
    (use : around.wantsValue = around'.wantsValue) (k : Nat) :
    (m.CallEnds k ↔ m'.CallEnds k) ∧
      (m.CallEnds k → ∃ e output globals, m.CallEndsAs around k e output globals ∧
        m'.CallEndsAs around' k e output globals) := by
  have same : m.alone c = m'.alone c := outside.alone (h.plans.trans h'.plans.symm) c
  have both {j : Nat} (empties : (m.alone c).Empties j) :
      ∃ l e output globals, m.CallEndsAs around l e output globals ∧
        m'.CallEndsAs around' l e output globals := by
    refine ⟨_, _, _, _, h.ends empties rfl, ?_⟩
    rw [same] at empties ⊢
    rw [use]
    exact h'.ends empties rfl
  have ends (ends : m.CallEnds k) : ∃ e output globals,
      m.CallEndsAs around k e output globals ∧ m'.CallEndsAs around' k e output globals := by
    obtain ⟨j, empties⟩ := h.empties ends
    obtain ⟨l, e, output, globals, first, second⟩ := both empties
    obtain rfl := first.ends.unique ends
    exact ⟨e, output, globals, first, second⟩
  refine ⟨⟨fun is => ?_, fun is => ?_⟩, ends⟩
  · obtain ⟨e, output, globals, -, second⟩ := ends is
    exact second.ends
  · obtain ⟨j, empties⟩ := h'.empties is
    rw [← same] at empties
    obtain ⟨l, e, output, globals, first, second⟩ := both empties
    obtain rfl := second.ends.unique is
    exact first.ends

end Machine

namespace Program

open Machine

/-- Two chains that print what a procedure gives them. The procedure changes its parameter and
prints a global variable. -/
def echoing : Program where
  definitions := Registry.builtins.insert (.procedure "echo" ["it"])
  globals := Table.set .empty "x" (.text "global")
  chains :=
    [⟨0, Chain.origin, [⟨"on_start", []⟩, ⟨"print", [.block "echo" [.literal (.text "a")]]⟩]⟩,
      ⟨1, Chain.origin, [⟨"define", [.definition (.procedure "echo" ["it"])]⟩,
        ⟨"set_var", [.literal (.text "it"), .literal (.text "mine")]⟩,
        ⟨"print", [.block "get_var" [.literal (.text "x")]]⟩,
        ⟨"return", [.block "get_var" [.literal (.text "it")]]⟩]⟩,
      ⟨2, Chain.origin, [⟨"on_start", []⟩, ⟨"if", [.literal (.boolean true)]⟩,
        ⟨"print", [.block "echo" [.literal (.text "a")]]⟩, ⟨"end", []⟩]⟩]

/-- The procedure is called. -/
def echoCall : ProcedureCall := ⟨"echo", 1, ["it"], [.text "a"]⟩

/-- Its value is printed. -/
def echoUse : Evaluation := ⟨.statement, [⟨.native "print" Native.print, [], []⟩]⟩

/-- A machine that runs a chain in a scope of its own calls the procedure. -/
def echoCaller (chain : ChainId) (scope : Scope) : Machine :=
  { (ofProgram echoing Native.standard 64 .unlimited).start chain with
    env := ⟨echoing.globals, [scope]⟩
    depth := 1
    activity := .calling (.procedure "echo" 1 ["it"]) [.text "a"] echoUse }

theorem aboutTo_echoCaller (chain : ChainId) (scope : Scope)
    (frames : (echoCaller chain scope).floor < (echoCaller chain scope).frames.length) :
    (echoCaller chain scope).AboutTo echoing echoCall echoUse :=
  ⟨(kept_start (ofProgram echoing Native.standard 64 .unlimited) chain).plans,
    (kept_start (ofProgram echoing Native.standard 64 .unlimited) chain).stop, rfl, frames⟩

theorem sameOutside_echoCaller (chain chain' : ChainId) (scope scope' : Scope) :
    (echoCaller chain scope).SameOutside (echoCaller chain' scope') := by
  have kept := kept_start (ofProgram echoing Native.standard 64 .unlimited) chain
  have kept' := kept_start (ofProgram echoing Native.standard 64 .unlimited) chain'
  constructor
  · rfl
  · exact kept.output.trans kept'.output.symm
  · rfl
  · exact kept.depthLimit.trans kept'.depthLimit.symm

/-- Callers with different variables of the name that the procedure prints. -/
theorem calls_isolated_echoing :
    ∃ m m' : Machine, m.AboutTo echoing echoCall echoUse ∧ m'.AboutTo echoing echoCall echoUse ∧
      m.SameOutside m' ∧ m.env.scopes ≠ m'.env.scopes ∧ m.CallEnds 23 ∧ m'.CallEnds 23 ∧
      ∃ e output globals, m.CallEndsAs echoUse 23 e output globals ∧
        m'.CallEndsAs echoUse 23 e output globals := by
  have h := aboutTo_echoCaller 0 (Table.set .empty "x" (.text "one")) (by decide +kernel)
  have h' := aboutTo_echoCaller 2 .empty (by decide +kernel)
  have outside := sameOutside_echoCaller 0 2 (Table.set .empty "x" (.text "one")) .empty
  have ends : (echoCaller 0 (Table.set .empty "x" (.text "one"))).CallEnds 23 := by decide +kernel
  have differ : (echoCaller 0 (Table.set .empty "x" (.text "one"))).env.scopes ≠
      (echoCaller 2 .empty).env.scopes := by
    intro same
    have sizes := congrArg (List.map fun scope : Scope => scope.items.length) same
    revert sizes
    decide
  obtain ⟨same, alike⟩ := calls_isolated h h' outside rfl 23
  exact ⟨_, _, h, h', outside, differ, ends, same.mp ends, alike ends⟩

end Program

end Blockwork
