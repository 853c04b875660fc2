import Blockwork.Proofs.Runs

/-!
# What a run calls

Whatever a run calls stands in the plan of one of its chains. So a property that all functions and
procedures of the plans have, each for the number of arguments it is given, is a property of all
calls that a run makes; and a run fails only as those calls may fail.

## Main statements

* `Machine.All.move`: a move keeps a machine to the calls of its plans.
* `Machine.all_start`: a run begins so.

A call can be under way in many places: as a block of a frame, as an argument that is waited for,
in an evaluation that is suspended. `Machine.All` goes through all of them.
-/

namespace Blockwork

section

variable (N : Native → Nat → Prop) (C : ChainId → Prop) (E : RunError → Prop)

/-- A call with so many arguments is as `N` and `C` say. -/
def Callee.All (count : Nat) : Callee → Prop
  | .native _ function => N function count
  | .procedure _ body _ => C body

/-- A call is as `N` and `C` say, and so are those in the arguments that are left. -/
structure PendingCall.All (c : PendingCall) : Prop where
  callee : c.callee.All N C (c.values.length + 1 + c.rest.length)
  rest : ∀ e ∈ c.rest, e.All N C

/-- The calls around an expression are as `N` and `C` say. -/
def Evaluation.All (around : Evaluation) : Prop := ∀ c ∈ around.calls, c.All N C

/-- What is under way makes calls that are as `N` and `C` say, and an error is one of `E`. -/
def Activity.All : Activity → Prop
  | .evaluating e around => e.All N C ∧ around.All N C
  | .delivering _ around | .waiting _ _ _ around => around.All N C
  | .calling callee arguments around => callee.All N C arguments.length ∧ around.All N C
  | .ended (.failed failure) => E failure.error
  | .idle | .scheduling | .ended _ | .panicked _ => True

/-- Why a chain has no plan. -/
def Machine.planError? (m : Machine) (id : ChainId) : Option RunError :=
  match m.plan id with
  | .ok _ => none
  | .error failure => some failure.error

/-- Every call that a machine may make is as `N` and `C` say, and an error is one of `E`. -/
structure Machine.All (m : Machine) : Prop where
  plans : ∀ e ∈ m.plans, ∀ plan, e.2 = .ok plan → plan.All N C
  bodies : ∀ id e, C id → m.planError? id = some e → E e
  frames : ∀ f ∈ m.frames, f.plan.All N C
  suspended : ∀ s ∈ m.suspended, s.evaluation.All N C
  activity : m.activity.All N C E

/-- The errors of `E` are enough for functions that are as `N` says, and for the machine itself. -/
structure Covers : Prop where
  native : ∀ (function : Native) (s s' : Surroundings) (arguments : List Value) (e : RunError),
    N function arguments.length → function s arguments = (.failed e, s') → E e
  typeMismatch : ∀ expected found, E (.typeMismatch expected found)
  missingReturn : ∀ procedure, E (.missingReturn procedure)
  stackOverflow : ∀ limit, E (.stackOverflow limit)
  noValue : ∀ definition, E (.noValue definition)

/-- All errors are enough for any functions. -/
theorem covers_all : Covers N fun _ => True :=
  ⟨fun _ _ _ _ _ _ _ => trivial, fun _ _ => trivial, fun _ => trivial, fun _ => trivial,
    fun _ => trivial⟩

variable {N C} in
/-- The expression of a call makes that call, and those of its arguments. -/
theorem Expr.All.applied {callee : Callee} {arguments : List Expr}
    (h : (callee.applied arguments).All N C) :
    callee.All N C arguments.length ∧ ∀ e ∈ arguments, e.All N C := by
  cases callee with
  | native definition function =>
    cases h with
    | native is all => exact ⟨is, all⟩
  | procedure definition body parameters =>
    cases h with
    | call is all => exact ⟨is, all⟩

end

namespace Machine

/-! ## Plans -/

section

variable {m n : Machine} {id : ChainId} {plan : Plan}

theorem mem_plans_of_plan (h : m.plan id = .ok plan) : ∃ e ∈ m.plans, e.2 = .ok plan := by
  unfold Machine.plan at h
  split at h
  · next found => exact ⟨_, List.mem_of_find?_eq_some found, h⟩
  · cases h

theorem planError?_congr (plans : n.plans = m.plans) (id : ChainId) :
    n.planError? id = m.planError? id := by
  unfold planError? Machine.plan
  rw [plans]
  cases m.plans.find? fun e => e.1 = id with
  | none => rfl
  | some e => rfl

end

/-! ## Operations that bring nothing new -/

/-- All frames are in plans that had a frame before, and no evaluation was suspended. -/
structure Narrows (m n : Machine) : Prop where
  plans : n.plans = m.plans
  frames : ∀ f ∈ n.frames, ∃ g ∈ m.frames, f.plan = g.plan
  suspended : ∀ s ∈ n.suspended, s ∈ m.suspended

section

theorem Narrows.of_eq {m n : Machine} (plans : n.plans = m.plans) (frames : n.frames = m.frames)
    (suspended : n.suspended = m.suspended) : Narrows m n :=
  ⟨plans, fun f hf => ⟨f, frames ▸ hf, rfl⟩, fun _ hs => suspended ▸ hs⟩

theorem Narrows.trans {m n o : Machine} (h : Narrows m n) (next : Narrows n o) : Narrows m o := by
  refine ⟨next.plans.trans h.plans, fun f hf => ?_, fun s hs => h.suspended s (next.suspended s hs)⟩
  obtain ⟨g, hg, same⟩ := next.frames f hf
  obtain ⟨g', hg', same'⟩ := h.frames g hg
  exact ⟨g', hg', same.trans same'⟩

variable (m : Machine)

theorem narrows_activity (activity : Activity) : Narrows m { m with activity := activity } :=
  .of_eq rfl rfl rfl

theorem narrows_publish : Narrows m m.publish := by
  unfold publish
  split <;> exact .of_eq rfl rfl rfl

theorem narrows_updateTop {change : Frame → Frame} (same : ∀ f, (change f).plan = f.plan) :
    Narrows m (m.updateTop change) := by
  unfold updateTop
  split
  · exact .of_eq rfl rfl rfl
  · next f rest frames =>
    refine ⟨rfl, fun g hg => ?_, fun _ hs => hs⟩
    rw [frames]
    rcases List.mem_cons.mp hg with rfl | hg
    · exact ⟨f, List.mem_cons_self, same f⟩
    · exact ⟨g, List.mem_cons_of_mem _ hg, rfl⟩

theorem narrows_jumpPast (close : Nat) : Narrows m (m.jumpPast close) :=
  narrows_updateTop m fun _ => rfl

theorem narrows_pushBody (first stop : Nat) (kind : FrameKind) :
    Narrows m (m.pushBody first stop kind) := by
  unfold pushBody
  split
  · exact .of_eq rfl rfl rfl
  · next f rest frames =>
    refine ⟨rfl, fun g hg => ?_, fun _ hs => hs⟩
    rcases List.mem_cons.mp hg with rfl | hg
    · exact ⟨f, by simp [frames], rfl⟩
    · exact ⟨g, hg, rfl⟩

theorem narrows_pop : Narrows m m.pop := by
  cases h : m.frames with
  | nil => rw [pop, h]; exact .of_eq rfl rfl rfl
  | cons f rest =>
    have inner (g : Frame) (hg : g ∈ rest) : ∃ g' ∈ m.frames, g.plan = g'.plan :=
      ⟨g, by simp [h, hg], rfl⟩
    by_cases kind : f.kind = .procedure
    · rw [pop_procedure h kind]
      refine Narrows.trans ?_ (narrows_publish _)
      exact ⟨rfl, inner, fun _ hs => hs⟩
    · rw [pop_inner h kind]
      refine Narrows.trans ?_ (narrows_publish _)
      exact ⟨rfl, inner, fun _ hs => hs⟩

theorem narrows_leave (frames : List Frame) : Narrows m (m.leave frames) := by
  induction frames generalizing m with
  | nil => exact .of_eq rfl rfl rfl
  | cons f rest ih =>
    unfold leave
    split
    · exact narrows_pop m
    · exact (narrows_pop m).trans (ih m.pop)

theorem narrows_finish (outcome : Outcome) : Narrows m (m.finish outcome) :=
  ⟨rfl, fun _ hf => absurd hf List.not_mem_nil, fun _ hs => absurd hs List.not_mem_nil⟩

end

/-! ## Operations of a run -/

section

variable {N : Native → Nat → Prop} {C : ChainId → Prop} {E : RunError → Prop} {m n : Machine}

theorem All.rearrange (h : m.All N C E) (plans : n.plans = m.plans)
    (frames : ∀ f ∈ n.frames, f.plan.All N C) (suspended : ∀ s ∈ n.suspended, s.evaluation.All N C)
    (activity : n.activity.All N C E) : n.All N C E := by
  refine ⟨?_, fun id e is => ?_, frames, suspended, activity⟩
  · rw [plans]; exact h.plans
  · rw [planError?_congr plans]; exact h.bodies id e is

theorem All.narrow (h : m.All N C E) (narrows : Narrows m n) (activity : n.activity.All N C E) :
    n.All N C E := by
  refine h.rearrange narrows.plans (fun f hf => ?_) (fun s hs => ?_) activity
  · obtain ⟨g, hg, same⟩ := narrows.frames f hf
    rw [same]
    exact h.frames g hg
  · exact h.suspended s (narrows.suspended s hs)

theorem All.do (h : m.All N C E) (activity : Activity) (is : activity.All N C E) :
    ({ m with activity := activity } : Machine).All N C E :=
  h.narrow (narrows_activity m activity) is

theorem All.go_on (h : m.All N C E) (narrows : Narrows m n) : n.schedule.All N C E :=
  h.narrow (narrows.trans (narrows_activity n _)) trivial

theorem All.fail (h : m.All N C E) {e : RunError} (is : E e) : (m.fail e).All N C E :=
  h.narrow (narrows_finish m _) is

theorem All.of_plan {id : ChainId} {plan : Plan} (h : m.All N C E) (hp : m.plan id = .ok plan) :
    plan.All N C := by
  obtain ⟨e, mem, is⟩ := mem_plans_of_plan hp
  exact h.plans e mem plan is

theorem All.no_plan {id : ChainId} {failure : Failure} (h : m.All N C E) (is : C id)
    (hp : m.plan id = .error failure) : (m.finish (.failed failure)).All N C E :=
  h.narrow (narrows_finish m _) (h.bodies id _ is (by rw [planError?, hp]))

theorem All.enterProcedure (h : m.All N C E) (covers : Covers N E) {definition : String}
    {body : ChainId} {parameters : List String} {arguments : List Value}
    {around : Option Evaluation} (is : C body)
    (evaluation : ∀ a, around = some a → a.All N C) :
    (m.enterProcedure definition body parameters arguments around).All N C E := by
  unfold Machine.enterProcedure
  split
  · exact h.fail (covers.stackOverflow _)
  · split
    · next hp => exact h.no_plan is hp
    · next plan hp =>
      refine h.rearrange rfl (fun f hf => ?_) (fun s hs => ?_) trivial
      · rcases List.mem_cons.mp hf with rfl | hf
        · exact h.of_plan hp
        · exact h.frames f hf
      · rcases List.mem_append.mp hs with hs | hs
        · cases around with
          | none => cases hs
          | some a =>
            obtain rfl := List.mem_singleton.mp hs
            exact evaluation a rfl
        · exact h.suspended s hs

theorem All.giveBack (h : m.All N C E) (value : Value) : (m.giveBack value).All N C E := by
  have left : Narrows m (m.leave m.frames) := narrows_leave m _
  unfold Machine.giveBack
  simp only
  split
  · exact h.go_on left
  · split
    · exact h.narrow (left.trans (narrows_finish _ _)) trivial
    · next s outer suspended =>
      refine h.narrow ⟨left.plans, left.frames, fun t ht => ?_⟩ ?_
      · exact left.suspended t (by rw [suspended]; exact List.mem_cons_of_mem _ ht)
      · exact h.suspended s (left.suspended s (by rw [suspended]; exact List.mem_cons_self))

theorem All.conclude (h : m.All N C E) (covers : Covers N E) (value : Value) (purpose : Purpose) :
    (m.conclude value purpose).All N C E := by
  cases purpose with
  | statement => exact h.go_on (.of_eq rfl rfl rfl)
  | times opener close =>
    unfold Machine.conclude
    cases number : value.expectNumber with
    | error e =>
      refine h.fail ?_
      unfold Value.expectNumber at number
      split at number
      · cases number
      · cases number
        exact covers.typeMismatch _ _
    | ok x =>
      simp only
      split
      · exact h.go_on (narrows_jumpPast m close)
      · exact h.go_on ((narrows_jumpPast m close).trans (narrows_pushBody _ _ _ _))
  | firstTest opener close =>
    simp only [Machine.conclude]
    split
    · exact h.go_on (narrows_jumpPast m close)
    · exact h.go_on ((narrows_jumpPast m close).trans (narrows_pushBody _ _ _ _))
  | retest =>
    simp only [Machine.conclude]
    split
    · exact h.go_on (narrows_pop m)
    · exact h.go_on (narrows_updateTop m fun _ => rfl)
  | branch opener otherwise close =>
    simp only [Machine.conclude]
    split
    · exact h.go_on ((narrows_jumpPast m close).trans (narrows_pushBody _ _ _ _))
    · exact h.go_on (narrows_jumpPast m close)
  | giveBack => exact h.giveBack value

theorem All.returned (h : m.All N C E) (covers : Covers N E) (definition : String)
    (value : Option Value) {around : Evaluation} (is : around.All N C) :
    (m.returned definition value around).All N C E := by
  cases value with
  | some value => exact h.do (.delivering value around) is
  | none =>
    rw [returned_none]
    split
    · exact h.fail (covers.noValue _)
    · exact h.go_on (.of_eq rfl rfl rfl)

theorem All.gather (h : m.All N C E) {callee : Callee} {values : List Value} (purpose : Purpose)
    {outer : List PendingCall} {arguments : List Expr}
    (is : callee.All N C (values.length + arguments.length))
    (around : ∀ c ∈ outer, c.All N C) (all : ∀ e ∈ arguments, e.All N C) :
    (m.gather callee values purpose outer arguments).All N C E := by
  cases arguments with
  | nil => exact h.do (.calling _ _ _) ⟨by simpa using is, around⟩
  | cons e rest =>
    refine h.do (.evaluating _ _) ⟨all e List.mem_cons_self, fun c hc => ?_⟩
    rcases List.mem_cons.mp hc with rfl | hc
    · refine ⟨?_, fun e he => all e (List.mem_cons_of_mem _ he)⟩
      simp only [List.length_cons] at is
      rw [show values.length + 1 + rest.length = values.length + (rest.length + 1) by omega]
      exact is
    · exact around c hc

theorem All.call (h : m.All N C E) (covers : Covers N E) {callee : Callee}
    {arguments : List Value} {around : Evaluation} (is : callee.All N C arguments.length)
    (outer : around.All N C) : (m.call arguments around callee).All N C E := by
  cases callee with
  | native definition function =>
    rw [call_native]
    have after : (m.within (function m.surroundings arguments).2).All N C E :=
      h.narrow (.of_eq rfl rfl rfl) h.activity
    cases reacts : (function m.surroundings arguments).1 with
    | returned value => exact after.returned covers definition value outer
    | failed error => exact after.fail (covers.native _ _ _ _ _ is (Prod.ext reacts rfl))
    | panicked message => exact after.do (.panicked _) trivial
    | waiting wait value => exact after.do (.waiting _ _ _ _) outer
  | procedure definition body parameters =>
    rw [call_procedure]
    refine h.enterProcedure covers is fun a ha => ?_
    split at ha
    · cases ha; exact outer
    · cases ha

theorem All.perform (h : m.All N C E) (index : Nat) {op : Op}
    (is : ∀ e, op.expr? = some e → e.All N C) : (m.perform index op).All N C E := by
  have begin (e : Expr) (purpose : Purpose) (he : op.expr? = some e) :
      (m.evaluate e purpose).All N C E :=
    h.do (.evaluating e ⟨purpose, []⟩) ⟨is e he, fun _ hc => by cases hc⟩
  cases op with
  | marker => exact h.go_on (.of_eq rfl rfl rfl)
  | statement e => exact begin e _ rfl
  | repeatTimes times close => exact begin times _ rfl
  | repeatUntil condition close => exact begin condition _ rfl
  | forever close => exact h.go_on ((narrows_jumpPast m close).trans (narrows_pushBody _ _ _ _))
  | ifThen condition otherwise close => exact begin condition _ rfl
  | giveBack e => exact begin e _ rfl

theorem All.performNext (h : m.All N C E) {f : Frame} (hf : f ∈ m.frames) :
    (m.performNext f).All N C E := by
  have narrows : Narrows m m.beginNext :=
    (narrows_updateTop m (by exact fun _ => rfl)).trans (narrows_publish _)
  cases hop : f.plan.ops[f.next]? with
  | some op =>
    rw [performNext_some hop]
    refine All.perform (h.narrow narrows ?_) _ fun e => h.frames f hf _ op e hop
    rw [beginNext_activity]
    exact h.activity
  | none => rw [performNext_none hop]; exact h.go_on narrows

theorem All.endOfFrame (h : m.All N C E) {f : Frame} (hf : f ∈ m.frames) :
    (m.endOfFrame f).All N C E := by
  unfold Machine.endOfFrame
  split
  · exact h.go_on (narrows_pop m)
  · exact h.go_on (narrows_pop m)
  · exact h.go_on (narrows_pop m)
  · exact h.go_on (narrows_updateTop m fun _ => rfl)
  · split
    · exact h.go_on ((narrows_updateTop m (by exact fun _ => rfl)).trans
        (narrows_updateTop _ fun _ => rfl))
    · exact h.go_on (narrows_pop m)
  · simp only
    split
    · next condition _ hop =>
      exact h.narrow ((narrows_updateTop m (by exact fun _ => rfl)).trans (narrows_activity _ _))
        ⟨h.frames f hf _ _ condition hop rfl, fun _ hc => by cases hc⟩
    · exact h.go_on ((narrows_updateTop m (by exact fun _ => rfl)).trans (narrows_pop _))

theorem All.dispatch (h : m.All N C E) (covers : Covers N E) : m.dispatch.All N C E := by
  unfold Machine.dispatch
  split
  · split
    · exact h.narrow (narrows_finish m _) trivial
    · exact h.fail (covers.missingReturn _)
  · split
    · exact h.narrow (narrows_finish m _) trivial
    · split
      · exact h.narrow (narrows_finish m _) trivial
      · next f rest frames =>
        have mem : f ∈ m.frames := by simp [frames]
        split
        · exact h.endOfFrame mem
        · exact h.performNext mem

/-- **A move keeps a machine to the calls of its plans,** and to the errors that they cover. -/
theorem All.move (h : m.All N C E) (covers : Covers N E) : m.move.All N C E := by
  have is := h.activity
  have moves := m.moves
  generalize m.move = n at moves ⊢
  cases moves with
  | idle activity => exact h
  | halts halted => exact h
  | dispatches activity => exact h.dispatch covers
  | gives activity =>
    rw [activity] at is
    exact h.do (.delivering _ _) is.2
  | applies activity =>
    rw [activity] at is
    obtain ⟨callee, arguments⟩ := is.1.applied
    exact h.gather _ (by simpa using callee) is.2 arguments
  | concludes activity => exact h.conclude covers _ _
  | @delivers value purpose c outer activity =>
    rw [activity] at is
    have inner : c.All N C := is c List.mem_cons_self
    exact h.gather _ (by simpa using inner.callee)
      (fun d hd => is d (List.mem_cons_of_mem _ hd)) inner.rest
  | calls activity =>
    rw [activity] at is
    exact h.call covers is.1 is.2
  | resumes activity =>
    rw [activity] at is
    exact h.returned covers _ _ is

theorem All.requestStop (h : m.All N C E) : m.requestStop.All N C E :=
  h.narrow (.of_eq rfl rfl rfl) h.activity

theorem All.reaches (h : m.All N C E) (covers : Covers N E) (reached : Reaches m n) : n.All N C E :=
  reached.keeps h (fun _ h => h.move covers) fun _ h => h.requestStop

/-! ## The start of a run -/

/-- **A run begins with the calls of the plans of its program.** -/
theorem all_start {p : Program} {natives : NativeTable} {limit : Nat} {output : Output}
    {chain : ChainId}
    (native : ∀ f count, (Plan.Library.mk p.definitions natives).Offers f count → N f count)
    (body : ∀ id, (Plan.Library.mk p.definitions natives).Names id → C id)
    (bodies : ∀ id e, C id → (ofProgram p natives limit output).planError? id = some e → E e)
    (is : C chain) : ((ofProgram p natives limit output).start chain).All N C E := by
  have idle : (ofProgram p natives limit output).All N C E := by
    refine ⟨fun e mem plan he => ?_, bodies, fun f hf => ?_, fun s hs => ?_, trivial⟩
    · obtain ⟨c, -, rfl⟩ := List.mem_map.mp mem
      exact (Plan.all_of_ofChain he).mono native body
    · cases hf
    · cases hs
  unfold start
  split
  · next hp => exact idle.no_plan is hp
  · next plan hp =>
    refine idle.rearrange rfl (fun f hf => ?_) idle.suspended trivial
    rcases List.mem_cons.mp hf with rfl | hf
    · exact idle.of_plan hp
    · exact idle.frames f hf

/-- A run calls only native functions of its table. -/
theorem all_of_table {P : Native → Prop} {p : Program} {natives : NativeTable} {limit : Nat}
    {output : Output} {chain : ChainId} (h : ∀ name f, natives.get? name = some f → P f) :
    ((ofProgram p natives limit output).start chain).All (fun f _ => P f) (fun _ => True)
      fun _ => True := by
  refine all_start ?_ (fun _ _ => trivial) (fun _ _ _ _ => trivial) trivial
  rintro f count ⟨id, d, name, -, -, known, -⟩
  exact h name f known

/-- What holds of the native functions of a table holds of each that is called in a run. -/
theorem called_of_reaches {P : Native → Prop} {p : Program} {natives : NativeTable} {limit : Nat}
    {output : Output} {chain : ChainId} {m : Machine}
    (h : ∀ name f, natives.get? name = some f → P f)
    (reaches : Reaches ((ofProgram p natives limit output).start chain) m) {definition : String}
    {function : Native} {arguments : List Value} {around : Evaluation}
    (activity : m.activity = .calling (.native definition function) arguments around) :
    P function := by
  have is := ((all_of_table h).reaches (covers_all _) reaches).activity
  rw [activity] at is
  exact is.1

end

end Machine

end Blockwork
