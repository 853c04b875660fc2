import Blockwork.Proofs.Origins

/-!
# The arguments of a call

The arguments of a call are evaluated one after the other. Meanwhile the call is pending, also while
the evaluation is suspended because an argument calls a procedure for its value. When the last
argument has its value, the call is made with the values in the order of the arguments.

## Main statements

* `Machine.hands_move`: how a move hands on what is being evaluated.
* `Machine.Gathers.calling`: a call is made with the values of its arguments.
* `Machine.gathers_of_reaches`: each call that a run makes is made so.

Nothing is assumed of native functions here.
-/

namespace Blockwork

namespace Machine

/-! ## How evaluations are handed on -/

/-- What a move makes of the evaluation that is worked on, and of those that are suspended. -/
inductive Hands (m : Machine) : Machine → Prop where
  /-- Nothing is worked on. -/
  | rests {n : Machine} (nothing : n.activity.around? = none)
      (fewer : n.suspended <:+ m.suspended) :
      Hands m n
  | begins {n : Machine} {e : Expr} {purpose : Purpose}
      (evaluates : n.activity = .evaluating e ⟨purpose, []⟩) (same : n.suspended = m.suspended) :
      Hands m n
  /-- There is no value to be used, and no call to be made yet. -/
  | keeps {n : Machine} {around : Evaluation} (before : m.activity.around? = some around)
      (unused : ∀ value inner, m.activity ≠ .delivering value inner)
      (after : n.activity.around? = some around)
      (uncalled : ∀ callee values inner, n.activity ≠ .calling callee values inner)
      (same : n.suspended = m.suspended) : Hands m n
  | applies {callee : Callee} {arguments : List Expr} {around : Evaluation}
      (before : m.activity = .evaluating (callee.applied arguments) around) :
      Hands m (m.gather callee [] around.purpose around.calls arguments)
  | delivers {value : Value} {purpose : Purpose} {c : PendingCall} {outer : List PendingCall}
      (before : m.activity = .delivering value ⟨purpose, c :: outer⟩) :
      Hands m (m.gather c.callee (value :: c.values) purpose outer c.rest)
  | suspends {n : Machine} {s : Suspension} (before : m.activity.around? = some s.evaluation)
      (unused : ∀ value inner, m.activity ≠ .delivering value inner)
      (nothing : n.activity.around? = none) (suspended : n.suspended = s :: m.suspended) : Hands m n
  | resumes {n : Machine} {value : Value} {s : Suspension}
      (delivers : n.activity = .delivering value s.evaluation)
      (suspended : m.suspended = s :: n.suspended) : Hands m n

section

variable {m n : Machine} {around : Evaluation}

theorem suspended_pushBody (first stop : Nat) (kind : FrameKind) :
    (m.pushBody first stop kind).suspended = m.suspended := by
  unfold pushBody
  split
  · rfl
  · exact suspended_push

theorem Hands.go_on (same : n.suspended = m.suspended) : m.Hands n.schedule := by
  have fewer : n.schedule.suspended <:+ m.suspended := by
    show n.suspended <:+ m.suspended
    exact same ▸ List.suffix_rfl
  exact .rests rfl fewer

theorem hands_finish (outcome : Outcome) : m.Hands (n.finish outcome) :=
  .rests rfl (List.nil_suffix)

theorem hands_giveBack (value : Value) : m.Hands (m.giveBack value) := by
  have same : (m.leave m.frames).suspended = m.suspended := suspended_leave
  unfold giveBack
  simp only
  split
  · exact .go_on same
  · split
    · exact hands_finish _
    · next s outer suspended => exact .resumes rfl (same.symm.trans suspended)

theorem hands_conclude (value : Value) (purpose : Purpose) :
    m.Hands (m.conclude value purpose) := by
  have past (close : Nat) : (m.jumpPast close).suspended = m.suspended := suspended_updateTop _
  have body (close first stop : Nat) (kind : FrameKind) :
      ((m.jumpPast close).pushBody first stop kind).suspended = m.suspended :=
    (suspended_pushBody first stop kind).trans (past close)
  cases purpose with
  | statement => exact .go_on rfl
  | times opener close =>
    cases number : value.expectNumber with
    | error e =>
      rw [conclude_times_error number]
      exact hands_finish _
    | ok x =>
      rw [conclude_times number]
      split
      · exact .go_on (past close)
      · exact .go_on (body _ _ _ _)
  | firstTest opener close =>
    rw [conclude_firstTest]
    split
    · exact .go_on (past close)
    · exact .go_on (body _ _ _ _)
  | retest =>
    rw [conclude_retest]
    split
    · exact .go_on suspended_pop
    · exact .go_on (suspended_updateTop _)
  | branch opener otherwise close =>
    rw [conclude_branch]
    split
    · exact .go_on (body _ _ _ _)
    · exact .go_on (past close)
  | giveBack => exact hands_giveBack value

theorem hands_performNext (f : Frame) : m.Hands (m.performNext f) := by
  cases op : f.plan.ops[f.next]? with
  | none =>
    rw [performNext_none op]
    exact .go_on suspended_beginNext
  | some op' =>
    rw [performNext_some op]
    cases op' with
    | marker => exact .go_on suspended_beginNext
    | forever close =>
      refine .go_on ?_
      rw [suspended_pushBody, jumpPast, suspended_updateTop, suspended_beginNext]
    | statement e | repeatTimes e close | repeatUntil e close | ifThen e otherwise close
    | giveBack e => exact .begins rfl suspended_beginNext

theorem hands_endOfFrame (f : Frame) : m.Hands (m.endOfFrame f) := by
  unfold endOfFrame
  split
  · exact .go_on suspended_pop
  · exact .go_on suspended_pop
  · exact .go_on suspended_pop
  · exact .go_on (suspended_updateTop _)
  · split
    · exact .go_on ((suspended_updateTop _).trans (suspended_updateTop _))
    · exact .go_on suspended_pop
  · simp only
    split
    · exact .begins rfl (suspended_updateTop _)
    · exact .go_on (suspended_pop.trans (suspended_updateTop _))

theorem hands_dispatch : m.Hands m.dispatch := by
  unfold dispatch
  split
  · split <;> exact hands_finish _
  · split
    · exact hands_finish _
    · split
      · exact hands_finish _
      · split
        · exact hands_endOfFrame _
        · exact hands_performNext _

theorem hands_returned (before : m.activity.around? = some around)
    (unused : ∀ value inner, m.activity ≠ .delivering value inner)
    (same : n.suspended = m.suspended) (definition : String) (value : Option Value) :
    m.Hands (n.returned definition value around) := by
  cases value with
  | some value => exact .keeps before unused rfl nofun same
  | none =>
    rw [returned_none]
    split
    · exact hands_finish _
    · exact .go_on same

theorem hands_enterProcedure (before : m.activity.around? = some around)
    (unused : ∀ value inner, m.activity ≠ .delivering value inner) (definition : String)
    (body : ChainId) (parameters : List String) (arguments : List Value) :
    m.Hands (m.enterProcedure definition body parameters arguments
      (if around.wantsValue then some around else none)) := by
  unfold enterProcedure
  split
  · exact hands_finish _
  · split
    · exact hands_finish _
    · split
      · exact .suspends (s := ⟨definition, m.frames.length, around⟩) before unused rfl rfl
      · exact .go_on rfl

theorem hands_call {callee : Callee} {arguments : List Value}
    (activity : m.activity = .calling callee arguments around) :
    m.Hands (m.call arguments around callee) := by
  have before : m.activity.around? = some around := by rw [activity]; rfl
  have unused (value : Value) (inner : Evaluation) : m.activity ≠ .delivering value inner := by
    rw [activity]
    exact nofun
  cases callee with
  | native definition function =>
    rw [call_native]
    cases (function m.surroundings arguments).1 with
    | returned value => exact hands_returned (n := m.within _) before unused rfl definition value
    | failed error => exact hands_finish _
    | panicked message => exact .rests rfl List.suffix_rfl
    | waiting wait value => exact .keeps before unused rfl nofun rfl
  | procedure definition body parameters =>
    rw [call_procedure]
    exact hands_enterProcedure before unused definition body parameters arguments

/-- **How a move hands on what is being evaluated.** -/
theorem hands_move (m : Machine) : m.Hands m.move := by
  have moves := m.moves
  generalize m.move = n at moves ⊢
  cases moves with
  | idle activity => exact .rests (by rw [activity]; rfl) List.suffix_rfl
  | halts halted => exact .rests (around?_of_isOver halted) List.suffix_rfl
  | dispatches activity => exact hands_dispatch
  | gives activity =>
    refine .keeps (by rw [activity]; rfl) ?_ rfl ?_ rfl
    · rw [activity]
      rintro _ _ ⟨⟩
    · rintro _ _ _ ⟨⟩
  | applies activity => exact .applies activity
  | concludes activity => exact hands_conclude _ _
  | delivers activity => exact .delivers activity
  | calls activity => exact hands_call activity
  | resumes activity =>
    refine hands_returned (by rw [activity]; rfl) ?_ rfl _ _
    rw [activity]
    rintro _ _ ⟨⟩

/-! ## The values of arguments -/

/-- The machine goes from the one state to the other, and meanwhile no value is used of what is
evaluated around something, with as many evaluations suspended as there are in the first state. -/
inductive Seeks (m : Machine) (around : Evaluation) : Machine → Prop where
  | here : Seeks m around m
  | work {n : Machine} (h : Seeks m around n) (unused : n.suspended.length = m.suspended.length →
      ∀ value, n.activity ≠ .delivering value around) : Seeks m around n.move
  | stop {n : Machine} (h : Seeks m around n) : Seeks m around n.requestStop

/-- What is evaluated around something in the first state has the value in the second one, and that
is about to be used. -/
structure Obtains (m : Machine) (around : Evaluation) (value : Value) (n : Machine) : Prop where
  seeks : m.Seeks around n
  level : n.suspended.length = m.suspended.length
  delivers : n.activity = .delivering value around

end

end Machine

/-- What surrounds an argument of a call, given the values of the arguments before it and the
arguments behind it. -/
def Evaluation.argument (around : Evaluation) (callee : Callee) (values : List Value)
    (rest : List Expr) : Evaluation :=
  ⟨around.purpose, ⟨callee, values.reverse, rest⟩ :: around.calls⟩

namespace Machine

/-- The call that is evaluated in the first state has the values of its first arguments in the
second one. Each of them was obtained by evaluating the argument, when those before it had
theirs. -/
inductive Gathers (m : Machine) (callee : Callee) (arguments : List Expr) (around : Evaluation) :
    List Value → Machine → Prop where
  | begins (evaluates : m.activity = .evaluating (callee.applied arguments) around) :
      Gathers m callee arguments around [] m.move
  | next {values : List Value} {value : Value} {k n : Machine}
      (h : Gathers m callee arguments around values k) (more : values.length < arguments.length)
      (obtains : k.Obtains
        (around.argument callee values (arguments.drop (values.length + 1))) value n) :
      Gathers m callee arguments around (values ++ [value]) n.move
  | stop {values : List Value} {n : Machine} (h : Gathers m callee arguments around values n) :
      Gathers m callee arguments around values n.requestStop

section

variable {m n k : Machine} {around : Evaluation} {callee : Callee} {arguments : List Expr}
  {values : List Value} {value : Value}

theorem activity_gather (m k : Machine) (callee : Callee) (values : List Value) (purpose : Purpose)
    (outer : List PendingCall) (arguments : List Expr) :
    (m.gather callee values purpose outer arguments).activity =
      (k.gather callee values purpose outer arguments).activity := by
  cases arguments <;> rfl

theorem suspended_gather (m : Machine) (callee : Callee) (values : List Value) (purpose : Purpose)
    (outer : List PendingCall) (arguments : List Expr) :
    (m.gather callee values purpose outer arguments).suspended = m.suspended := by
  cases arguments <;> rfl

namespace Gathers

/-- The arguments that have no values yet are still to be evaluated. -/
theorem activity (h : m.Gathers callee arguments around values n) :
    values.length ≤ arguments.length ∧
      n.activity = (n.gather callee values.reverse around.purpose around.calls
        (arguments.drop values.length)).activity := by
  induction h with
  | begins evaluates =>
    refine ⟨Nat.zero_le _, ?_⟩
    rw [move_applied evaluates]
    exact activity_gather _ _ _ _ _ _ _
  | @next values value k n h more obtains ih =>
    rw [move_deliver obtains.delivers, List.reverse_append, List.length_append]
    refine ⟨more, ?_⟩
    exact activity_gather _ _ _ _ _ _ _
  | stop h ih => exact ⟨ih.1, ih.2.trans (activity_gather _ _ _ _ _ _ _)⟩

/-- **A call is made with the values of its arguments, in their order.** -/
theorem calling (h : m.Gathers callee arguments around values n)
    (all : values.length = arguments.length) : n.activity = .calling callee values around := by
  rw [h.activity.2, all, List.drop_length, gather, List.reverse_reverse]

/-- The next argument is evaluated. -/
theorem evaluating (h : m.Gathers callee arguments around values n)
    (more : values.length < arguments.length) :
    n.activity = .evaluating arguments[values.length]
      (around.argument callee values (arguments.drop (values.length + 1))) := by
  rw [h.activity.2, List.drop_eq_getElem_cons more]
  rfl

theorem evaluates (h : m.Gathers callee arguments around values n) :
    m.activity = .evaluating (callee.applied arguments) around := by
  induction h with
  | begins evaluates => exact evaluates
  | next h more obtains ih => exact ih
  | stop h ih => exact ih

end Gathers

/-! ## The calls of a run -/

/-- The arguments of pending calls are being evaluated, with so many evaluations suspended: each
call has gathered the values that it has, and seeks the next one. -/
inductive Pends (m₀ n : Machine) (level : Nat) (purpose : Purpose) : List PendingCall → Prop where
  | nil : Pends m₀ n level purpose []
  | cons {m k : Machine} {callee : Callee} {arguments : List Expr} {values : List Value}
      {outer : List PendingCall} (below : Pends m₀ n level purpose outer) (reaches : Reaches m₀ m)
      (gathers : m.Gathers callee arguments ⟨purpose, outer⟩ values k)
      (more : values.length < arguments.length) (same : k.suspended.length = level)
      (seeks : k.Seeks (.argument ⟨purpose, outer⟩ callee values
        (arguments.drop (values.length + 1))) n) :
      Pends m₀ n level purpose
        (⟨callee, values.reverse, arguments.drop (values.length + 1)⟩ :: outer)

/-- All calls that are pending gather their values, and so has the one that is made. -/
structure Tracked (m₀ n : Machine) : Prop where
  reaches : Reaches m₀ n
  works : ∀ around, n.activity.around? = some around →
    Pends m₀ n n.suspended.length around.purpose around.calls
  calls : ∀ callee values around, n.activity = .calling callee values around →
    ∃ m arguments, Reaches m₀ m ∧ m.Gathers callee arguments around values n ∧
      values.length = arguments.length
  waits : ∀ s outer, s :: outer <:+ n.suspended →
    Pends m₀ n outer.length s.evaluation.purpose s.evaluation.calls

variable {m₀ : Machine} {level : Nat} {purpose : Purpose} {calls : List PendingCall}

/-- A move uses a value of one call only, the innermost one. -/
theorem Pends.work (h : Pends m₀ n level purpose calls)
    (unused : n.suspended.length = level → ∀ value inner, n.activity = .delivering value inner →
      calls.length < inner.calls.length) : Pends m₀ n.move level purpose calls := by
  induction h with
  | nil => exact .nil
  | cons below reaches gathers more same seeks ih =>
    refine .cons (ih ?_) reaches gathers more same (seeks.work ?_)
    · intro is value inner delivers
      exact Nat.lt_of_succ_lt (unused is value inner delivers)
    · intro is value delivers
      exact Nat.lt_irrefl _ (unused (is.trans same) value _ delivers)

theorem Pends.stop (h : Pends m₀ n level purpose calls) :
    Pends m₀ n.requestStop level purpose calls := by
  induction h with
  | nil => exact .nil
  | cons below reaches gathers more same seeks ih =>
    exact .cons ih reaches gathers more same seeks.stop

namespace Tracked

/-- The evaluations that are suspended stay so, or one of them is gone on with. -/
theorem waits_move (h : Tracked m₀ n) {s : Suspension} {outer : List Suspension}
    (among : s :: outer <:+ n.suspended) :
    Pends m₀ n.move outer.length s.evaluation.purpose s.evaluation.calls := by
  refine (h.waits s outer among).work fun level => ?_
  have le : (s :: outer).length ≤ n.suspended.length := among.length_le
  rw [level] at le
  exact absurd le (Nat.not_succ_le_self _)

/-- A call that has gathered some values goes on with the next one, or it is made. -/
theorem of_gathers (reached : Reaches m₀ n) (reaches : Reaches m₀ m)
    (gathers : m.Gathers callee arguments around values n)
    (below : Pends m₀ n n.suspended.length around.purpose around.calls)
    (waits : ∀ s outer, s :: outer <:+ n.suspended →
      Pends m₀ n outer.length s.evaluation.purpose s.evaluation.calls) : Tracked m₀ n := by
  rcases Nat.lt_or_eq_of_le gathers.activity.1 with more | all
  · have activity := gathers.evaluating more
    refine ⟨reached, ?_, ?_, waits⟩
    · intro inner works
      rw [activity] at works
      cases works
      exact .cons below reaches gathers more rfl .here
    · intro callee values inner calls
      rw [activity] at calls
      cases calls
  · have activity := gathers.calling all
    refine ⟨reached, ?_, ?_, waits⟩
    · intro inner works
      rw [activity] at works
      cases works
      exact below
    · intro callee values inner calls
      rw [activity] at calls
      cases calls
      exact ⟨m, arguments, reaches, gathers, all⟩

/-- **A move keeps track of the values that are gathered.** -/
theorem move (h : Tracked m₀ n) : Tracked m₀ n.move := by
  have hands := hands_move n
  have waits (s : Suspension) (outer : List Suspension) (among : s :: outer <:+ n.suspended) :=
    h.waits_move among
  have reached : Reaches m₀ n.move := h.reaches.work
  generalize eq : n.move = o at hands
  cases hands with
  | rests nothing fewer =>
    refine ⟨eq ▸ reached, ?_, ?_, ?_⟩
    · intro around works
      rw [nothing] at works
      cases works
    · intro callee values around calls
      rw [calls] at nothing
      cases nothing
    · intro s outer among
      exact eq ▸ waits s outer (among.trans fewer)
  | begins evaluates same =>
    refine ⟨eq ▸ reached, ?_, ?_, ?_⟩
    · intro around works
      rw [evaluates] at works
      cases works
      exact .nil
    · intro callee values around calls
      rw [evaluates] at calls
      cases calls
    · intro s outer among
      exact eq ▸ waits s outer (same ▸ among)
  | @keeps _ around before unused after uncalled same =>
    refine ⟨eq ▸ reached, ?_, ?_, ?_⟩
    · intro around' works
      obtain rfl : around = around' := Option.some.inj (after.symm.trans works)
      rw [same, ← eq]
      exact (h.works around before).work fun _ value inner delivers =>
        absurd delivers (unused value inner)
    · intro callee values around calls
      exact absurd calls (uncalled callee values around)
    · intro s outer among
      exact eq ▸ waits s outer (same ▸ among)
  | @applies callee arguments around before =>
    have same : n.move.suspended = n.suspended := by rw [eq, suspended_gather]
    rw [← eq]
    refine of_gathers reached h.reaches (.begins before) ?_ ?_
    · rw [same]
      refine (h.works around (by rw [before]; rfl)).work fun _ value inner delivers => ?_
      rw [before] at delivers
      cases delivers
    · rw [same]
      exact waits
  | @delivers value purpose c outer before =>
    have same : n.move.suspended = n.suspended := by rw [eq, suspended_gather]
    have pends := h.works ⟨purpose, c :: outer⟩ (by rw [before]; rfl)
    rw [← eq]
    cases pends with
    | cons below reaches gathers more level seeks =>
      refine of_gathers reached reaches (gathers.next more ⟨seeks, level.symm, before⟩) ?_ ?_
      · rw [same]
        refine below.work fun _ value' inner delivers => ?_
        rw [before] at delivers
        cases delivers
        exact Nat.lt_succ_self _
      · rw [same]
        exact waits
  | @suspends _ s before unused nothing suspended =>
    refine ⟨eq ▸ reached, ?_, ?_, ?_⟩
    · intro around works
      rw [nothing] at works
      cases works
    · intro callee values around calls
      rw [calls] at nothing
      cases nothing
    · intro s' outer among
      rw [suspended] at among
      rcases List.suffix_cons_iff.mp among with new | old
      · cases new
        rw [← eq]
        exact (h.works _ before).work fun _ value inner delivers =>
          absurd delivers (unused value inner)
      · exact eq ▸ waits s' outer old
  | @resumes _ value s delivers suspended =>
    refine ⟨eq ▸ reached, ?_, ?_, ?_⟩
    · intro around works
      rw [delivers] at works
      cases works
      exact eq ▸ waits s o.suspended (suspended ▸ List.suffix_rfl)
    · intro callee values around calls
      rw [delivers] at calls
      cases calls
    · intro s' outer among
      refine eq ▸ waits s' outer (among.trans ?_)
      exact suspended ▸ List.suffix_cons s o.suspended

theorem requestStop (h : Tracked m₀ n) : Tracked m₀ n.requestStop := by
  refine ⟨h.reaches.stop, ?_, ?_, ?_⟩
  · intro around works
    exact (h.works around works).stop
  · intro callee values around calls
    obtain ⟨m, arguments, reaches, gathers, all⟩ := h.calls callee values around calls
    exact ⟨m, arguments, reaches, gathers.stop, all⟩
  · intro s outer among
    exact (h.waits s outer among).stop

end Tracked

/-- **Each call that a run makes is made with the values that its arguments were evaluated to,** one
after the other. -/
theorem gathers_of_reaches (rests : m₀.activity.around? = none) (fresh : m₀.suspended = [])
    (reaches : Reaches m₀ n) (calls : n.activity = .calling callee values around) :
    ∃ m arguments, Reaches m₀ m ∧ m.Gathers callee arguments around values n ∧
      values.length = arguments.length := by
  have tracked : Tracked m₀ n := by
    refine reaches.keeps (P := Tracked m₀) ⟨.refl, ?_, ?_, ?_⟩ (fun n h => h.move)
      fun n h => h.requestStop
    · intro around works
      rw [rests] at works
      cases works
    · intro callee values around calls
      rw [calls] at rests
      cases rests
    · intro s outer among
      rw [fresh] at among
      cases List.suffix_nil.mp among
  exact tracked.calls callee values around calls

end

end Machine

end Blockwork
