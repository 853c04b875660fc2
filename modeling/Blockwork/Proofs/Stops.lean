import Blockwork.Proofs.Evaluations
import Blockwork.Proofs.Unseen

/-!
# What a request to stop changes

Only at one place does a machine look whether a stop has been requested. Everywhere else it does the
same with a request and without, except that a native function may be told of it, and then waits
less. So a request that comes while a block is done or a frame ends could as well come after it, and
what has been begun prints what it would have printed.

## Main statements

* `Machine.start_requestStop`, `Machine.performNext_requestStop`, `Machine.endOfFrame_requestStop`:
  a request may come before or after.
* `Machine.meets_requestStop`: evaluations under way come to the same state in spite of a request.
* `Machine.Cooperates.follows`: a run that is stopped has printed what it prints anyway.
-/

namespace Blockwork

namespace Machine

/-! ## Requests before or after -/

section

variable {m : Machine} {around : Evaluation}

theorem requestStop_of_stop (h : m.stop = true) : m.requestStop = m := by
  unfold requestStop
  rw [← h]

/-- A request may come before or after the start of a run. -/
theorem start_requestStop (chain : ChainId) :
    m.requestStop.start chain = (m.start chain).requestStop := by
  rw [requestStop_eq, start_aside rfl, requestStop_eq]

/-- A block that is begun does not depend on a request. -/
theorem performNext_requestStop (f : Frame) :
    m.requestStop.performNext f = (m.performNext f).requestStop := by
  simp only [requestStop_eq, performNext_aside]

/-- What is done at the end of a frame does not depend on a request. -/
theorem endOfFrame_requestStop (f : Frame) :
    m.requestStop.endOfFrame f = (m.endOfFrame f).requestStop := by
  simp only [requestStop_eq, endOfFrame_aside]

theorem react_requestStop (definition : String) (reaction : Reaction) :
    m.requestStop.react definition around reaction =
      (m.react definition around reaction).requestStop := by
  simp only [requestStop_eq, react_aside]

/-- But for native functions, evaluations under way do not depend on a request. -/
theorem move_requestStop (h : m.activity.around? = some around)
    (own : ∀ definition function arguments around,
      m.activity ≠ .calling (.native definition function) arguments around) :
    m.requestStop.move = m.move.requestStop := by
  have looks : m.activity ≠ .scheduling := by
    intro activity
    rw [activity] at h
    cases h
  rw [requestStop_eq, requestStop_eq]
  exact move_aside (.inr ⟨looks, own⟩) fun _ _ _ _ _ _ => alike_past _ _ _ _

end

/-! ## Native functions that are told of a request -/

section

variable {m n : Machine} {around : Evaluation}

/-- An answer is used once the wait in it is over. -/
theorem exists_settled (m : Machine) (definition : String) (around : Evaluation)
    (reaction : Reaction) :
    ∃ i, move^[i] (m.react definition around reaction) =
      m.react definition around reaction.settled := by
  cases reaction with
  | waiting wait value =>
    refine ⟨1, ?_⟩
    rw [Function.iterate_one]
    exact move_waiting rfl
  | _ => exact ⟨0, rfl⟩

/-- Evaluations under way come to the same state with a request and without, but perhaps after
waits of their own. -/
theorem meets_requestStop (h : m.activity.around? = some around)
    (cooperative : ∀ definition function arguments around,
      m.activity = .calling (.native definition function) arguments around →
        function.Cooperative) :
    ∃ i j, move^[i + 1] m.requestStop = (move^[j + 1] m).requestStop := by
  rcases own_or_reacts m with own | ⟨definition, function, arguments, around', activity, moved⟩
  · exact ⟨0, 0, move_requestStop h own⟩
  · have same : m.requestStop.activity = .calling (.native definition function) arguments around' :=
      activity
    obtain ⟨keeps, -, -, deaf⟩ := cooperative _ _ _ _ activity
    obtain ⟨settled, env, output⟩ := deaf m.surroundings arguments
    have told : m.requestStop.surroundings = { m.surroundings with stop := true } := rfl
    have stop := keeps m.requestStop.surroundings arguments rfl
    rw [← told] at settled env output
    have within : m.requestStop.within (function m.requestStop.surroundings arguments).2 =
        (m.within (function m.surroundings arguments).2).requestStop := by
      unfold Machine.within
      rw [env, output, stop]
      rfl
    obtain ⟨i, there⟩ := exists_settled
      (m.requestStop.within (function m.requestStop.surroundings arguments).2) definition around'
      (function m.requestStop.surroundings arguments).1
    obtain ⟨j, here⟩ := exists_settled (m.within (function m.surroundings arguments).2) definition
      around' (function m.surroundings arguments).1
    refine ⟨i, j, ?_⟩
    rw [Function.iterate_succ_apply, Function.iterate_succ_apply, moved, here,
      move_calling same, call_native, there, settled, within, react_requestStop]

/-- Every native function that the machine may call is cooperative. -/
abbrev Cooperates (m : Machine) : Prop :=
  m.All (fun f _ => f.Cooperative) (fun _ => True) fun _ => True

theorem Cooperates.iterate (h : m.Cooperates) (k : Nat) : (move^[k] m).Cooperates :=
  h.reaches (covers_all _) (reaches_iterate m k)

theorem Cooperates.callee (h : m.Cooperates) {definition : String} {function : Native}
    {arguments : List Value}
    (activity : m.activity = .calling (.native definition function) arguments around) :
    function.Cooperative := by
  have is := h.activity
  rw [activity] at is
  exact is.1

/-- A request is never taken back. -/
theorem Cooperates.stop_move (h : m.Cooperates) (stop : m.stop = true) : m.move.stop = true := by
  rcases own_or_reacts m with own | ⟨definition, function, arguments, around, activity, moved⟩
  · rw [(kept_move own).stop, stop]
  · rw [moved, (kept_react _ _ _ _).stop]
    exact (h.callee activity).keeps m.surroundings arguments stop

/-- What has been printed stays printed. -/
theorem Cooperates.extended_move (h : m.Cooperates) : m.output.Extended m.move.output := by
  rcases own_or_reacts m with own | ⟨definition, function, arguments, around, activity, moved⟩
  · rw [(kept_move own).output]
    exact .refl _
  · rw [moved, (kept_react _ _ _ _).output]
    exact (h.callee activity).prints m.surroundings arguments

theorem Cooperates.extended_iterate (h : m.Cooperates) {j k : Nat} (le : j ≤ k) :
    (move^[j] m).output.Extended (move^[k] m).output := by
  induction le with
  | refl => exact .refl _
  | step _ ih =>
    rw [Function.iterate_succ_apply']
    exact ih.trans (h.iterate _).extended_move

/-- With a request, a machine that looks what to do next ends its run. -/
theorem dispatch_of_stop (h : m.stop = true) : ∃ outcome, m.dispatch = m.finish outcome := by
  unfold dispatch
  split
  · split
    · exact ⟨_, rfl⟩
    · exact ⟨_, rfl⟩
  · exact ⟨_, rfl⟩

/-- With a request, a machine that works on no expression prints nothing more. -/
theorem output_requestStop (rests : m.activity.around? = none) (k : Nat) :
    (move^[k] m.requestStop).output = m.output := by
  cases activity : m.activity with
  | scheduling =>
    obtain ⟨outcome, ended⟩ := dispatch_of_stop (m := m.requestStop) rfl
    cases k with
    | zero => rfl
    | succ k =>
      rw [Function.iterate_succ_apply, move_scheduling (by exact activity), ended,
        iterate_of_isOver rfl]
      rfl
  | idle =>
    have idle : m.requestStop.move = m.requestStop := by
      simp only [move, step, show m.requestStop.activity = .idle from activity]
    rw [Function.iterate_fixed idle]
    rfl
  | ended outcome =>
    rw [iterate_of_isOver (by simp [isOver, requestStop, activity])]
    rfl
  | panicked message =>
    rw [iterate_of_isOver (by simp [isOver, requestStop, activity])]
    rfl
  | evaluating _ _ | delivering _ _ | calling _ _ _ | waiting _ _ _ _ =>
    rw [activity] at rests
    cases rests

/-- **A run that ends after a request has printed what it prints without one,** up to some point. -/
theorem Cooperates.follows (h : m.Cooperates) {k : Nat}
    (halted : (move^[k] m.requestStop).isOver) :
    ∃ j, (move^[k] m.requestStop).output = (move^[j] m).output := by
  -- by induction on the moves after the request: the two runs meet again at each expression
  induction k using Nat.strongRecOn generalizing m with
  | ind k ih =>
    by_cases rests : m.activity.around? = none
    · exact ⟨0, output_requestStop rests k⟩
    · obtain ⟨around, works⟩ := Option.ne_none_iff_exists'.mp rests
      obtain ⟨i, j, meet⟩ := meets_requestStop works fun _ _ _ _ activity => h.callee activity
      by_cases le : i + 1 ≤ k
      · obtain ⟨l, rfl⟩ := Nat.exists_eq_add_of_le' le
        rw [Function.iterate_add_apply, meet] at halted ⊢
        obtain ⟨j', same⟩ := ih l (by omega) (h.iterate (j + 1)) halted
        refine ⟨j' + (j + 1), ?_⟩
        rw [same, ← Function.iterate_add_apply]
      · -- the run was over before the two could meet, and stays so
        obtain ⟨l, long⟩ := Nat.exists_eq_add_of_le' (Nat.le_of_not_le le)
        have stays : move^[i + 1] m.requestStop = move^[k] m.requestStop := by
          rw [long, Function.iterate_add_apply, iterate_of_isOver halted]
        refine ⟨j + 1, ?_⟩
        rw [← stays, meet]
        rfl

end

end Machine

end Blockwork
