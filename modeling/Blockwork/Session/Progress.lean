import Blockwork.Session

/-!
# The progress of sessions

A worker that is let go on for some time uses up exactly that time, so every look at a run that has
not ended moves the clock by one interval. A session with a limit therefore ends within the number
of looks that `Session.looksFor` computes for it.

## Main statements

* `Session.clock_work`: the clock after a worker has gone on for some time.
* `Session.drive_looksFor`: a session with a limit ends.
-/

namespace Blockwork

namespace Session

/-! ## One move -/

/-- A move takes time. -/
theorem clock_lt_clock_move {deadline : Nat} {s : Session} (h : s.clock < deadline) :
    s.clock < (s.move deadline).clock := by
  unfold move
  split
  · exact h
  · split
    · split
      · exact Nat.lt_succ_self _
      · split
        · exact Nat.lt_succ_self _
        · next awake =>
          simp only [Bool.or_eq_true, decide_eq_true_eq, not_or] at awake
          exact Nat.lt_min.mpr ⟨Nat.lt_of_not_le awake.2, h⟩
    · split
      · exact h
      · exact Nat.lt_succ_self _

/-- A move does not pass the deadline. -/
theorem clock_move_le {deadline : Nat} {s : Session} (h : s.clock < deadline) :
    (s.move deadline).clock ≤ deadline := by
  unfold move
  split
  · exact Nat.le_refl _
  · split
    · split
      · exact h
      · split
        · exact h
        · exact Nat.min_le_right _ _
    · split
      · exact Nat.le_refl _
      · exact h

/-- A move leaves alone what the session was begun with. -/
theorem move_keeps (deadline : Nat) (s : Session) :
    (s.move deadline).limit = s.limit ∧ (s.move deadline).interval = s.interval := by
  unfold move change interval Controller.work
  repeat' split
  all_goals simp

/-! ## Going on for some time -/

/-- With enough moves, a worker gets to the deadline. -/
theorem clock_workUntil {deadline : Nat} (moves : Nat) {s : Session} (before : s.clock ≤ deadline)
    (enough : deadline ≤ s.clock + moves) : (s.workUntil deadline moves).clock = deadline := by
  induction moves generalizing s with
  | zero => simp only [workUntil]; omega
  | succ moves ih =>
    simp only [workUntil]
    split
    · omega
    · have late : s.clock < (s.move deadline).clock := clock_lt_clock_move (by omega)
      exact ih (clock_move_le (by omega)) (by omega)

/-- Going on leaves alone what the session was begun with. -/
theorem workUntil_keeps (deadline moves : Nat) (s : Session) :
    (s.workUntil deadline moves).limit = s.limit ∧
      (s.workUntil deadline moves).interval = s.interval := by
  induction moves generalizing s with
  | zero => exact ⟨rfl, rfl⟩
  | succ moves ih =>
    simp only [workUntil]
    split
    · exact ⟨rfl, rfl⟩
    · rw [(ih _).1, (ih _).2]
      exact move_keeps deadline s

/-- A worker that goes on for some time uses up that time. -/
theorem clock_work (s : Session) (time : Nat) : (s.work time).clock = s.clock + time :=
  clock_workUntil time (Nat.le_add_right _ _) (Nat.le_refl _)

/-! ## Looks -/

/-- A look at a run that has not ended: its time is not up, and it goes on for one interval. -/
theorem look_none {s t : Session} (h : s.look = .ok (none, t)) :
    (s.limit.any fun limit => limit ≤ s.clock) = false ∧ t = s.work s.interval := by
  unfold look at h
  cases joined : s.controller.tryJoin s.handle with
  | error e => rw [joined] at h; cases h
  | ok r =>
    rw [joined] at h
    obtain ⟨outcome, controller⟩ := r
    cases outcome with
    | some outcome => cases h
    | none =>
      cases late : s.limit.any fun limit => limit ≤ s.clock with
      | true =>
        cases stopped : s.stop with
        | error e => simp [late, stopped, bind, Except.bind] at h
        | ok r => simp [late, stopped, bind, Except.bind, pure, Except.pure] at h
      | false =>
        simp [late, bind, Except.bind, pure, Except.pure] at h
        exact ⟨rfl, h.symm⟩

/-- A session with a limit has ended after enough looks. -/
theorem drive_ne_none {limit looks : Nat} {s t : Session} (has : s.limit = some limit)
    (enough : limit ≤ s.clock + looks * s.interval) : s.drive (looks + 1) ≠ .ok (none, t) := by
  induction looks generalizing s with
  | zero =>
    intro h
    unfold drive at h
    cases seen : s.look with
    | error e => rw [seen] at h; cases h
    | ok r =>
      obtain ⟨outcome, u⟩ := r
      cases outcome with
      | some outcome => rw [seen] at h; cases h
      | none =>
        have late := (look_none seen).1
        simp [has] at late
        omega
  | succ looks ih =>
    intro h
    unfold drive at h
    cases seen : s.look with
    | error e => rw [seen] at h; cases h
    | ok r =>
      obtain ⟨outcome, u⟩ := r
      cases outcome with
      | some outcome => rw [seen] at h; cases h
      | none =>
        obtain rfl := (look_none seen).2
        have keeps := workUntil_keeps (s.clock + s.interval) s.interval s
        rw [seen] at h
        refine ih (s := s.work s.interval) (keeps.1.trans has) ?_ h
        have same : (s.work s.interval).interval = s.interval := keeps.2
        rw [clock_work, same]
        rw [Nat.succ_mul] at enough
        omega

/-- A session with a limit ends within the number of looks that is computed for it. -/
theorem drive_looksFor {limit : Nat} {s t : Session} (has : s.limit = some limit) :
    s.drive (s.looksFor limit) ≠ .ok (none, t) := by
  refine drive_ne_none has (?_ : limit ≤ s.clock + (limit / s.interval + 1) * s.interval)
  have positive : 0 < s.interval := Nat.lt_of_lt_of_le Nat.one_pos (Nat.le_max_left _ _)
  have := Nat.lt_div_mul_add (a := limit) positive
  rw [Nat.succ_mul]
  omega

end Session

end Blockwork
