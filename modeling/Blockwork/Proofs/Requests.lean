import Blockwork.Proofs.Workers

/-!
# What a controller is asked, and what it answers

A controller is asked one thing after another, while the worker of its run goes on. Between two
requests the worker may act in any way, and so it may while a caller waits for an answer. How long a
caller waits at most is a matter of time, which is not counted here: a caller that asks for a stop
may give up at any moment.

## Main statements

* `Controller.exists_takes`: what an answer comes to, after what the worker has done meanwhile.
* `Controller.exists_answers`: which requests are answered at once.
-/

namespace Blockwork

open Relation

/-- What a controller is asked. -/
inductive Request where
  | start (program : Program) (chain : ChainId) (output : Output)
  | tryJoin (handle : RunHandle)
  | join (handle : RunHandle)
  | requestStop (handle : RunHandle)
  /-- To stop the run, and to wait for it for some time. -/
  | stopWithin (handle : RunHandle)
  | free (handle : RunHandle)
  | snapshot (handle : RunHandle)
  | resources (handle : RunHandle)

/-- The run that a request is about. -/
def Request.handle? : Request → Option RunHandle
  | .start .. => none
  | .tryJoin h | .join h | .requestStop h | .stopWithin h | .free h | .snapshot h | .resources h =>
    some h

/-- Whether a request asks how the run has ended. -/
def Request.asksOutcome : Request → Bool
  | .tryJoin _ | .join _ | .stopWithin _ => true
  | _ => false

/-- What a controller answers. -/
inductive Answer where
  | started (handle : RunHandle)
  /-- There is no thread for the worker. -/
  | unspawned
  /-- The run has not ended yet. -/
  | pending
  | reported (outcome : Outcome)
  | done
  | seen (snapshot : Option Snapshot)
  | held (gauge : Gauge)
  | refused (error : ControllerError)

/-- Why a result is refused, if it is. -/
def refusalOf {α : Type} : Except ControllerError α → Option ControllerError
  | .ok _ => none
  | .error e => some e

namespace Controller

/-! ## Requests and answers -/

/-- The worker of the run does something. -/
inductive Acts : Controller → Controller → Prop where
  | worker {c : Controller} {run : ActiveRun} {w : Worker} (owned : c.run = some run)
      (acts : run.worker.Acts w) : Acts c { c with run := some { run with worker := w } }

/-- Why a request is refused, if it is. That is known before there is anything to wait for. -/
def refusal? (c : Controller) : Request → Option ControllerError
  | .start p chain output => refusalOf (c.launch p chain output)
  | .tryJoin h | .join h => refusalOf (c.tryJoin h)
  | .requestStop h | .stopWithin h => refusalOf (c.requestStop h)
  | .free h => refusalOf (c.free h)
  | .snapshot h => refusalOf (c.snapshot h)
  | .resources h => refusalOf (c.resources h)

/-- A request, its answer, and what has become of the controller when it is given. -/
inductive Answers (c : Controller) : Request → Answer → Controller → Prop where
  | started {p : Program} {chain : ChainId} {output : Output} {h : RunHandle} {c' : Controller}
      (starts : c.launch p chain output = .ok (h, c')) :
      Answers c (.start p chain output) (.started h) c'
  /-- The number of the run is used up all the same. -/
  | unspawned {p : Program} {chain : ChainId} {output : Output} {h : RunHandle} {c' : Controller}
      (starts : c.launch p chain output = .ok (h, c')) :
      Answers c (.start p chain output) .unspawned { c with next := c'.next }
  | pending {h : RunHandle} {c' : Controller} (joins : c.tryJoin h = .ok (none, c')) :
      Answers c (.tryJoin h) .pending c'
  | reported {h : RunHandle} {o : Outcome} {c' : Controller}
      (joins : c.tryJoin h = .ok (some o, c')) : Answers c (.tryJoin h) (.reported o) c'
  /-- The caller waits until the run has ended. -/
  | joined {h : RunHandle} {o : Outcome} {c₁ c' : Controller} (waits : ReflTransGen Acts c c₁)
      (joins : c₁.tryJoin h = .ok (some o, c')) : Answers c (.join h) (.reported o) c'
  | asked {h : RunHandle} {c' : Controller} (asks : c.requestStop h = .ok c') :
      Answers c (.requestStop h) .done c'
  /-- The caller asks for a stop, and the run ends while it waits. -/
  | stopped {h : RunHandle} {o : Outcome} {c₁ c₂ c' : Controller}
      (asks : c.requestStop h = .ok c₁) (waits : ReflTransGen Acts c₁ c₂)
      (joins : c₂.tryJoin h = .ok (some o, c')) : Answers c (.stopWithin h) (.reported o) c'
  /-- The caller asks for a stop, and gives up. The worker may go on before the failure is
  located. -/
  | forced {h : RunHandle} {run : ActiveRun} {c₁ c₂ c₃ : Controller}
      (asks : c.requestStop h = .ok c₁) (waits : ReflTransGen Acts c₁ c₂)
      (pends : c₂.tryJoin h = .ok (none, c₂)) (goes : ReflTransGen Acts c₂ c₃)
      (is : c₃.owned h = .ok run) :
      Answers c (.stopWithin h) (.reported (run.worker.failure .forcedTermination))
        (c₃.settle run (run.worker.failure .forcedTermination))
  | freed {h : RunHandle} {c' : Controller} (frees : c.free h = .ok c') :
      Answers c (.free h) .done c'
  | seen {h : RunHandle} {s : Option Snapshot} (looks : c.snapshot h = .ok s) :
      Answers c (.snapshot h) (.seen s) c
  /-- The two counts are looked at one after the other. -/
  | held {h : RunHandle} {g g' : Gauge} {c' : Controller} (looks : c.resources h = .ok g)
      (goes : ReflTransGen Acts c c') (again : c'.resources h = .ok g') :
      Answers c (.resources h) (.held ⟨g.frames, g'.scopes⟩) c'
  | refused {r : Request} {e : ControllerError} (refuses : c.refusal? r = some e) :
      Answers c r (.refused e) c

variable {c c' : Controller} {run : ActiveRun} {h : RunHandle} {e : ControllerError} {o : Outcome}

/-! ## The owned run -/

theorem owned_eq_ok : c.owned h = .ok run ↔ c.run = some run ∧ run.handle = h := by
  unfold owned
  cases owned : c.run with
  | none => simp
  | some other =>
    by_cases same : other.handle = h
    · simp only [same, if_true, Except.ok.injEq, Option.some.injEq]
      constructor
      · rintro rfl
        exact ⟨rfl, same⟩
      · exact And.left
    · simp only [same, if_false, Option.some.injEq]
      constructor
      · exact nofun
      · rintro ⟨rfl, same'⟩
        exact absurd same' same

/-- A handle that is not that of the run is not known. -/
theorem owned_eq_error : c.owned h = .error e ↔
    e = .unknownRun h ∧ ∀ run, c.run = some run → run.handle ≠ h := by
  unfold owned
  cases owned : c.run with
  | none =>
    simp only [Except.error.injEq, reduceCtorEq, false_implies, implies_true, and_true]
    exact eq_comm
  | some other =>
    by_cases same : other.handle = h
    · simp [same]
    · simp only [same, if_false, Except.error.injEq, Option.some.injEq, forall_eq', ne_eq,
        not_false_eq_true, and_true]
      exact eq_comm

theorem owned_run (owned : c.run = some run) : c.owned run.handle = .ok run :=
  owned_eq_ok.mpr ⟨owned, rfl⟩

/-- The worker goes on, and the run stays what it is. -/
theorem work_run (owned : c.run = some run) (change : Worker → Worker) :
    (c.work change).run = some { run with worker := change run.worker } := by
  rw [work, owned]
  rfl

/-- A request that is granted is about the run that is owned. -/
theorem exists_run {α : Type} {f : ActiveRun → Except ControllerError α} {x : α}
    (is : (c.owned h >>= f) = .ok x) :
    ∃ run, c.run = some run ∧ run.handle = h ∧ f run = .ok x := by
  cases owned : c.owned h with
  | error e =>
    rw [owned] at is
    cases is
  | ok run =>
    rw [owned] at is
    obtain ⟨there, same⟩ := owned_eq_ok.mp owned
    exact ⟨run, there, same, is⟩

/-- Whatever is asked of a run that is not owned is refused. -/
theorem refusal?_of_error {r : Request} (about : r.handle? = some h) (is : c.owned h = .error e) :
    c.refusal? r = some e := by
  cases r with
  | start => cases about
  | _ =>
    cases about
    simp only [refusal?, tryJoin, requestStop, free, snapshot, resources, is]
    rfl

/-! ## What an answer comes to -/

/-- How the end of a run is found out for a request: the worker has ended, or the caller has given
up before it had. -/
inductive FindsOut (r : Request) (w : Worker) : Outcome → Prop where
  | ended {o : Outcome} (verdict : w.verdict? = some o) : FindsOut r w o
  | forced {h : RunHandle} {before : Worker} (stops : r = .stopWithin h)
      (verdict : before.verdict? = none) (goes : ReflTransGen Worker.Acts before w) :
      FindsOut r w (w.failure .forcedTermination)

/-- What an answer comes to at the moment it is given. -/
inductive Takes (c : Controller) : Request → Answer → Controller → Prop where
  | starts {p : Program} {chain : ChainId} {output : Output} (alone : c.run = none)
      (sound : p.violations = []) :
      Takes c (.start p chain output) (.started ⟨c.next⟩) (c.launched p chain output)
  | skips {p : Program} {chain : ChainId} {output : Output} :
      Takes c (.start p chain output) .unspawned { c with next := c.next + 1 }
  | repeats {r : Request} {run : ActiveRun} {o : Outcome} (owned : c.run = some run)
      (asks : r.asksOutcome) (about : r.handle? = some run.handle) (known : run.outcome = some o) :
      Takes c r (.reported o) c
  | settles {r : Request} {run : ActiveRun} {o : Outcome} (owned : c.run = some run)
      (asks : r.asksOutcome) (about : r.handle? = some run.handle) (unknown : run.outcome = none)
      (ends : FindsOut r run.worker o) : Takes c r (.reported o) (c.settle run o)
  | frees {run : ActiveRun} {o : Outcome} (owned : c.run = some run)
      (known : run.outcome = some o) : Takes c (.free run.handle) .done { c with run := none }
  | pends {run : ActiveRun} (owned : c.run = some run) (unknown : run.outcome = none) :
      Takes c (.tryJoin run.handle) .pending c
  | asks {run : ActiveRun} (owned : c.run = some run) :
      Takes c (.requestStop run.handle) .done c
  | sees {run : ActiveRun} (owned : c.run = some run) :
      Takes c (.snapshot run.handle) (.seen run.worker.latest) c
  | holds {run : ActiveRun} {g : Gauge} (owned : c.run = some run) :
      Takes c (.resources run.handle) (.held g) c
  | refuses {r : Request} {e : ControllerError} (refuses : c.refusal? r = some e) :
      Takes c r (.refused e) c

/-- What happens to a run that is not answered for: the worker acts, or a stop is requested. -/
inductive Drifts : Controller → Controller → Prop where
  | worker {c : Controller} {run : ActiveRun} {w : Worker} (owned : c.run = some run)
      (goes : run.worker.Acts w ∨ w = run.worker.requestStop) :
      Drifts c { c with run := some { run with worker := w } }

theorem Acts.drifts (acts : Acts c c') : Drifts c c' := by
  cases acts with
  | worker owned acts => exact .worker owned (.inl acts)

theorem drifts_requestStop (owned : c.run = some run) : Drifts c (c.work Worker.requestStop) := by
  rw [work, owned]
  exact .worker owned (.inr rfl)

theorem launch_ok {p : Program} {chain : ChainId} {output : Output}
    (starts : c.launch p chain output = .ok (h, c')) :
    c.run = none ∧ p.violations = [] ∧ h = ⟨c.next⟩ ∧ c' = c.launched p chain output := by
  unfold launch at starts
  cases owned : c.run with
  | some run =>
    rw [owned] at starts
    cases starts
  | none =>
    rw [owned] at starts
    cases violations : p.violations with
    | nil =>
      rw [violations] at starts
      cases starts
      exact ⟨rfl, rfl, rfl, rfl⟩
    | cons v rest =>
      rw [violations] at starts
      cases starts

theorem takes_tryJoin {r : Request} (about : r.handle? = some h) (asks : r.asksOutcome)
    (joins : c.tryJoin h = .ok (some o, c')) : Takes c r (.reported o) c' := by
  obtain ⟨run, owned, rfl, is⟩ := exists_run joins
  cases known : run.outcome with
  | some o =>
    rw [known] at is
    cases is
    exact .repeats owned asks about known
  | none =>
    cases verdict : run.worker.verdict? with
    | some o =>
      rw [known, verdict] at is
      cases is
      exact .settles owned asks about known (.ended verdict)
    | none =>
      rw [known, verdict] at is
      cases is

/-- An outcome is not known yet, and there is none. -/
theorem pends_of_tryJoin (pends : c.tryJoin h = .ok (none, c')) :
    ∃ run, c.run = some run ∧ run.handle = h ∧ run.outcome = none ∧
      run.worker.verdict? = none ∧ c' = c := by
  obtain ⟨run, owned, same, is⟩ := exists_run pends
  refine ⟨run, owned, same, ?_⟩
  cases known : run.outcome with
  | some o =>
    rw [known] at is
    cases is
  | none =>
    cases verdict : run.worker.verdict? with
    | some o =>
      rw [known, verdict] at is
      cases is
    | none =>
      rw [known, verdict] at is
      cases is
      exact ⟨rfl, rfl, rfl⟩

/-- While a caller waits, nothing of a run changes but its worker. -/
theorem exists_worker (waits : ReflTransGen Acts c c') (owned : c.run = some run) :
    ∃ w, ReflTransGen Worker.Acts run.worker w ∧ c'.run = some { run with worker := w } := by
  induction waits with
  | refl => exact ⟨run.worker, .refl, owned⟩
  | tail _ acts ih =>
    obtain ⟨w, acted, owned⟩ := ih
    cases acts with
    | worker owned' acts =>
      cases owned.symm.trans owned'
      exact ⟨_, acted.tail acts, rfl⟩

theorem drifts_of_waits (waits : ReflTransGen Acts c c') : ReflTransGen Drifts c c' :=
  ReflTransGen.mono (fun _ _ => Acts.drifts) _ _ waits

/-- **An answer comes to one of ten things,** after what has happened to the run meanwhile. -/
theorem exists_takes {r : Request} {a : Answer} (answers : c.Answers r a c') :
    ∃ c₁, ReflTransGen Drifts c c₁ ∧ Takes c₁ r a c' := by
  cases answers with
  | started starts =>
    obtain ⟨alone, sound, rfl, rfl⟩ := launch_ok starts
    exact ⟨c, .refl, .starts alone sound⟩
  | unspawned starts =>
    obtain ⟨-, -, -, rfl⟩ := launch_ok starts
    exact ⟨c, .refl, .skips⟩
  | pending joins =>
    obtain ⟨run, owned, rfl, unknown, -, rfl⟩ := pends_of_tryJoin joins
    exact ⟨_, .refl, .pends owned unknown⟩
  | reported joins => exact ⟨c, .refl, takes_tryJoin rfl rfl joins⟩
  | joined waits joins => exact ⟨_, drifts_of_waits waits, takes_tryJoin rfl rfl joins⟩
  | asked asks =>
    obtain ⟨run, owned, rfl, is⟩ := exists_run asks
    cases is
    have takes := Takes.asks (work_run owned Worker.requestStop)
    exact ⟨_, .single (drifts_requestStop owned), takes⟩
  | stopped asks waits joins =>
    obtain ⟨run, owned, rfl, is⟩ := exists_run asks
    cases is
    exact ⟨_, .head (drifts_requestStop owned) (drifts_of_waits waits), takes_tryJoin rfl rfl joins⟩
  | forced asks waits pends goes is' =>
    obtain ⟨run, owned, rfl, is⟩ := exists_run asks
    cases is
    -- the failure is located by the worker that the one which had not ended has become
    obtain ⟨before, there, same, unknown, verdict, -⟩ := pends_of_tryJoin pends
    obtain ⟨w, acted, owned'⟩ := exists_worker goes there
    obtain ⟨owned'', same'⟩ := owned_eq_ok.mp is'
    cases owned'.symm.trans owned''
    have about : (Request.stopWithin run.handle).handle? = some before.handle := by
      rw [same]
      rfl
    have takes := Takes.settles owned'' rfl about unknown (.forced rfl verdict acted)
    exact ⟨_, .head (drifts_requestStop owned) (drifts_of_waits (waits.trans goes)), takes⟩
  | freed frees =>
    obtain ⟨run, owned, rfl, is⟩ := exists_run frees
    cases known : run.outcome with
    | some o =>
      rw [known] at is
      cases is
      exact ⟨c, .refl, .frees owned known⟩
    | none =>
      rw [known] at is
      cases is
  | seen looks =>
    obtain ⟨run, owned, rfl, is⟩ := exists_run looks
    cases is
    exact ⟨_, .refl, .sees owned⟩
  | held looks goes again =>
    obtain ⟨run, owned, rfl, -⟩ := exists_run again
    exact ⟨_, drifts_of_waits goes, .holds owned⟩
  | refused refuses => exact ⟨_, .refl, .refuses refuses⟩

/-! ## What a controller is run by -/

/-- What a worker does is what happens to the run. -/
theorem acts_work (owned : c.run = some run) {change : Worker → Worker}
    (acts : ReflTransGen Worker.Acts run.worker (change run.worker)) :
    ReflTransGen Acts c (c.work change) := by
  have all {w : Worker} (acts : ReflTransGen Worker.Acts run.worker w) :
      ReflTransGen Acts c { c with run := some { run with worker := w } } := by
    induction acts with
    | refl =>
      rw [← owned]
    | @tail w w' _ acts ih =>
      have last : Acts { c with run := some { run with worker := w } } _ := .worker rfl acts
      exact ih.tail last
  rw [work, owned]
  exact all acts

/-- A run that is started goes on by itself. -/
theorem exists_launch {p : Program} {chain : ChainId} {output : Output}
    (starts : c.start p chain output = .ok (h, c')) :
    ∃ c₁, c.launch p chain output = .ok (h, c₁) ∧ ReflTransGen Acts c₁ c' := by
  unfold start at starts
  cases launched : c.launch p chain output with
  | error e =>
    rw [launched] at starts
    cases starts
  | ok started =>
    obtain ⟨h', c₁⟩ := started
    rw [launched] at starts
    cases starts
    obtain ⟨-, -, rfl, rfl⟩ := launch_ok launched
    refine ⟨_, rfl, acts_work rfl ?_⟩
    exact (Worker.acts_catchUp rfl).trans (Worker.acts_close rfl Worker.seen_catchUp)

/-! ## What is refused -/

/-- A request that is refused changes nothing. -/
theorem Answers.eq_of_refused {r : Request} (answers : c.Answers r (.refused e) c') : c' = c := by
  cases answers
  rfl

/-- Whatever the worker does, the run has the same handle. -/
theorem Acts.handle_eq (acts : Acts c c') :
    c'.run.map ActiveRun.handle = c.run.map ActiveRun.handle := by
  cases acts with
  | worker owned acts =>
    rw [owned]
    rfl

theorem handle_eq_of_waits (waits : ReflTransGen Acts c c') :
    c'.run.map ActiveRun.handle = c.run.map ActiveRun.handle := by
  induction waits with
  | refl => rfl
  | tail _ acts ih => rw [acts.handle_eq, ih]

theorem eq_error_of_refusalOf {α : Type} {x : Except ControllerError α}
    (refused : refusalOf x = some e) : x = .error e := by
  cases x with
  | ok a => cases refused
  | error e' =>
    cases refused
    rfl

/-- A start is granted if there is no run and the program is sound. -/
theorem launch_alone {p : Program} (alone : c.run = none) (sound : p.violations = [])
    (chain : ChainId) (output : Output) :
    c.launch p chain output = .ok (⟨c.next⟩, c.launched p chain output) := by
  simp only [launch, alone, sound, Option.isSome_none, Bool.false_eq_true, if_false]

/-- A start is refused because there is a run, or because the program is not sound. -/
theorem launch_error {p : Program} {chain : ChainId} {output : Output}
    (refused : c.launch p chain output = .error e) :
    e = .alreadyRunning ∧ (∃ run, c.run = some run) ∨
      e = .integrity p.violations ∧ p.violations ≠ [] := by
  unfold launch at refused
  cases owned : c.run with
  | some run =>
    rw [owned] at refused
    cases refused
    exact .inl ⟨rfl, run, rfl⟩
  | none =>
    rw [owned] at refused
    cases violations : p.violations with
    | nil =>
      rw [violations] at refused
      cases refused
    | cons v rest =>
      rw [violations] at refused
      cases refused
      exact .inr ⟨rfl, nofun⟩

/-- Who asks how the owned run has ended is not refused. -/
theorem refusal?_of_asksOutcome {r : Request} (owned : c.run = some run)
    (about : r.handle? = some run.handle) (asks : r.asksOutcome) : c.refusal? r = none := by
  cases r with
  | tryJoin h | join h =>
    cases about
    simp only [refusal?, tryJoin, owned_run owned, bind, Except.bind]
    split <;> rfl
  | stopWithin h =>
    cases about
    simp only [refusal?, requestStop, owned_run owned, bind, Except.bind]
    rfl
  | _ => cases asks

/-- Whether a run can be freed depends on whether its outcome is known. -/
theorem free_run (owned : c.run = some run) :
    c.free run.handle = if run.outcome.isNone then .error (.stillRunning run.handle)
      else .ok { c with run := none } := by
  rw [free, owned_run owned]
  rfl

/-- Nothing is granted about another run than the owned one. -/
theorem not_granted {α : Type} {f : ActiveRun → Except ControllerError α} {x : α}
    (other : c.run.map ActiveRun.handle ≠ some h) : (c.owned h >>= f) ≠ .ok x := by
  intro is
  obtain ⟨run, owned, rfl, -⟩ := exists_run is
  rw [owned] at other
  exact other rfl

/-- **A request about another run than the owned one is refused, and changes nothing.** -/
theorem Answers.of_unknown {r : Request} {a : Answer} (answers : c.Answers r a c')
    (about : r.handle? = some h) (other : c.run.map ActiveRun.handle ≠ some h) :
    a = .refused (.unknownRun h) ∧ c' = c := by
  have unknown : c.owned h = .error (.unknownRun h) := by
    refine owned_eq_error.mpr ⟨rfl, fun run owned same => other ?_⟩
    rw [owned, ← same]
    rfl
  have refused := refusal?_of_error about unknown
  cases answers with
  | started | unspawned => cases about
  | pending joins | reported joins =>
    cases about
    exact absurd joins (not_granted other)
  | joined waits joins =>
    -- however long the caller waits, the run that is owned stays the same
    cases about
    exact absurd joins (not_granted (by rwa [handle_eq_of_waits waits]))
  | asked asks | stopped asks | forced asks =>
    cases about
    exact absurd asks (not_granted other)
  | freed frees =>
    cases about
    exact absurd frees (not_granted other)
  | seen looks | held looks =>
    cases about
    exact absurd looks (not_granted other)
  | refused refuses =>
    rw [refused] at refuses
    cases refuses
    exact ⟨rfl, rfl⟩

/-! ## What is answered -/

theorem exists_of_refusalOf {α : Type} {x : Except ControllerError α}
    (granted : refusalOf x = none) : ∃ a, x = .ok a := by
  cases x with
  | ok a => exact ⟨a, rfl⟩
  | error e => cases granted

theorem tryJoin_run (owned : c.run = some run) :
    c.tryJoin run.handle = .ok (match run.outcome, run.worker.verdict? with
      | some o, _ => (some o, c)
      | none, some o => (some o, c.settle run o)
      | none, none => (none, c)) := by
  simp only [tryJoin, owned_run owned, bind, Except.bind]
  cases run.outcome with
  | some o => rfl
  | none => cases run.worker.verdict? <;> rfl

/-- Who gives up gets the outcome that there is, or a failure if there is none. -/
theorem abandon_cases (leaves : c.abandon h = .ok (o, c')) :
    c.tryJoin h = .ok (some o, c') ∨ c.tryJoin h = .ok (none, c) ∧ ∃ run, c.owned h = .ok run ∧
      o = run.worker.failure .forcedTermination ∧ c' = c.settle run o := by
  obtain ⟨run, owned, rfl, is⟩ := exists_run leaves
  rw [tryJoin_run owned]
  cases known : run.outcome with
  | some o =>
    rw [known] at is
    cases is
    exact .inl rfl
  | none =>
    cases verdict : run.worker.verdict? with
    | some o =>
      rw [known, verdict] at is
      cases is
      exact .inl rfl
    | none =>
      rw [known, verdict] at is
      cases is
      exact .inr ⟨rfl, run, owned_run owned, rfl, rfl⟩

/-- A caller that gives up, and finds out at once where the run is. -/
theorem answers_of_abandon {c₁ c₂ : Controller} (asks : c.requestStop h = .ok c₁)
    (waits : ReflTransGen Acts c₁ c₂) (leaves : c₂.abandon h = .ok (o, c')) :
    c.Answers (.stopWithin h) (.reported o) c' := by
  rcases abandon_cases leaves with joins | ⟨pends, run, owned, rfl, rfl⟩
  · exact .stopped asks waits joins
  · exact .forced asks waits pends .refl owned

theorem exists_abandon (owned : c.run = some run) :
    ∃ o c', c.abandon run.handle = .ok (o, c') := by
  rw [abandon, owned_run owned]
  simp only [bind, Except.bind]
  split <;> exact ⟨_, _, rfl⟩

/-- **Every request is answered at once,** but a join waits as long as no outcome is known. -/
theorem exists_answers (r : Request)
    (ready : ∀ run, c.run = some run → r = .join run.handle → run.outcome.isSome) :
    ∃ a c', c.Answers r a c' := by
  cases refusal : c.refusal? r with
  | some e => exact ⟨_, _, .refused refusal⟩
  | none =>
    cases r with
    | start p chain output =>
      obtain ⟨_, is⟩ := exists_of_refusalOf refusal
      exact ⟨_, _, .started is⟩
    | tryJoin h =>
      obtain ⟨⟨outcome, c'⟩, is⟩ := exists_of_refusalOf refusal
      cases outcome with
      | none => exact ⟨_, _, .pending is⟩
      | some o => exact ⟨_, _, .reported is⟩
    | join h =>
      obtain ⟨⟨outcome, c'⟩, joins⟩ := exists_of_refusalOf refusal
      obtain ⟨run, owned, rfl, is⟩ := exists_run joins
      obtain ⟨o, known⟩ := Option.isSome_iff_exists.mp (ready run owned rfl)
      rw [known] at is
      cases is
      exact ⟨_, _, .joined .refl joins⟩
    | requestStop h =>
      obtain ⟨_, is⟩ := exists_of_refusalOf refusal
      exact ⟨_, _, .asked is⟩
    | stopWithin h =>
      obtain ⟨c', asks⟩ := exists_of_refusalOf refusal
      obtain ⟨run, owned, rfl, is⟩ := exists_run asks
      cases is
      have owned' := work_run owned Worker.requestStop
      obtain ⟨o, c', leaves⟩ := exists_abandon owned'
      exact ⟨_, _, answers_of_abandon asks .refl leaves⟩
    | free h =>
      obtain ⟨_, is⟩ := exists_of_refusalOf refusal
      exact ⟨_, _, .freed is⟩
    | snapshot h =>
      obtain ⟨_, is⟩ := exists_of_refusalOf refusal
      exact ⟨_, _, .seen is⟩
    | resources h =>
      obtain ⟨_, is⟩ := exists_of_refusalOf refusal
      exact ⟨_, _, .held is .refl is⟩

end Controller

end Blockwork
