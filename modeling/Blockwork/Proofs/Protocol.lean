import Blockwork.Proofs.Requests
import Mathlib.Data.List.Nodup

/-!
# The protocol of a controller

Whatever a controller is asked, in whatever order, and whatever its worker does meanwhile: it owns
one run at a time, it tells runs apart by their handles, it reports one outcome for a run and stays
with it, and it gives up a run when an outcome has been reported, not before. An outcome that is
reported is the one that the worker has sent, unless the worker has ended without one, or has been
left to itself.

All of this is said of what has been asked and answered (`Controller.History`). What the controller
itself knows agrees with it (`Controller.Agrees`). Runs are numbered without bound.

## Main statements

* `Controller.Agrees.of_history`: a controller knows what it has answered.
* `Controller.protocol_of_history`: the protocol.
* `Controller.held_of_reported`: a run whose outcome was sent holds nothing.
-/

namespace Blockwork

open Relation

namespace Controller

/-! ## What has been asked and answered -/

/-- A request, and its answer. -/
abbrev Event : Type := Request × Answer

/-- The handle of the run that is started. -/
def started? (e : Event) : Option RunHandle :=
  match e.2 with
  | .started h => some h
  | _ => none

/-- A controller gets from one state to another while it is asked and answers, the newest event
first. The worker may act at any time. -/
inductive History (c₀ : Controller) : List Event → Controller → Prop where
  | new : History c₀ [] c₀
  | works {es : List Event} {c c' : Controller} (h : History c₀ es c) (acts : Acts c c') :
      History c₀ es c'
  | answers {es : List Event} {c c' : Controller} {r : Request} {a : Answer} (h : History c₀ es c)
      (answers : c.Answers r a c') : History c₀ ((r, a) :: es) c'

theorem History.waits {c₀ c c' : Controller} {es : List Event} (h : History c₀ es c)
    (waits : ReflTransGen Acts c c') : History c₀ es c' := by
  induction waits with
  | refl => exact h
  | tail _ acts ih => exact ih.works acts

/-- Something has happened, and the run has not been freed since. -/
def Since (h : RunHandle) (P : Event → Prop) (es : List Event) : Prop :=
  ∃ later e earlier, es = later ++ e :: earlier ∧ P e ∧ (.free h, .done) ∉ later

/-- A run has been started, and has not been freed since. -/
def Owned (h : RunHandle) : List Event → Prop := Since h fun e => e.2 = .started h

/-- An outcome has been reported for a run, and the run has not been freed since. -/
def Reported (h : RunHandle) (o : Outcome) : List Event → Prop :=
  Since h fun e => e.1.handle? = some h ∧ e.2 = .reported o

section

variable {h : RunHandle} {P : Event → Prop} {e : Event} {es : List Event} {o : Outcome}

theorem not_since_nil : ¬Since h P [] := by
  rintro ⟨later, e, earlier, same, -⟩
  simp at same

theorem since_cons : Since h P (e :: es) ↔ P e ∨ e ≠ (.free h, .done) ∧ Since h P es := by
  constructor
  · rintro ⟨later, e', earlier, same, holds, kept⟩
    cases later with
    | nil =>
      cases same
      exact .inl holds
    | cons e'' later =>
      cases same
      rw [List.mem_cons, not_or] at kept
      exact .inr ⟨Ne.symm kept.1, later, e', earlier, rfl, holds, kept.2⟩
  · rintro (holds | ⟨kept, later, e', earlier, rfl, holds, kept'⟩)
    · exact ⟨[], e, es, rfl, holds, List.not_mem_nil⟩
    · refine ⟨e :: later, e', earlier, rfl, holds, ?_⟩
      rw [List.mem_cons, not_or]
      exact ⟨Ne.symm kept, kept'⟩

/-- An event that neither starts, nor frees, nor reports. -/
structure Quiet (e : Event) : Prop where
  started : started? e = none
  freed : ∀ h, e ≠ (.free h, .done)
  reported : ∀ o, e.2 ≠ .reported o

theorem Quiet.owned (quiet : Quiet e) : Owned h (e :: es) ↔ Owned h es := by
  rw [Owned, since_cons]
  constructor
  · rintro (starts | ⟨-, owned⟩)
    · have started := quiet.started
      rw [started?, starts] at started
      cases started
    · exact owned
  · exact fun owned => .inr ⟨quiet.freed h, owned⟩

theorem Quiet.reported_iff (quiet : Quiet e) : Reported h o (e :: es) ↔ Reported h o es := by
  rw [Reported, since_cons]
  constructor
  · rintro (⟨-, reports⟩ | ⟨-, reported⟩)
    · exact absurd reports (quiet.reported o)
    · exact reported
  · exact fun reported => .inr ⟨quiet.freed h, reported⟩

end

/-! ## What a controller knows -/

/-- Where an outcome comes from that is known of a run. -/
inductive Known (w : Worker) : Outcome → Prop where
  | sent {o : Outcome} (sent : w.sent = some o) : Known w o
  | panicked (message : String) (location : Option BlockLocation) :
      Known w (.failed ⟨.panicked message, location⟩)
  | forced (location : Option BlockLocation) : Known w (.failed ⟨.forcedTermination, location⟩)

/-- Runs have handles of their own, numbered below the next. -/
structure Numbered (es : List Event) (next : Nat) : Prop where
  distinct : (es.filterMap started?).Nodup
  below : ∀ h ∈ es.filterMap started?, h.number < next

/-- A worker is that of the run which has been started under a handle. -/
def Belongs (settings : Settings) (natives : NativeTable) (es : List Event) (h : RunHandle)
    (w : Worker) : Prop :=
  ∃ p chain output, (.start p chain output, .started h) ∈ es ∧
    w.Runs ((Machine.ofProgram p natives settings.maxCallDepth output).start chain)

/-- What a controller knows of its run agrees with what it has answered, and its worker is that of
the run. -/
structure Agrees (settings : Settings) (natives : NativeTable) (es : List Event) (c : Controller) :
    Prop where
  given : c.settings = settings ∧ c.natives = natives
  owned : ∀ h, Owned h es ↔ c.run.map ActiveRun.handle = some h
  reported : ∀ h o, Reported h o es ↔
    c.run.map (fun run => (run.handle, run.outcome)) = some (h, some o)
  numbered : Numbered es c.next
  worker : ∀ run, c.run = some run → Belongs settings natives es run.handle run.worker
  known : ∀ run o, c.run = some run → run.outcome = some o → Known run.worker o

section

variable {settings : Settings} {natives : NativeTable} {es : List Event} {c c' : Controller}

theorem Numbered.pass {next next' : Nat} (h : Numbered es next) {e : Event}
    (other : started? e = none) (le : next ≤ next') : Numbered (e :: es) next' := by
  have starts : (e :: es).filterMap started? = es.filterMap started? :=
    List.filterMap_cons_none other
  constructor
  · rw [starts]
    exact h.distinct
  · intro h' mem
    rw [starts] at mem
    exact Nat.lt_of_lt_of_le (h.below h' mem) le

theorem Numbered.start {next : Nat} (h : Numbered es next) (r : Request) :
    Numbered ((r, .started ⟨next⟩) :: es) (next + 1) := by
  have starts : ((r, Answer.started ⟨next⟩) :: es).filterMap started? =
      ⟨next⟩ :: es.filterMap started? := List.filterMap_cons_some rfl
  constructor
  · rw [starts]
    refine List.nodup_cons.mpr ⟨fun mem => ?_, h.distinct⟩
    exact Nat.lt_irrefl _ (h.below _ mem)
  · intro h' mem
    rw [starts] at mem
    rcases List.mem_cons.mp mem with rfl | mem
    · exact Nat.lt_succ_self _
    · exact Nat.lt_succ_of_lt (h.below h' mem)

theorem Belongs.later {h : RunHandle} {w : Worker} (belongs : Belongs settings natives es h w)
    (e : Event) : Belongs settings natives (e :: es) h w := by
  obtain ⟨p, chain, output, started, runs⟩ := belongs
  exact ⟨p, chain, output, List.mem_cons_of_mem _ started, runs⟩

theorem agrees_new : Agrees settings natives [] (.new settings natives) := by
  refine ⟨⟨rfl, rfl⟩, fun h => ?_, fun h o => ?_, ⟨List.nodup_nil, fun h mem => ?_⟩,
    fun run is => ?_, fun run o is => ?_⟩
  · exact ⟨fun owned => absurd owned not_since_nil, fun is => by cases is⟩
  · exact ⟨fun reported => absurd reported not_since_nil, fun is => by cases is⟩
  · cases mem
  · cases is
  · cases is

/-- The worker of the run has become another. -/
theorem Agrees.change (h : Agrees settings natives es c) {run : ActiveRun}
    (owned : c.run = some run) {w : Worker} (runs : ∀ m, run.worker.Runs m → w.Runs m)
    (known : ∀ m o, run.worker.Runs m → Known run.worker o → Known w o) :
    Agrees settings natives es { c with run := some { run with worker := w } } where
  given := h.given
  owned h' := by
    rw [h.owned, owned]
    rfl
  reported h' o := by
    rw [h.reported, owned]
    rfl
  numbered := h.numbered
  worker run' is := by
    cases is
    obtain ⟨p, chain, output, started, runs'⟩ := h.worker run owned
    exact ⟨p, chain, output, started, runs _ runs'⟩
  known run' o is outcome := by
    cases is
    obtain ⟨p, chain, output, -, runs'⟩ := h.worker run owned
    exact known _ o runs' (h.known run o owned outcome)

/-- What happens to a run that is not answered for leaves the controller in agreement. -/
theorem Agrees.drift (h : Agrees settings natives es c) (drifts : Drifts c c') :
    Agrees settings natives es c' := by
  obtain ⟨owned, goes⟩ := drifts
  refine h.change owned (fun m runs => ?_) fun m o runs known => ?_
  · rcases goes with acts | rfl
    · exact runs.of_acts acts
    · exact runs.requestStop
  · cases known with
    | sent sent =>
      rcases goes with acts | rfl
      · exact .sent (runs.sent_of_acts acts sent)
      · exact .sent sent
    | panicked message location => exact .panicked message location
    | forced location => exact .forced location

/-- An answer that tells nothing new leaves the controller in agreement. -/
theorem Agrees.quiet (h : Agrees settings natives es c) {e : Event} (quiet : Quiet e) {next : Nat}
    (le : c.next ≤ next) : Agrees settings natives (e :: es) { c with next := next } where
  given := h.given
  owned h' := quiet.owned.trans (h.owned h')
  reported h' o := quiet.reported_iff.trans (h.reported h' o)
  numbered := h.numbered.pass quiet.started le
  worker run is := (h.worker run is).later e
  known := h.known

/-- A run is started under a handle that is new. -/
theorem Agrees.starts (h : Agrees settings natives es c) (alone : c.run = none) (p : Program)
    (chain : ChainId) (output : Output) :
    Agrees settings natives ((.start p chain output, .started ⟨c.next⟩) :: es)
      (c.launched p chain output) := by
  refine ⟨h.given, fun h' => ?_, fun h' o => ?_, h.numbered.start _, fun run is => ?_,
    fun run o is known => ?_⟩
  · rw [Owned, since_cons]
    constructor
    · rintro (started | ⟨-, owned⟩)
      · cases started
        rfl
      · rw [← Owned, h.owned, alone] at owned
        cases owned
    · intro same
      cases same
      exact .inl rfl
  · rw [Reported, since_cons]
    constructor
    · rintro (⟨about, -⟩ | ⟨-, reported⟩)
      · cases about
      · rw [← Reported, h.reported, alone] at reported
        cases reported
    · intro same
      cases same
  · cases is
    refine ⟨p, chain, output, List.mem_cons_self, ?_⟩
    rw [h.given.1, h.given.2]
    exact Worker.runs_start
  · -- nothing is known of a run that has just been started
    cases is
    cases known

/-- An outcome is reported, whether or not it was known before. -/
theorem Agrees.reports (h : Agrees settings natives es c) {r : Request} {run : ActiveRun}
    {o : Outcome} (owned : c.run = some run) (about : r.handle? = some run.handle)
    (fits : ∀ o', run.outcome = some o' → o' = o) (known : Known run.worker o) :
    Agrees settings natives ((r, .reported o) :: es) (c.settle run o) := by
  refine ⟨h.given, fun h' => ?_, fun h' o' => ?_, h.numbered.pass rfl (Nat.le_refl _),
    fun run' is => ?_, fun run' o' is known' => ?_⟩
  · rw [Owned, since_cons]
    constructor
    · rintro (started | ⟨-, owned'⟩)
      · cases started
      · rw [← Owned, h.owned, owned] at owned'
        exact owned'
    · intro same
      refine .inr ⟨nofun, ?_⟩
      rw [← Owned, h.owned, owned]
      exact same
  · rw [Reported, since_cons]
    constructor
    · rintro (⟨about', same⟩ | ⟨-, reported⟩)
      · cases same
        cases about.symm.trans about'
        rfl
      · rw [← Reported, h.reported, owned] at reported
        obtain ⟨rfl, outcome⟩ := Prod.mk.inj (Option.some.inj reported)
        rw [fits o' outcome]
        rfl
    · intro same
      cases same
      exact .inl ⟨about, rfl⟩
  · cases is
    exact (h.worker run owned).later _
  · cases is
    cases known'
    exact known

/-- A run is given up. -/
theorem Agrees.frees (h : Agrees settings natives es c) {run : ActiveRun}
    (owned : c.run = some run) :
    Agrees settings natives ((.free run.handle, .done) :: es) { c with run := none } := by
  refine ⟨h.given, fun h' => ?_, fun h' o => ?_, h.numbered.pass rfl (Nat.le_refl _),
    fun run is => ?_, fun run o is => ?_⟩
  · rw [Owned, since_cons]
    constructor
    · rintro (started | ⟨other, owned'⟩)
      · cases started
      · rw [← Owned, h.owned, owned] at owned'
        cases owned'
        exact absurd rfl other
    · intro same
      cases same
  · rw [Reported, since_cons]
    constructor
    · rintro (⟨-, reported⟩ | ⟨other, reported⟩)
      · cases reported
      · rw [← Reported, h.reported, owned] at reported
        obtain ⟨rfl, -⟩ := Prod.mk.inj (Option.some.inj reported)
        exact absurd rfl other
    · intro same
      cases same
  · cases is
  · cases is

/-- What a worker is found out to have come to is known from then on. -/
theorem known_of_findsOut {r : Request} {w : Worker} {o : Outcome} {m : Machine} (runs : w.Runs m)
    (ends : FindsOut r w o) : Known w o := by
  cases ends with
  | ended verdict =>
    rcases runs.verdict_cases verdict with sent | ⟨-, message, -, rfl⟩
    · exact .sent sent
    · exact .panicked message _
  | forced stops verdict goes => exact .forced _

theorem Agrees.takes (h : Agrees settings natives es c) {r : Request} {a : Answer}
    (takes : Takes c r a c') : Agrees settings natives ((r, a) :: es) c' := by
  have tells (e : Event) (quiet : Quiet e) : Agrees settings natives (e :: es) c :=
    h.quiet quiet (Nat.le_refl _)
  cases takes with
  | starts alone sound => exact h.starts alone _ _ _
  | skips =>
    refine h.quiet ?_ (Nat.le_succ _)
    exact ⟨rfl, nofun, nofun⟩
  | @repeats _ run o owned asks about known =>
    -- to repeat what is known is to settle for it once more
    have same : c.settle run o = c := by
      unfold settle
      rw [← known, ← owned]
    have agrees := h.reports owned about (fun o' known' => ?_) (h.known run o owned known)
    · rwa [same] at agrees
    · rw [known] at known'
      exact (Option.some.inj known').symm
  | @settles _ run o owned asks about unknown ends =>
    obtain ⟨p, chain, output, -, runs⟩ := h.worker run owned
    refine h.reports owned about (fun o' known => ?_) (known_of_findsOut runs ends)
    rw [unknown] at known
    cases known
  | frees owned known => exact h.frees owned
  | pends owned unknown => exact tells _ ⟨rfl, nofun, nofun⟩
  | asks owned => exact tells _ ⟨rfl, nofun, nofun⟩
  | sees owned => exact tells _ ⟨rfl, nofun, nofun⟩
  | holds owned => exact tells _ ⟨rfl, nofun, nofun⟩
  | refuses refuses => exact tells _ ⟨rfl, nofun, nofun⟩

theorem Agrees.drifts (h : Agrees settings natives es c) (drifts : ReflTransGen Drifts c c') :
    Agrees settings natives es c' := by
  induction drifts with
  | refl => exact h
  | tail _ drifts ih => exact ih.drift drifts

/-- **A controller knows what it has answered,** and its worker is that of the run. -/
theorem Agrees.of_history (history : History (.new settings natives) es c) :
    Agrees settings natives es c := by
  induction history with
  | new => exact agrees_new
  | works _ acts ih => exact ih.drift acts.drifts
  | answers _ answers ih =>
    -- what the worker does while the caller waits comes first, and then the answer at its moment
    obtain ⟨c₁, drifts, takes⟩ := exists_takes answers
    exact (ih.drifts drifts).takes takes

end

/-! ## The protocol -/

/-- Where an outcome comes from that is reported for a run for the first time. -/
inductive Source (settings : Settings) (natives : NativeTable) (es : List Event) (r : Request)
    (h : RunHandle) (w : Worker) : Outcome → Prop where
  /-- The machine of the run has come to it, and the worker has sent it. -/
  | computed {p : Program} {chain : ChainId} {output : Output} {taken : List Snapshot} {o : Outcome}
      (started : (.start p chain output, .started h) ∈ es)
      (reaches : Machine.Reaches ((Machine.ofProgram p natives settings.maxCallDepth output).start
        chain) (w.machine.withTaken taken))
      (ended : w.machine.outcome? = some o) (sent : w.sent = some o) :
      Source settings natives es r h w o
  /-- The thread has ended, and nothing has been sent. -/
  | panicked {message : String} (thread : w.thread = .panicked message) (unsent : w.sent = none) :
      Source settings natives es r h w (w.failure (.panicked message))
  /-- The time to stop was over when the worker still ran, and nothing had been sent. -/
  | forced {before : Worker} (stops : r = .stopWithin h) (running : before.thread = .running)
      (unsent : before.sent = none) (goes : ReflTransGen Worker.Acts before w) :
      Source settings natives es r h w (w.failure .forcedTermination)

/-- What a controller keeps to, after what it has been asked and has answered. -/
structure Protocol (settings : Settings) (natives : NativeTable) (es : List Event)
    (c : Controller) : Prop where
  /-- A run is started only if none is owned. -/
  alone : ∀ {p chain output h c'}, c.Answers (.start p chain output) (.started h) c' →
    ∀ other, ¬Owned other es
  /-- A start is refused because a run is owned or the program is not sound, and changes nothing. -/
  refused : ∀ {p chain output e c'}, c.Answers (.start p chain output) (.refused e) c' → c' = c ∧
    (e = .alreadyRunning ∧ (∃ other, Owned other es) ∨
      e = .integrity p.violations ∧ p.violations ≠ [])
  /-- Runs have handles of their own. -/
  distinct : (es.filterMap started?).Nodup
  /-- Of a run that is not owned nothing is known, and nothing is done for it. -/
  unknown : ∀ {r h a c'}, r.handle? = some h → ¬Owned h es → c.Answers r a c' →
    a = .refused (.unknownRun h) ∧ c' = c
  /-- The outcome that has been reported is reported again. -/
  repeats : ∀ {r h o a c'}, Reported h o es → r.asksOutcome → r.handle? = some h →
    c.Answers r a c' → a = .reported o
  /-- A run is freed when its outcome has been reported. -/
  freed : ∀ {h o a c'}, Reported h o es → c.Answers (.free h) a c' → a = .done
  /-- As long as no outcome has been reported, a run is not freed, and nothing changes. -/
  kept : ∀ {h a c'}, Owned h es → (∀ o, ¬Reported h o es) → c.Answers (.free h) a c' →
    a = .refused (.stillRunning h) ∧ c' = c
  /-- An outcome that has not been reported before is that of the run, or there is none. -/
  source : ∀ {r h o c'}, r.handle? = some h → c.Answers r (.reported o) c' → ¬Reported h o es →
    ∃ w, c'.run = some ⟨h, w, some o⟩ ∧ Source settings natives es r h w o
  /-- Every request is answered at once, except that a join waits for an outcome. -/
  answered : ∀ r, (∀ h, r = .join h → Owned h es → ∃ o, Reported h o es) → ∃ a c', c.Answers r a c'

section

variable {settings : Settings} {natives : NativeTable} {es : List Event} {c c' : Controller}

theorem Agrees.exists_owned (h : Agrees settings natives es c) {handle : RunHandle}
    (owned : Owned handle es) : ∃ run, c.run = some run ∧ run.handle = handle :=
  Option.map_eq_some_iff.mp ((h.owned handle).mp owned)

theorem Agrees.exists_reported (h : Agrees settings natives es c) {handle : RunHandle} {o : Outcome}
    (reported : Reported handle o es) :
    ∃ run, c.run = some run ∧ run.handle = handle ∧ run.outcome = some o := by
  obtain ⟨run, owned, same⟩ := Option.map_eq_some_iff.mp ((h.reported handle o).mp reported)
  obtain ⟨same, known⟩ := Prod.mk.inj same
  exact ⟨run, owned, same, known⟩

theorem Agrees.owned_handle (h : Agrees settings natives es c) {run : ActiveRun}
    (owned : c.run = some run) : Owned run.handle es := by
  rw [h.owned, owned]
  rfl

theorem Agrees.reported_outcome (h : Agrees settings natives es c) {run : ActiveRun} {o : Outcome}
    (owned : c.run = some run) (known : run.outcome = some o) : Reported run.handle o es := by
  rw [h.reported, owned, ← known]
  rfl

theorem Agrees.repeats (h : Agrees settings natives es c) {r : Request} {handle : RunHandle}
    {o : Outcome} {a : Answer} (reported : Reported handle o es) (asks : r.asksOutcome)
    (about : r.handle? = some handle) (answers : c.Answers r a c') : a = .reported o := by
  obtain ⟨c₁, drifts, takes⟩ := exists_takes answers
  obtain ⟨run, owned, rfl, known⟩ := (h.drifts drifts).exists_reported reported
  cases takes with
  | repeats owned' asks about known' =>
    cases owned.symm.trans owned'
    cases known.symm.trans known'
    rfl
  | settles owned' asks about unknown ends =>
    -- how the worker has ended is not looked at any more
    cases owned.symm.trans owned'
    rw [known] at unknown
    cases unknown
  | pends owned' unknown =>
    cases owned.symm.trans owned'
    rw [known] at unknown
    cases unknown
  | refuses refuses =>
    rw [refusal?_of_asksOutcome owned about asks] at refuses
    cases refuses
  | starts | skips | frees | asks | sees | holds => cases asks

theorem Agrees.source (h : Agrees settings natives es c) {r : Request} {handle : RunHandle}
    {o : Outcome} (about : r.handle? = some handle) (answers : c.Answers r (.reported o) c')
    (new : ¬Reported handle o es) :
    ∃ w, c'.run = some ⟨handle, w, some o⟩ ∧ Source settings natives es r handle w o := by
  obtain ⟨c₁, drifts, takes⟩ := exists_takes answers
  have agrees := h.drifts drifts
  cases takes with
  | repeats owned asks about' known =>
    cases about.symm.trans about'
    exact absurd (agrees.reported_outcome owned known) new
  | @settles _ run _ owned asks about' unknown ends =>
    cases about.symm.trans about'
    obtain ⟨p, chain, output, started, runs⟩ := agrees.worker run owned
    refine ⟨run.worker, rfl, ?_⟩
    cases ends with
    | ended verdict =>
      rcases runs.verdict_cases verdict with sent | ⟨unsent, message, thread, rfl⟩
      · obtain ⟨taken, reaches, -⟩ := runs.machine
        exact .computed started reaches (runs.sent o sent).1 sent
      · exact .panicked thread unsent
    | forced stops verdict goes =>
      cases stops
      cases about
      obtain ⟨unsent, running⟩ := Worker.verdict?_eq_none.mp verdict
      exact .forced rfl running unsent goes

theorem Agrees.freed (h : Agrees settings natives es c) {handle : RunHandle} {o : Outcome}
    {a : Answer} (reported : Reported handle o es) (answers : c.Answers (.free handle) a c') :
    a = .done := by
  obtain ⟨run, owned, rfl, known⟩ := h.exists_reported reported
  cases answers with
  | freed frees => rfl
  | refused refuses =>
    rw [refusal?, free_run owned, known] at refuses
    cases refuses

theorem Agrees.kept (h : Agrees settings natives es c) {handle : RunHandle} {a : Answer}
    (owns : Owned handle es) (new : ∀ o, ¬Reported handle o es)
    (answers : c.Answers (.free handle) a c') : a = .refused (.stillRunning handle) ∧ c' = c := by
  obtain ⟨run, owned, rfl⟩ := h.exists_owned owns
  have unknown : run.outcome = none := by
    cases known : run.outcome with
    | none => rfl
    | some o => exact absurd (h.reported_outcome owned known) (new o)
  cases answers with
  | freed frees =>
    rw [free_run owned, unknown] at frees
    cases frees
  | refused refuses =>
    rw [refusal?, free_run owned, unknown] at refuses
    cases refuses
    exact ⟨rfl, rfl⟩

/-- **The protocol is kept,** whatever has been asked, and whatever the workers have done
meanwhile. -/
theorem protocol_of_history (history : History (.new settings natives) es c) :
    Protocol settings natives es c := by
  have agrees := Agrees.of_history history
  constructor
  case alone =>
    intro p chain output h c' answers other owned
    obtain ⟨run, there, -⟩ := agrees.exists_owned owned
    cases answers with
    | started starts =>
      rw [(launch_ok starts).1] at there
      cases there
  case refused =>
    intro p chain output e c' answers
    refine ⟨answers.eq_of_refused, ?_⟩
    cases answers with
    | refused refuses =>
      rcases launch_error (eq_error_of_refusalOf refuses) with ⟨is, run, owned⟩ | unsound
      · exact .inl ⟨is, run.handle, agrees.owned_handle owned⟩
      · exact .inr unsound
  case distinct => exact agrees.numbered.distinct
  case unknown =>
    intro r h a c' about other answers
    exact answers.of_unknown about fun owned => other ((agrees.owned h).mpr owned)
  case repeats => exact agrees.repeats
  case freed => exact agrees.freed
  case kept => exact agrees.kept
  case source => exact agrees.source
  case answered =>
    intro r ready
    refine exists_answers r fun run owned joins => ?_
    obtain ⟨o, reported⟩ := ready run.handle joins (agrees.owned_handle owned)
    obtain ⟨run', owned', -, known⟩ := agrees.exists_reported reported
    cases owned.symm.trans owned'
    rw [known]
    rfl

/-- The worker of a run that does not end by itself. -/
def ticker : Worker :=
  .new ((Machine.ofProgram Program.ticking Native.standard 256 .unlimited).start 0)

/-- The run is started, left to itself, and asked for once more. -/
def tickerEvents : List Event :=
  let outcome : Outcome := .failed ⟨.forcedTermination, none⟩
  [(.tryJoin ⟨0⟩, .reported outcome), (.stopWithin ⟨0⟩, .reported outcome),
    (.start Program.ticking 0 .unlimited, .started ⟨0⟩)]

/-- The worker heeds the request to stop after it has been left to itself, and sends another outcome
than the one that has been reported. -/
theorem protocol_of_history_ticking :
    ∃ c run, History (.new .standard Native.standard) tickerEvents c ∧ c.run = some run ∧
      run.worker.sent.map Outcome.message = some "Execution stopped" ∧
      Protocol .standard Native.standard tickerEvents c := by
  have sound : Program.ticking.violations = [] := by decide +kernel
  let begun : Controller := ⟨.standard, Native.standard, 1, some ⟨⟨0⟩, ticker, none⟩⟩
  let left : ActiveRun :=
    ⟨⟨0⟩, ticker.requestStop, some (.failed ⟨.forcedTermination, none⟩)⟩
  let gone : Controller := ⟨.standard, Native.standard, 1, some left⟩
  have starts : (new .standard Native.standard).Answers (.start Program.ticking 0 .unlimited)
      (.started ⟨0⟩) begun := .started (launch_alone rfl sound 0 .unlimited)
  have leaves : begun.Answers (.stopWithin ⟨0⟩)
      (.reported (.failed ⟨.forcedTermination, none⟩)) gone := answers_of_abandon rfl .refl rfl
  have heeds : ReflTransGen Worker.Acts left.worker (left.worker.catchUp.close.advance 3) :=
    (Worker.acts_catchUp rfl).trans ((Worker.acts_close rfl Worker.seen_catchUp).trans
      (Worker.acts_advance 3 (Worker.current_close rfl Worker.seen_catchUp)))
  let after := gone.work fun w => w.catchUp.close.advance 3
  have goes : ReflTransGen Acts gone after := acts_work rfl heeds
  have joins : after.Answers (.tryJoin ⟨0⟩)
      (.reported (.failed ⟨.forcedTermination, none⟩)) after := .reported rfl
  have history := (((History.new.answers starts).answers leaves).waits goes).answers joins
  exact ⟨_, _, history, rfl, by decide +kernel, protocol_of_history history⟩

/-! ## What a run holds -/

theorem Agrees.gauge (h : Agrees settings natives es c) {handle : RunHandle} {o : Outcome}
    (reported : Reported handle o es)
    (intact : ∀ message location, o ≠ .failed ⟨.panicked message, location⟩)
    (heeded : ∀ location, o ≠ .failed ⟨.forcedTermination, location⟩) {g : Gauge}
    (looks : c.resources handle = .ok g) : g = ⟨0, 0⟩ := by
  obtain ⟨run, owned, -, known⟩ := h.exists_reported reported
  obtain ⟨run', owned', -, is⟩ := exists_run looks
  cases owned.symm.trans owned'
  cases is
  obtain ⟨p, chain, output, -, runs⟩ := h.worker run owned
  cases h.known run o owned known with
  | sent sent => exact runs.gauge_of_sent (by rw [sent]; rfl)
  | panicked message location => exact absurd rfl (intact message location)
  | forced location => exact absurd rfl (heeded location)

/-- **When an outcome has been reported, the run holds nothing any more,** unless its worker has
broken off or has been left to itself. -/
theorem held_of_reported (history : History (.new settings natives) es c) {h : RunHandle}
    {o : Outcome} (reported : Reported h o es)
    (intact : ∀ message location, o ≠ .failed ⟨.panicked message, location⟩)
    (heeded : ∀ location, o ≠ .failed ⟨.forcedTermination, location⟩) {a : Answer}
    (answers : c.Answers (.resources h) a c') : a = .held ⟨0, 0⟩ := by
  have agrees := Agrees.of_history history
  cases answers with
  | held looks goes again =>
    have later := agrees.drifts (drifts_of_waits goes)
    rw [agrees.gauge reported intact heeded looks, later.gauge reported intact heeded again]
  | refused refuses =>
    obtain ⟨run, owned, rfl, -⟩ := agrees.exists_reported reported
    rw [refusal?, resources, owned_run owned] at refuses
    cases refuses

/-- **A run that has broken off in a native function is said to hold a frame until it is freed,** as
long as native functions leave the scopes alone. -/
theorem frames_of_panicked (history : History (.new settings natives) es c)
    (keeps : ∀ name f, natives.get? name = some f → f.KeepsScopes) {run : ActiveRun}
    (owned : c.run = some run) {message : String}
    (panicked : run.worker.machine.activity = .panicked message) {g : Gauge}
    (answers : c.Answers (.resources run.handle) (.held g) c') : 1 ≤ g.frames := by
  obtain ⟨p, chain, output, -, runs⟩ := (Agrees.of_history history).worker run owned
  cases answers with
  | held looks goes again =>
    obtain ⟨run', owned', -, is⟩ := exists_run looks
    cases owned.symm.trans owned'
    cases is
    exact runs.frames_of_panicked keeps panicked

end

end Controller

end Blockwork
