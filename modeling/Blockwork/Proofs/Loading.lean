import Blockwork.Proofs.Nesting
import Blockwork.Proofs.Registries

/-!
# Loading again

A program that is loaded gets the standard definitions it lacks, and the definitions of the
procedures that its chains define. Doing so again changes nothing: the standard definitions are
there, and what the procedures are recorded as depends on the chains alone. So a program that has
been loaded can be saved and loaded again.

## Main statements

* `Program.prepare_of_prepare`: a prepared program is not changed by preparing it.
* `Program.load_save`: a program that was loaded is loaded again from the text it is saved as.
-/

namespace Blockwork

namespace Program

open Registry (Admits)

variable {r r' : Registry} {ds : List Definition}

/-- Procedures that can be recorded are put in before the rest of the row is registered. -/
theorem registerAll_append (procedures : ∀ d ∈ ds, d.behavior.kind = .procedure)
    (admits : Admits r ds) (later : List Definition) :
    registerAll r (ds ++ later) = registerAll (ds.foldl Ordered.insert r) later := by
  induction ds generalizing r with
  | nil => rfl
  | cons d rest ih =>
    obtain ⟨old, registered⟩ :=
      Registry.register_of_admits (procedures d List.mem_cons_self) (admits d List.mem_cons_self)
    simp only [List.cons_append, registerAll, registered, List.foldl_cons]
    refine ih (fun e he => procedures e (List.mem_cons_of_mem d he)) fun e he old found => ?_
    rw [Ordered.find?_insert] at found
    split at found
    · cases found
      exact procedures d List.mem_cons_self
    · exact admits e (List.mem_cons_of_mem d he) old found

/-- What registering a row of procedures does, if none is refused. -/
theorem registerAll_of_admits (procedures : ∀ d ∈ ds, d.behavior.kind = .procedure)
    (admits : Admits r ds) : registerAll r ds = (.ok (), ds.foldl Ordered.insert r) := by
  have all := registerAll_append procedures admits []
  rwa [List.append_nil] at all

/-- A procedure is refused if its id belongs to a definition of another kind. What was registered
before it does not matter for that, if nothing of it was refused, and stays registered. -/
theorem registerAll_of_clash {d old : Definition}
    (procedures : ∀ e ∈ ds, e.behavior.kind = .procedure) (admits : Admits r ds)
    (procedure : d.behavior.kind = .procedure) (taken : r.find? d.id = some old)
    (other : old.behavior.kind ≠ .procedure) (later : List Definition) :
    registerAll r (ds ++ d :: later) =
      (.error (.duplicateDefinition d.id old.behavior.kind), ds.foldl Ordered.insert r) := by
  have stays : (ds.foldl Ordered.insert r).find? d.id = some old := by
    rw [Ordered.find?_foldl_insert]
    cases last : ds.reverse.find? fun e => e.id = d.id with
    | none => exact taken
    | some e =>
      -- one of the same id before it would have been refused already
      have same : e.id = d.id := by simpa using List.find?_some last
      have mem : e ∈ ds := List.mem_reverse.1 (List.mem_of_find?_eq_some last)
      exact absurd (admits e mem old (same ▸ taken)) other
  have refused := Registry.register_of_clash stays fun same => other (same.trans procedure)
  rw [registerAll_append procedures admits]
  simp only [registerAll, refused]

/-- If no procedure of a row is refused, they can be recorded. -/
theorem admits_of_registerAll (procedures : ∀ d ∈ ds, d.behavior.kind = .procedure)
    (h : registerAll r ds = (.ok (), r')) : Admits r ds := by
  induction ds generalizing r with
  | nil => nofun
  | cons d rest ih =>
    unfold registerAll at h
    split at h
    · rename_i old r₁ registered
      obtain ⟨rfl, same⟩ := Registry.insert_of_register registered
      have later := ih (fun e he => procedures e (List.mem_cons_of_mem d he)) h
      have first (old : Definition) (found : r.find? d.id = some old) :
          old.behavior.kind = .procedure :=
        (same old found).trans (procedures d List.mem_cons_self)
      intro e he old found
      rcases List.mem_cons.1 he with rfl | he
      · exact first old found
      · -- a later one of the same id finds the first in place of what was there
        by_cases heq : d.id = e.id
        · exact first old (heq ▸ found)
        · refine later e he old ?_
          rw [Ordered.find?_insert, if_neg heq]
          exact found
    · cases h

/-- Procedures that have been recorded are recorded again without a change. -/
theorem registerAll_again (procedures : ∀ d ∈ ds, d.behavior.kind = .procedure)
    (h : registerAll r ds = (.ok (), r')) : registerAll r' ds = (.ok (), r') := by
  have admits := admits_of_registerAll procedures h
  rw [registerAll_of_admits procedures admits] at h
  obtain rfl : ds.foldl Ordered.insert r = r' := congrArg Prod.snd h
  -- under the id of a procedure there is now one of the row, or still what was there before
  have again : Admits (ds.foldl Ordered.insert r) ds := by
    intro d hd old found
    rw [Ordered.find?_foldl_insert, Option.or_eq_some_iff] at found
    rcases found with last | ⟨-, before⟩
    · exact procedures old (List.mem_reverse.1 (List.mem_of_find?_eq_some last))
    · exact admits d hd old before
  rw [registerAll_of_admits procedures again, Ordered.foldl_insert_twice]

/-! ## Whole programs -/

/-- A program is prepared by registering its procedures beside the standard definitions. -/
theorem prepare_eq_ok {p q : Program} :
    q.prepare = .ok p ↔ ∃ r, registerAll q.definitions.installBuiltins
      (q.chains.filterMap procedureOf) = (.ok (), r) ∧ p = { q with definitions := r } := by
  unfold prepare recordProcedures
  cases registered : registerAll q.definitions.installBuiltins
      (q.chains.filterMap procedureOf) with
  | mk result r =>
    cases result with
    | ok u =>
      simp only [registered, Except.map, Except.ok.injEq, Prod.mk.injEq, true_and]
      constructor
      · rintro rfl
        exact ⟨r, rfl, rfl⟩
      · rintro ⟨_, rfl, rfl⟩
        rfl
    | error e =>
      simp [registered, Except.map]

/-- **A prepared program is not changed by preparing it.** -/
theorem prepare_of_prepare {p q : Program} (h : q.prepare = .ok p) : p.prepare = .ok p := by
  obtain ⟨r, registered, rfl⟩ := prepare_eq_ok.1 h
  have procedures : ∀ d ∈ q.chains.filterMap procedureOf, d.behavior.kind = .procedure := by
    intro d hd
    obtain ⟨c, -, hc⟩ := List.mem_filterMap.1 hd
    exact kind_of_procedureOf hc
  have standard : ∀ d ∈ Builtins.all, (r.find? d.id).isSome := by
    intro d hd
    have all := registerAll_of_admits procedures (admits_of_registerAll procedures registered)
    rw [registered] at all
    obtain rfl : r = _ := congrArg Prod.snd all
    exact Registry.isSome_foldl_insert (Registry.isSome_installBuiltins _ hd)
  refine prepare_eq_ok.2 ⟨r, ?_, rfl⟩
  rw [Registry.installBuiltins_eq_self standard]
  exact registerAll_again procedures registered

/-- A program that was loaded was read from the text and prepared. -/
theorem of_load {text : String} {p : Program} (h : load text = .ok p) :
    ∃ q, (Json.parse text).read ofJson = .ok q ∧ q.prepare = .ok p := by
  unfold load at h
  split at h
  · cases h
  · rename_i q read
    split at h
    · cases h
    · rename_i prepared
      cases h
      exact ⟨q, read, prepared⟩

/-- **A program that was loaded is loaded again from the text it is saved as**, when its numbers are
finite and come back from their own texts. It is never nested too deep for that. -/
theorem load_save {text : String} {p : Program} (h : load text = .ok p)
    (finite : ∀ n ∈ p.toJson.floats, n.isFinite = true)
    (kept : ∀ n ∈ p.toJson.floats, n.isFinite = true → n.readsBack = true) :
    load p.save = .ok p := by
  obtain ⟨q, read, prepared⟩ := of_load h
  have fits : p.toJson.depth ≤ Json.depthLimit := by
    have chains := chains_of_read read
    obtain ⟨r, -, rfl⟩ := prepare_eq_ok.1 prepared
    exact depth_le chains
  have again := read_of_kept p (fun n hn => kept n hn (finite n hn)) fits
  simp only [load, again, prepare_of_prepare prepared]

/-- A coordinate beyond 32 bits is read as an infinite one, so a program may have numbers that are
not finite after it was loaded. -/
example :
    (Position.ofJson (.record [("x", .number (.double 1e39)), ("y", .nat 0)])).toOption.map
      (fun p => ((JsonNumber.single p.x).isFinite, (JsonNumber.single p.y).isFinite)) =
    some (false, true) := by
  decide +kernel

end Program

end Blockwork
