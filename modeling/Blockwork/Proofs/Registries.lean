import Blockwork.Program
import Blockwork.Proofs.Collections

/-!
# Registering definitions

What registering a definition does to a registry: it is put in, in place of one of the same kind.
Standard definitions are put in where their ids are free, so putting them in again changes nothing.

## Main statements

* `Registry.find?_installBuiltins`: where an id is free, the standard definition is found.
* `Registry.installBuiltins_eq_self`: where the standard definitions are there, none is put in.
* `Registry.insert_of_register`: what a definition that is not refused does.
-/

namespace Blockwork

/-! ## Standard definitions -/

namespace Registry

theorem isSome_insert {r : Registry} {id : String} (h : (r.find? id).isSome) (d : Definition) :
    ((r.insert d).find? id).isSome := by
  rw [Ordered.find?_insert]
  split
  · rfl
  · exact h

/-- Definitions are put in where their ids are free. -/
theorem find?_fill (ds : List Definition) (r : Registry) (id : String) :
    (ds.foldl (fun r d => if (r.find? d.id).isSome then r else r.insert d) r).find? id =
      (r.find? id).or (ds.find? fun d => d.id = id) := by
  induction ds generalizing r with
  | nil => simp
  | cons d rest ih =>
    rw [List.foldl_cons, ih]
    by_cases same : d.id = id
    · subst same
      rw [List.find?_cons_of_pos (by simp)]
      cases found : r.find? d.id with
      | some old => simp [found]
      | none => simp [Ordered.find?_insert]
    · rw [List.find?_cons_of_neg (by simpa using same)]
      split
      · rfl
      · rw [Ordered.find?_insert, if_neg same]

/-- What is found once the standard definitions are put in. -/
theorem find?_installBuiltins (r : Registry) (id : String) :
    r.installBuiltins.find? id = (r.find? id).or (Builtins.all.find? fun d => d.id = id) :=
  find?_fill Builtins.all r id

/-- After the standard definitions are put in, they are there. -/
theorem isSome_installBuiltins (r : Registry) {d : Definition} (h : d ∈ Builtins.all) :
    (r.installBuiltins.find? d.id).isSome := by
  have standard : (Builtins.all.find? fun e => e.id = d.id).isSome :=
    List.find?_isSome.2 ⟨d, h, by simp⟩
  rw [find?_installBuiltins, Option.isSome_or, standard, Bool.or_true]

theorem fill_eq_self {ds : List Definition} {r : Registry}
    (h : ∀ d ∈ ds, (r.find? d.id).isSome) :
    ds.foldl (fun r d => if (r.find? d.id).isSome then r else r.insert d) r = r := by
  induction ds with
  | nil => rfl
  | cons d rest ih =>
    rw [List.foldl_cons, if_pos (h d List.mem_cons_self)]
    exact ih fun e he => h e (List.mem_cons_of_mem d he)

/-- Where the standard definitions are there, nothing is put in. -/
theorem installBuiltins_eq_self {r : Registry} (h : ∀ d ∈ Builtins.all, (r.find? d.id).isSome) :
    r.installBuiltins = r :=
  fill_eq_self h

/-- What is registered stays registered when more is put in. -/
theorem isSome_foldl_insert {ds : List Definition} {r : Registry} {id : String}
    (h : (r.find? id).isSome) : ((ds.foldl Ordered.insert r).find? id).isSome := by
  induction ds generalizing r with
  | nil => exact h
  | cons d rest ih => exact ih (isSome_insert h d)

/-! ## Procedures -/

/-- Procedures can be recorded: what is registered under their ids are procedures. -/
def Admits (r : Registry) (ds : List Definition) : Prop :=
  ∀ d ∈ ds, ∀ old, r.find? d.id = some old → old.behavior.kind = .procedure

variable {r r' : Registry} {ds : List Definition}

/-- **A definition is put in, in place of one of the same kind, or is refused** because its id
belongs to one of another kind. -/
theorem register_cases (r : Registry) (d : Definition) :
    (∀ old, r.find? d.id = some old → old.behavior.kind = d.behavior.kind) ∧
        r.register d = .ok (r.find? d.id, r.insert d) ∨
      ∃ old, r.find? d.id = some old ∧ old.behavior.kind ≠ d.behavior.kind ∧
        r.register d = .error (.duplicateDefinition d.id old.behavior.kind) := by
  unfold register
  cases found : r.find? d.id with
  | none => exact .inl ⟨nofun, rfl⟩
  | some old =>
    by_cases same : old.behavior.kind = d.behavior.kind
    · refine .inl ⟨?_, if_pos same⟩
      rintro _ ⟨⟩
      exact same
    · exact .inr ⟨old, rfl, same, if_neg same⟩

theorem register_of_admits {d : Definition} (hd : d.behavior.kind = .procedure)
    (h : ∀ old, r.find? d.id = some old → old.behavior.kind = .procedure) :
    ∃ old, r.register d = .ok (old, r.insert d) := by
  rcases r.register_cases d with ⟨-, registered⟩ | ⟨old, found, other, -⟩
  · exact ⟨_, registered⟩
  · exact absurd ((h old found).trans hd.symm) other

/-- A definition is refused where its id belongs to one of another kind. -/
theorem register_of_clash {d old : Definition} (taken : r.find? d.id = some old)
    (other : old.behavior.kind ≠ d.behavior.kind) :
    r.register d = .error (.duplicateDefinition d.id old.behavior.kind) := by
  rcases r.register_cases d with ⟨same, -⟩ | ⟨old', taken', -, refused⟩
  · exact absurd (same old taken) other
  · cases taken.symm.trans taken'
    exact refused

theorem insert_of_register {d : Definition} {old : Option Definition}
    (h : r.register d = .ok (old, r')) :
    r' = r.insert d ∧
      ∀ old, r.find? d.id = some old → old.behavior.kind = d.behavior.kind := by
  rcases r.register_cases d with ⟨same, registered⟩ | ⟨_, _, _, refused⟩
  · cases registered.symm.trans h
    exact ⟨rfl, same⟩
  · cases refused.symm.trans h

end Registry

namespace Program

/-- A chain that defines a procedure is its body. -/
theorem behavior_of_procedureOf {c : Chain} {d : Definition} (h : procedureOf c = some d) :
    d.behavior = .procedure (some c.id) := by
  unfold procedureOf at h
  split at h
  · cases h
    rfl
  · cases h

theorem kind_of_procedureOf {c : Chain} {d : Definition} (h : procedureOf c = some d) :
    d.behavior.kind = .procedure := by
  rw [behavior_of_procedureOf h]
  rfl

end Program

end Blockwork
