import Blockwork.Proofs.Registries
import Mathlib.Logic.Function.Basic

/-!
# Histories of a registry

A registry is made from a list of definitions, and definitions are registered in it, taken out of
it, and put in as standard ones. Only registering looks at the kind of what is there already. Still
the kind of a definition never changes while its id is taken: a standard definition is put in only
where the id is free, and a definition that is taken out leaves it free.

What a registry holds is told by a plain assignment of definitions to ids, in which nothing ties a
definition to the place where it is put. The registry holds what the assignment holds; so every
definition is in its own place.

## Main statements

* `Registry.find?_serve`: what one request does.
* `Registry.kind_of_serveAll`: a definition keeps its kind until it is taken out.
* `Registry.lawful_of_history`: what holds of a registry after any history.
-/

namespace Blockwork

/-- A request to a registry. -/
inductive RegistryRequest where
  | register (d : Definition)
  | installBuiltins
  | remove (id : String)
deriving DecidableEq

/-! ## Assignments -/

/-- A definition, if any, for each id. -/
abbrev Assignment : Type := String → Option Definition

namespace Assignment

/-- Puts a definition in, in place of any other. -/
def put (m : Assignment) (d : Definition) : Assignment := Function.update m d.id (some d)

/-- Puts definitions in one after the other. -/
def ofList (ds : List Definition) : Assignment := ds.foldl put fun _ => none

/-- Puts a definition in if its id is free. -/
def fill (m : Assignment) (d : Definition) : Assignment :=
  if (m d.id).isSome then m else m.put d

/-- What a request does. A definition is not put in place of one of another kind. -/
def serve (m : Assignment) : RegistryRequest → Assignment
  | .register d =>
    if (m d.id).any fun old => old.behavior.kind ≠ d.behavior.kind then m
    else m.put d
  | .installBuiltins => Builtins.all.foldl fill m
  | .remove id => Function.update m id none

end Assignment

namespace Registry

/-- The registry after a request. A definition that is refused changes nothing. -/
def serve (r : Registry) : RegistryRequest → Registry
  | .register d =>
    match r.register d with
    | .ok (_, r) => r
    | .error _ => r
  | .installBuiltins => r.installBuiltins
  | .remove id => r.erase id

/-- The registry after requests. -/
def serveAll (r : Registry) (requests : List RegistryRequest) : Registry := requests.foldl serve r

variable {r : Registry}

/-! ## What a registry holds -/

theorem find?_insert_eq (r : Registry) (d : Definition) :
    (r.insert d).find? = Assignment.put r.find? d := by
  funext id
  rw [Ordered.find?_insert, Assignment.put, Function.update_apply]
  simp only [eq_comm]

theorem find?_ofList_eq (ds : List Definition) :
    (Ordered.ofList ds : Registry).find? = Assignment.ofList ds := by
  have from_any (r : Registry) : (ds.foldl Ordered.insert r).find? =
      ds.foldl Assignment.put r.find? := by
    induction ds generalizing r with
    | nil => rfl
    | cons d rest ih => rw [List.foldl_cons, ih, find?_insert_eq, List.foldl_cons]
  exact from_any Ordered.empty

theorem find?_fill_eq (ds : List Definition) (r : Registry) :
    (ds.foldl (fun r d => if (r.find? d.id).isSome then r else r.insert d) r).find? =
      ds.foldl Assignment.fill r.find? := by
  induction ds generalizing r with
  | nil => rfl
  | cons d rest ih =>
    rw [List.foldl_cons, ih, List.foldl_cons, Assignment.fill]
    split
    · rfl
    · rw [find?_insert_eq]

/-- **What a request does** to what a registry holds. -/
theorem find?_serve (r : Registry) (request : RegistryRequest) :
    (r.serve request).find? = Assignment.serve r.find? request := by
  cases request with
  | register d =>
    rw [serve, Assignment.serve]
    rcases r.register_cases d with ⟨same, registered⟩ | ⟨old, taken, other, refused⟩
    · have free : ¬ (r.find? d.id).any fun old => old.behavior.kind ≠ d.behavior.kind := by
        simpa [Option.any_eq_true] using same
      rw [registered, if_neg free]
      exact find?_insert_eq r d
    · rw [refused, if_pos (by simpa [taken] using other)]
  | installBuiltins => exact find?_fill_eq Builtins.all r
  | remove id =>
    funext id'
    rw [serve, Assignment.serve, Ordered.find?_erase, Function.update_apply]

theorem find?_serveAll (r : Registry) (requests : List RegistryRequest) :
    (r.serveAll requests).find? = requests.foldl Assignment.serve r.find? := by
  induction requests generalizing r with
  | nil => rfl
  | cons request rest ih =>
    rw [List.foldl_cons, ← find?_serve]
    exact ih _

/-! ## Kinds -/

/-- A definition of the same kind is there after a request, unless it is taken out. -/
theorem kind_of_serve {request : RegistryRequest} {id : String} {d : Definition}
    (found : r.find? id = some d) (stays : request ≠ .remove id) :
    ∃ d', (r.serve request).find? id = some d' ∧ d'.behavior.kind = d.behavior.kind := by
  cases request with
  | register e =>
    rw [serve]
    rcases r.register_cases e with ⟨same, registered⟩ | ⟨_, _, _, refused⟩
    · rw [registered, Ordered.find?_insert]
      split
      · next here =>
        subst here
        exact ⟨e, rfl, (same d found).symm⟩
      · exact ⟨d, found, rfl⟩
    · rw [refused]
      exact ⟨d, found, rfl⟩
  | installBuiltins =>
    -- The id is taken, so no standard definition is put in.
    rw [serve, find?_installBuiltins, found]
    exact ⟨d, rfl, rfl⟩
  | remove id' =>
    have other : id ≠ id' := by
      rintro rfl
      exact stays rfl
    rw [serve, Ordered.find?_erase, if_neg other]
    exact ⟨d, found, rfl⟩

/-- **A definition keeps its kind as long as it is not taken out.** -/
theorem kind_of_serveAll {requests : List RegistryRequest} {id : String} {d : Definition}
    (found : r.find? id = some d) (stays : .remove id ∉ requests) :
    ∃ d', (r.serveAll requests).find? id = some d' ∧ d'.behavior.kind = d.behavior.kind := by
  induction requests generalizing r d with
  | nil => exact ⟨d, found, rfl⟩
  | cons request rest ih =>
    obtain ⟨first, later⟩ := List.ne_and_not_mem_of_not_mem_cons stays
    obtain ⟨d₁, found₁, kind₁⟩ := kind_of_serve found first.symm
    obtain ⟨d', found', kind'⟩ := ih found₁ later
    exact ⟨d', found', kind'.trans kind₁⟩

/-! ## After a history -/

/-- **A registry stays in order.** After any history it holds what the assignment holds, each
definition under its own id and in the order of the ids. A definition that is there stays until it
is taken out, or is replaced by one of its kind. What is refused changes nothing, what is registered
changes its own id only, and standard definitions are put in only where ids are free. The items of
a registry make the same registry. -/
theorem lawful_of_history (ds : List Definition) (history : List RegistryRequest) :
    let r := serveAll (Ordered.ofList ds) history
    r.find? = history.foldl Assignment.serve (Assignment.ofList ds) ∧
    (∀ id d, r.find? id = some d ↔ d ∈ r.items ∧ d.id = id) ∧
    (r.items.Pairwise fun d e => d.id < e.id) ∧
    (∀ requests id d, r.find? id = some d → .remove id ∉ requests →
      ∃ d', (r.serveAll requests).find? id = some d' ∧ d'.behavior.kind = d.behavior.kind) ∧
    (∀ d e, r.register d = .error e → r.serve (.register d) = r ∧
      ∃ old, r.find? d.id = some old ∧ old.behavior.kind ≠ d.behavior.kind ∧
        e = .duplicateDefinition d.id old.behavior.kind) ∧
    (∀ d old r', r.register d = .ok (old, r') → r.serve (.register d) = r' ∧
      old = r.find? d.id ∧ r'.find? d.id = some d ∧
      ∀ id, id ≠ d.id → r'.find? id = r.find? id) ∧
    (∀ id, r.installBuiltins.find? id =
      (r.find? id).or (Builtins.all.find? fun d => d.id = id)) ∧
    Ordered.ofList r.items = r := by
  intro r
  refine ⟨?_, fun id d => ⟨?_, ?_⟩, r.ascending,
    fun _ _ _ found stays => kind_of_serveAll found stays, fun d e refused => ?_,
    fun d old r' registered => ?_, r.find?_installBuiltins, r.ofList_items⟩
  · rw [find?_serveAll, find?_ofList_eq]
  · intro found
    exact ⟨Ordered.mem_of_find? found, Ordered.key_of_find? found⟩
  · rintro ⟨mem, rfl⟩
    exact Ordered.find?_of_mem mem
  · rcases r.register_cases d with ⟨-, registered⟩ | ⟨old, taken, other, refused'⟩
    · cases registered.symm.trans refused
    · cases refused.symm.trans refused'
      exact ⟨by rw [serve, refused], old, taken, other, rfl⟩
  · rcases r.register_cases d with ⟨-, registered'⟩ | ⟨_, _, _, refused⟩
    · cases registered.symm.trans registered'
      refine ⟨by rw [serve, registered], rfl, ?_, fun id other => ?_⟩
      · rw [Ordered.find?_insert, if_pos rfl]
      · rw [Ordered.find?_insert, if_neg other.symm]
    · cases refused.symm.trans registered

/-- A block that prints in its own way. -/
def ownPrint : Definition := ⟨"print", "", .gray, [.argument "v"], .native "my_print"⟩

theorem lawful_of_history_ownPrint :
    Ordered.find? (serveAll (Ordered.ofList [ownPrint]) [.remove "wait"]) "print" = some ownPrint ∧
      RegistryRequest.remove "print" ∉ [.installBuiltins, .register { ownPrint with slots := [] }] ∧
      ∃ d, Ordered.find?
          (serveAll (serveAll (Ordered.ofList [ownPrint]) [.remove "wait"])
            [.installBuiltins, .register { ownPrint with slots := [] }]) "print" = some d ∧
        d.behavior.kind = .native := by
  have found : Ordered.find? (serveAll (Ordered.ofList [ownPrint]) [.remove "wait"]) "print" =
      some ownPrint := rfl
  have stays : RegistryRequest.remove "print" ∉
      [.installBuiltins, .register { ownPrint with slots := [] }] := by decide
  obtain ⟨-, -, -, kinds, -⟩ := lawful_of_history [ownPrint] [.remove "wait"]
  exact ⟨found, stays, kinds _ _ _ found stays⟩

end Registry

end Blockwork
