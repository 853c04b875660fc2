import Blockwork.Proofs.Preparation

/-!
# What a refused recording leaves behind

The procedures of the chains are registered in the order of the chains, up to the first one that is
refused. What was registered before it stays: the program is then as if only the chains before that
one had been recorded. A chain that is added on its own is not added when its procedure is refused,
and nothing else is changed; recording many is not like that.

## Main statements

* `Program.recordProcedures_cases`: all procedures are recorded, or those before the first clash.
* `Program.finds_of_recordProcedures_error`: what is found under each id after a refusal.
* `Program.definitions_ne_of_recordProcedures_error`: a refused recording may change the registry.
-/

namespace Blockwork

namespace Program

variable {p q : Program} {e : RegistryError}

/-- **All procedures are recorded, or those of the chains before the first one that clashes.** -/
theorem recordProcedures_cases (p : Program) :
    let recorded (chains : List Chain) : Program :=
      { p with definitions := (chains.filterMap procedureOf).foldl Ordered.insert p.definitions }
    (∀ c ∈ p.chains, ∀ d old, ¬Clashes p.definitions.find? c d old) ∧
        p.recordProcedures = (.ok (p.chains.filterMap procedureOf).length, recorded p.chains) ∨
      ∃ before c after d old, p.chains = before ++ c :: after ∧
        (∀ c' ∈ before, ∀ d' old', ¬Clashes p.definitions.find? c' d' old') ∧
        Clashes p.definitions.find? c d old ∧
        p.recordProcedures =
          (.error (.duplicateDefinition d.id old.behavior.kind), recorded before) := by
  intro recorded
  by_cases clash : ∃ c ∈ p.chains, ∃ d old, Clashes p.definitions.find? c d old
  · obtain ⟨c, d, old, clashes, before, after, chains, none⟩ := exists_clashesFirst clash
    refine .inr ⟨before, c, after, d, old, chains, none, clashes, ?_⟩
    have registered := registerAll_of_clashes (fun _ => rfl) clashes none after
    rw [← chains] at registered
    simp only [recordProcedures, registered, Except.map, recorded]
  · have none : ∀ c ∈ p.chains, ∀ d old, ¬Clashes p.definitions.find? c d old :=
      fun c hc d old clashes => clash ⟨c, hc, d, old, clashes⟩
    have registered :=
      registerAll_of_admits kind_of_mem_procedures (admits_of_not_clashes (fun _ => rfl) none)
    refine .inl ⟨none, ?_⟩
    simp only [recordProcedures, registered, Except.map, recorded]

/-- **A refused recording is one of the chains before the first that clashes.** The chains and the
variables stay, and under each id there is the procedure that one of those chains defines last, or
what was there before. -/
theorem finds_of_recordProcedures_error (h : p.recordProcedures = (.error e, q)) :
    q.chains = p.chains ∧ q.globals = p.globals ∧
      ∃ before c after d old, p.chains = before ++ c :: after ∧
        Clashes p.definitions.find? c d old ∧
        e = .duplicateDefinition d.id old.behavior.kind ∧
        ∀ id,
          Finds { p with chains := before } p.definitions.find? id (q.definitions.find? id) := by
  rcases p.recordProcedures_cases with
    ⟨-, recorded⟩ | ⟨before, c, after, d, old, chains, -, clashes, refused⟩
  · cases h.symm.trans recorded
  · cases h.symm.trans refused
    refine ⟨rfl, rfl, before, c, after, d, old, chains, clashes, rfl, fun id => ?_⟩
    exact finds_foldl (q := { p with chains := before }) (fun _ => rfl) id

/-- **A refused recording may change the registry:** a procedure of a chain before the one that
clashes stays registered. -/
theorem definitions_ne_of_recordProcedures_error {before after : List Chain} {c c' : Chain}
    {d d' old : Definition} (chains : p.chains = before ++ c :: after)
    (none : ∀ c' ∈ before, ∀ d' old', ¬Clashes p.definitions.find? c' d' old')
    (clashes : Clashes p.definitions.find? c d old) (first : c' ∈ before) (defines : c'.Defines d')
    (free : p.definitions.find? d'.id = .none) :
    p.recordProcedures.2.definitions ≠ p.definitions := by
  have registered := registerAll_of_clashes (fun _ => rfl) clashes none after
  rw [← chains] at registered
  have left : p.recordProcedures.2.definitions =
      (before.filterMap procedureOf).foldl Ordered.insert p.definitions := by
    simp only [recordProcedures, registered]
  -- The id is free before, and afterwards a procedure of the chains in front is under it.
  have mem : { d' with behavior := .procedure (some c'.id) } ∈ before.filterMap procedureOf :=
    List.mem_filterMap.mpr ⟨c', first, procedureOf_eq_some.mpr ⟨d', defines, rfl⟩⟩
  have there : ((before.filterMap procedureOf).reverse.find? fun e => e.id = d'.id).isSome :=
    List.find?_isSome.mpr ⟨_, List.mem_reverse.mpr mem, by simp⟩
  intro same
  rw [left] at same
  have found := congrArg (fun r : Registry => (r.find? d'.id).isSome) same
  simp only [Ordered.find?_foldl_insert, Option.isSome_or, there, free] at found
  cases found

/-- The procedure of the first chain stays registered, though that of the second is refused. -/
example :
    let define (id : String) : Block :=
      ⟨"define", [.definition ⟨id, "", .gray, [], .procedure .none⟩]⟩
    let p : Program := ⟨.builtins, .empty,
      [⟨0, Chain.origin, [define "f"]⟩, ⟨1, Chain.origin, [define "repeat"]⟩]⟩
    (p.recordProcedures.1.toOption, (p.definitions.find? "f").isSome,
      (p.recordProcedures.2.definitions.find? "f").map Definition.behavior) =
    (.none, false, some (.procedure (some 0))) := by
  decide +kernel

end Program

end Blockwork
