import Blockwork.Proofs.Loading

/-!
# What loading makes of a program

Of several definitions that a program lists under one id the last counts, and where an id is free
the standard definition is put in. Then the procedures of the chains are registered one by one, each
with its chain as the body. A procedure is refused if its id belongs to a definition of another
kind. The procedures that were registered before it do not matter for that, so it can be told from
the list alone which one is refused first.

## Main statements

* `Program.listed_of_read`: the registry of a program that was read, by what the text lists.
* `Program.load_of_read`: when loading fails, and what is found under each id when it does not.
-/

namespace Blockwork

/-- The chain begins with a define block that holds the definition. -/
def Chain.Defines (c : Chain) (d : Definition) : Prop :=
  ∃ arguments rest, c.blocks = ⟨"define", .definition d :: arguments⟩ :: rest

theorem Chain.Defines.unique {c : Chain} {d d' : Definition} (h : c.Defines d)
    (h' : c.Defines d') : d = d' := by
  obtain ⟨arguments, rest, blocks⟩ := h
  obtain ⟨arguments', rest', blocks'⟩ := h'
  rw [blocks] at blocks'
  simp only [List.cons.injEq, Block.mk.injEq, Argument.definition.injEq] at blocks'
  exact blocks'.1.2.1

namespace Program

/-! ## What a text lists -/

/-- The definitions that a program lists in JSON. -/
def listedOfJson : Json → Except Fault (List Definition) :=
  Json.readRecord ["definitions", "variables", "chains"] fun m =>
    m.field "definitions" [] (Json.asList Definition.ofJson)

/-- The definition under an id before any procedure is registered: the last that is listed, or a
standard one. -/
def base (listed : List Definition) (id : String) : Option Definition :=
  (listed.reverse.find? fun d => d.id = id).or (Builtins.all.find? fun d => d.id = id)

/-! ## What the chains define -/

/-- A chain defines a procedure whose id belongs to a definition of another kind. -/
structure Clashes (base : String → Option Definition) (c : Chain) (d old : Definition) :
    Prop where
  defines : c.Defines d
  taken : base d.id = some old
  other : old.behavior.kind ≠ .procedure

/-- The first chain that defines such a procedure. -/
structure ClashesFirst (p : Program) (base : String → Option Definition) (c : Chain)
    (d old : Definition) : Prop where
  clashes : Clashes base c d old
  first : ∃ before after, p.chains = before ++ c :: after ∧
    ∀ c' ∈ before, ∀ d' old', ¬Clashes base c' d' old'

/-- What is found under an id once the procedures are registered. -/
inductive Finds (p : Program) (base : String → Option Definition) (id : String) :
    Option Definition → Prop where
  /-- The procedure of the last chain that defines one of the id, with the chain as its body. -/
  | defined {before after : List Chain} {c : Chain} {d : Definition}
      (chains : p.chains = before ++ c :: after) (defines : c.Defines d) (named : d.id = id)
      (last : ∀ c' ∈ after, ∀ d', c'.Defines d' → d'.id ≠ id) :
      Finds p base id (some { d with behavior := .procedure (some c.id) })
  | listed (undefined : ∀ c ∈ p.chains, ∀ d, c.Defines d → d.id ≠ id) : Finds p base id (base id)

/-- A program is what loading makes of another. -/
structure Prepares (q p : Program) (base : String → Option Definition) : Prop where
  chains : p.chains = q.chains
  globals : p.globals = q.globals
  definitions : ∀ id, q.Finds base id (p.definitions.find? id)
  builtinsAgain : p.definitions.installBuiltins = p.definitions
  proceduresAgain : ∃ count, p.recordProcedures = (.ok count, p)

/-! ## From the text to the registry -/

end Program

namespace Part

theorem ok_of_seqLeft_both {α : Type} {x : Part α} {y : Part Unit} {a : α}
    (h : x <* y = pure a) : x = pure a ∧ y = pure () := by
  refine ⟨ok_of_seqLeft h, ?_⟩
  cases y with
  | error e => cases x <;> cases h
  | ok u => rfl

end Part

namespace Members

/-- A field that is changed after it is read. -/
theorem field_map {α β : Type} (m : Members) (name : String) (default : α)
    (read : Json → Except Fault α) (g : α → β) :
    m.field name (g default) (fun j => (read j).map g) = g <$> m.field name default read := by
  unfold field field?
  cases m.named name with
  | nil => rfl
  | cons found again =>
    obtain ⟨value, i⟩ := found
    cases content : read value with
    | error fault =>
      simp only [content, Except.map]
      rfl
    | ok a =>
      simp only [content, Except.map]
      cases again <;> rfl

end Members

namespace Program

/-- Of the definitions that a text lists under one id the last is kept. -/
theorem listed_of_read {text : String} {q : Program}
    (read : (Json.parse text).read ofJson = .ok q) :
    ∃ ds, (Json.parse text).read listedOfJson = .ok ds ∧ q.definitions = Ordered.ofList ds := by
  obtain ⟨whole, ended⟩ := JsonDocument.read_eq_ok.1 read
  obtain ⟨m, members, parts⟩ := ok_of_bind whole
  unfold Members.read at parts
  split at parts
  · rename_i found
    cases Except.ok.inj parts
    obtain ⟨all, others⟩ := Part.ok_of_seqLeft_both found
    obtain ⟨_, _, both, -, rfl⟩ := Part.ok_of_seq all
    obtain ⟨_, _, first, -, rfl⟩ := Part.ok_of_seq both
    obtain ⟨_, field, rfl⟩ := Part.ok_of_map first
    have changed : m.field "definitions" .empty Registry.ofJson =
        Ordered.ofList <$> m.field "definitions" [] (Json.asList Definition.ofJson) :=
      m.field_map "definitions" [] (Json.asList Definition.ofJson) Ordered.ofList
    rw [changed] at field
    obtain ⟨ds, lists, rfl⟩ := Part.ok_of_map field
    refine ⟨ds, JsonDocument.read_eq_ok.2 ⟨?_, ended⟩, rfl⟩
    unfold listedOfJson Json.readRecord
    rw [members]
    simp only [bind, Except.bind, Members.read, lists, others]
    rfl
  · cases parts

/-! ## Registering the procedures -/

theorem procedureOf_eq_some {c : Chain} {e : Definition} :
    procedureOf c = some e ↔
      ∃ d, c.Defines d ∧ e = { d with behavior := .procedure (some c.id) } := by
  constructor
  · intro h
    unfold procedureOf at h
    split at h
    · rename_i d arguments rest blocks
      cases h
      exact ⟨d, ⟨arguments, rest, blocks⟩, rfl⟩
    · cases h
  · rintro ⟨d, ⟨arguments, rest, blocks⟩, rfl⟩
    simp only [procedureOf, blocks]

theorem kind_of_mem_procedures {chains : List Chain} :
    ∀ e ∈ chains.filterMap procedureOf, e.behavior.kind = .procedure := by
  intro e he
  obtain ⟨c, -, hc⟩ := List.mem_filterMap.1 he
  exact kind_of_procedureOf hc

theorem prepare_eq_error {q : Program} {e : RegistryError} :
    q.prepare = .error e ↔
      (registerAll q.definitions.installBuiltins (q.chains.filterMap procedureOf)).1 =
        .error e := by
  unfold prepare recordProcedures
  dsimp only
  cases (registerAll q.definitions.installBuiltins (q.chains.filterMap procedureOf)).1 with
  | error e' => simp [Except.map]
  | ok u => simp [Except.map]

section

variable {q : Program} {base : String → Option Definition}

/-- The procedures of chains that do not clash can be recorded. -/
theorem admits_of_not_clashes {r : Registry} (is : ∀ id, r.find? id = base id) {chains : List Chain}
    (none : ∀ c ∈ chains, ∀ d old, ¬Clashes base c d old) :
    Registry.Admits r (chains.filterMap procedureOf) := by
  intro e he old found
  obtain ⟨c, hc, defined⟩ := List.mem_filterMap.1 he
  obtain ⟨d, defines, rfl⟩ := procedureOf_eq_some.1 defined
  rw [is] at found
  by_contra other
  exact none c hc d old ⟨defines, found, other⟩

/-- Procedures are registered up to the first chain that clashes. -/
theorem registerAll_of_clashes {r : Registry} (is : ∀ id, r.find? id = base id)
    {before : List Chain} {c : Chain} {d old : Definition} (clashes : Clashes base c d old)
    (none : ∀ c' ∈ before, ∀ d' old', ¬Clashes base c' d' old') (after : List Chain) :
    registerAll r ((before ++ c :: after).filterMap procedureOf) =
      (.error (.duplicateDefinition d.id old.behavior.kind),
        (before.filterMap procedureOf).foldl Ordered.insert r) := by
  obtain ⟨defines, taken, other⟩ := clashes
  have defined : procedureOf c = some { d with behavior := .procedure (some c.id) } :=
    procedureOf_eq_some.2 ⟨d, defines, rfl⟩
  rw [List.filterMap_append, List.filterMap_cons_some defined]
  refine registerAll_of_clash kind_of_mem_procedures (admits_of_not_clashes is none) rfl ?_ other _
  exact (is d.id).trans taken

/-- The first chain that clashes decides. -/
theorem prepare_of_clashesFirst (is : ∀ id, q.definitions.installBuiltins.find? id = base id)
    {c : Chain} {d old : Definition} (h : q.ClashesFirst base c d old) :
    q.prepare = .error (.duplicateDefinition d.id old.behavior.kind) := by
  obtain ⟨clashes, before, after, chains, none⟩ := h
  rw [prepare_eq_error, chains, registerAll_of_clashes is clashes none]

theorem exists_clashesFirst (h : ∃ c ∈ q.chains, ∃ d old, Clashes base c d old) :
    ∃ c d old, q.ClashesFirst base c d old := by
  classical
  obtain ⟨c, hc, clashes⟩ := h
  have some : (q.chains.find? fun c => ∃ d old, Clashes base c d old).isSome :=
    List.find?_isSome.2 ⟨c, hc, by simpa using clashes⟩
  obtain ⟨c, first⟩ := Option.isSome_iff_exists.1 some
  obtain ⟨clashes, before, after, chains, none⟩ := List.find?_eq_some_iff_append.1 first
  obtain ⟨d, old, clash⟩ := of_decide_eq_true clashes
  refine ⟨c, d, old, clash, before, after, chains, ?_⟩
  intro c' hc' d' old' clash'
  have not := none c' hc'
  rw [Bool.not_eq_true', decide_eq_false_iff_not] at not
  exact not ⟨d', old', clash'⟩

/-- Under each id there is the procedure that was recorded last, or what was there before. -/
theorem finds_foldl {r : Registry} (is : ∀ id, r.find? id = base id) (id : String) :
    q.Finds base id
      (((q.chains.filterMap procedureOf).foldl Ordered.insert r).find? id) := by
  -- what was put in last is found first from the end
  rw [Ordered.find?_foldl_insert, ← List.filterMap_reverse, List.find?_filterMap, is]
  cases last : q.chains.reverse.find? fun c => (procedureOf c).any fun e => e.id = id with
  | none =>
    refine .listed fun c hc d defines named => ?_
    have not := List.find?_eq_none.1 last c (List.mem_reverse.2 hc)
    rw [procedureOf_eq_some.2 ⟨d, defines, rfl⟩] at not
    exact not (by simpa using named)
  | some c =>
    obtain ⟨defined, after, before, reversed, others⟩ := List.find?_eq_some_iff_append.1 last
    have chains : q.chains = before.reverse ++ c :: after.reverse := by
      rw [← List.reverse_reverse q.chains, reversed]
      simp
    cases procedure : procedureOf c with
    | none =>
      rw [procedure] at defined
      cases defined
    | some e =>
      rw [procedure] at defined
      obtain ⟨d, defines, rfl⟩ := procedureOf_eq_some.1 procedure
      have found : (some c).bind procedureOf = procedureOf c := rfl
      rw [found, procedure, Option.some_or]
      refine .defined chains defines (by simpa using defined) ?_
      intro c' hc' d' defines' named'
      have not := others c' (List.mem_reverse.1 hc')
      rw [procedureOf_eq_some.2 ⟨d', defines', rfl⟩] at not
      simp [named'] at not

/-- Without a clash, all procedures are registered, and nothing changes when it is done again. -/
theorem prepare_of_not_clashes (is : ∀ id, q.definitions.installBuiltins.find? id = base id)
    (none : ∀ c ∈ q.chains, ∀ d old, ¬Clashes base c d old) :
    ∃ p, q.prepare = .ok p ∧ q.Prepares p base := by
  have all := registerAll_of_admits kind_of_mem_procedures (admits_of_not_clashes is none)
  have prepared := prepare_eq_ok.2 ⟨_, all, rfl⟩
  refine ⟨_, prepared, rfl, rfl, finds_foldl is, ?_, ?_⟩
  · exact Registry.installBuiltins_eq_self fun d hd =>
      Registry.isSome_foldl_insert (Registry.isSome_installBuiltins _ hd)
  · have again := registerAll_again kind_of_mem_procedures all
    refine ⟨(q.chains.filterMap procedureOf).length, ?_⟩
    unfold recordProcedures
    dsimp only
    rw [again]
    rfl

end

/-! ## Loading -/

theorem load_eq {text : String} {q : Program} (read : (Json.parse text).read ofJson = .ok q) :
    load text = q.prepare.mapError LoadError.registry := by
  unfold load
  rw [read]
  cases prepared : q.prepare with
  | error e => simp only [prepared, Except.mapError]
  | ok p => simp only [prepared, Except.mapError]

/-- **What loading makes of a program that was read.** Loading fails if a chain defines a procedure
whose id belongs to a definition of another kind, and then the error is about the first such chain.
Otherwise the chains and the variables are what they were, and under each id there is the procedure
of the last chain that defines it, or else the last definition that the text lists, or else the
standard one. -/
theorem load_of_read {text : String} {q : Program} (read : (Json.parse text).read ofJson = .ok q) :
    ∃ listed, (Json.parse text).read listedOfJson = .ok listed ∧
      (∀ id, q.definitions.find? id = listed.reverse.find? fun d => d.id = id) ∧
      ((∃ e, load text = .error (.registry e)) ↔
        ∃ c ∈ q.chains, ∃ d old, Clashes (base listed) c d old) ∧
      (∀ e, load text = .error e → ∃ c d old, q.ClashesFirst (base listed) c d old ∧
        e = .registry (.duplicateDefinition d.id old.behavior.kind)) ∧
      ((∀ c ∈ q.chains, ∀ d old, ¬Clashes (base listed) c d old) →
        ∃ p, load text = .ok p ∧ q.Prepares p (base listed)) := by
  obtain ⟨listed, lists, definitions⟩ := listed_of_read read
  have kept (id : String) : q.definitions.find? id = listed.reverse.find? fun d => d.id = id := by
    have nothing : (Ordered.empty : Registry).find? id = none := rfl
    rw [definitions, Ordered.ofList, Ordered.find?_foldl_insert, nothing, Option.or_none]
  have is (id : String) : q.definitions.installBuiltins.find? id = base listed id := by
    rw [Registry.find?_installBuiltins, kept]
    rfl
  have fine (none : ∀ c ∈ q.chains, ∀ d old, ¬Clashes (base listed) c d old) :
      ∃ p, load text = .ok p ∧ q.Prepares p (base listed) := by
    obtain ⟨p, prepared, makes⟩ := prepare_of_not_clashes is none
    exact ⟨p, by rw [load_eq read, prepared]; rfl, makes⟩
  have refused (clash : ∃ c ∈ q.chains, ∃ d old, Clashes (base listed) c d old) :
      ∃ c d old, q.ClashesFirst (base listed) c d old ∧
        load text = .error (.registry (.duplicateDefinition d.id old.behavior.kind)) := by
    obtain ⟨c, d, old, first⟩ := exists_clashesFirst clash
    exact ⟨c, d, old, first, by rw [load_eq read, prepare_of_clashesFirst is first]; rfl⟩
  refine ⟨listed, lists, kept, ⟨?_, fun clash => ?_⟩, fun e failed => ?_, fine⟩
  · rintro ⟨e, failed⟩
    by_contra none
    obtain ⟨p, loaded, -⟩ := fine fun c hc d old clash => none ⟨c, hc, d, old, clash⟩
    rw [loaded] at failed
    cases failed
  · obtain ⟨c, d, old, -, loaded⟩ := refused clash
    exact ⟨_, loaded⟩
  · by_cases clash : ∃ c ∈ q.chains, ∃ d old, Clashes (base listed) c d old
    · obtain ⟨c, d, old, first, loaded⟩ := refused clash
      rw [loaded] at failed
      cases failed
      exact ⟨c, d, old, first, rfl⟩
    · obtain ⟨p, loaded, -⟩ := fine fun c hc d old clash' => clash ⟨c, hc, d, old, clash'⟩
      rw [loaded] at failed
      cases failed

/-- A procedure as it is listed. -/
def twice : Definition := ⟨"twice", "", .gray, [], .procedure none⟩

/-- JSON with two definitions of one id, the first of them of another kind, and a chain that defines
the procedure as well. -/
def twiceJson : Json :=
  .record
    [("definitions",
        .list ([{ twice with behavior := .native "twice" }, twice].map Definition.toJson)),
      ("chains",
        .list [.record [("id", .nat 3),
          ("blocks", .list ([⟨"define", [.definition twice]⟩].map Block.toJson))]])]

/-- The program in it. -/
def twiceListed : Program where
  definitions := .ofList [twice]
  globals := .empty
  chains := [⟨3, Chain.origin, [⟨"define", [.definition twice]⟩]⟩]

theorem read_twiceJson : (Json.parse (twiceJson.pretty 0)).read ofJson = .ok twiceListed := by
  have chain : (Json.record [("id", .nat 3),
      ("blocks", .list ([⟨"define", [.definition twice]⟩].map Block.toJson))]).Plain :=
    .record (List.forall_mem_cons.2 ⟨Behavior.plain_chainId 3,
      List.forall_mem_singleton.2 (Block.faithful.list.plain _)⟩)
  have plain : twiceJson.Plain :=
    .record (List.forall_mem_cons.2 ⟨Definition.faithful.list.plain _,
      List.forall_mem_singleton.2 (.list (List.forall_mem_singleton.2 chain))⟩)
  have kept : twiceJson.Kept := by
    unfold Json.Kept
    decide +kernel
  rw [Json.parse_pretty plain kept (by decide +kernel)]
  rfl

/-- The first definition does not count, so the procedure is recorded with its chain. -/
theorem load_of_read_twice :
    (Json.parse (twiceJson.pretty 0)).read ofJson = .ok twiceListed ∧
      ∃ p, load (twiceJson.pretty 0) = .ok p ∧
        p.definitions.find? "twice" = some { twice with behavior := .procedure (some 3) } := by
  obtain ⟨ds, -, kept, -, -, fine⟩ := load_of_read read_twiceJson
  have only (c : Chain) (hc : c ∈ twiceListed.chains) : c.Defines twice ∧ c.id = 3 := by
    obtain rfl := List.mem_singleton.1 hc
    exact ⟨⟨[], [], rfl⟩, rfl⟩
  have none (c : Chain) (hc : c ∈ twiceListed.chains) (d old : Definition) :
      ¬Clashes (base ds) c d old := by
    rintro ⟨defines, taken, other⟩
    obtain rfl := defines.unique (only c hc).1
    rw [base, ← kept] at taken
    cases taken
    exact other rfl
  obtain ⟨p, loaded, makes⟩ := fine none
  refine ⟨read_twiceJson, p, loaded, ?_⟩
  have finds := makes.definitions "twice"
  generalize p.definitions.find? "twice" = found at finds ⊢
  cases finds with
  | defined chains defines named last =>
    obtain ⟨defines', number⟩ := only _ (chains ▸ List.mem_append_right _ List.mem_cons_self)
    rw [defines.unique defines', number]
  | listed undefined =>
    exact absurd rfl (undefined _ List.mem_cons_self twice (only _ List.mem_cons_self).1)

end Program

end Blockwork
