import Blockwork.Integrity
import Blockwork.Proofs.Bodies
import Mathlib.Data.List.Nodup

/-!
# The defects of a chain

A block is looked at when nothing above it hides it: it stands in the chain itself, or in a slot
for a value of a block that is looked at and has a definition. The check of a chain lists what is
wrong with these blocks in the order in which they are read, and the structure of the chain last.

* `Registry.Faulty` — what can be wrong with a block at a path
* `mem_checkBlock` — what the check of a block lists
* `pairwise_checkBlock` — in which order it lists it
* `Chain.violations_exact` — a check lists the defects, each once, and a chain that shows none is
  sound at every depth
-/

namespace Blockwork

/-! ## The blocks that are looked at -/

/-- The block at a path is looked at. What a block holds beyond the slots of its definition, or in
another slot than one for a value, is not. -/
inductive Chain.Reachable (c : Chain) (r : Registry) : BlockPath → Block → Prop where
  | topLevel {index : Nat} {b : Block} (stands : c.blocks[index]? = some b) :
      Reachable c r (.topLevel index) b
  | nested {path : BlockPath} {b inner : Block} {d : Definition} {slot : Nat} {name : String}
      (outer : Reachable c r path b) (resolves : r.find? b.definition = some d)
      (takes : d.valueSlots[slot]? = some (.argument name))
      (holds : b.child? slot = some inner) : Reachable c r (path.child slot) inner

/-- From a block that is looked at, slots lead to another one. -/
inductive Block.Leads (r : Registry) : Block → List Nat → Block → Prop where
  | here (b : Block) : Leads r b [] b
  | into {b inner last : Block} {d : Definition} {slot : Nat} {slots : List Nat} {name : String}
      (resolves : r.find? b.definition = some d)
      (takes : d.valueSlots[slot]? = some (.argument name))
      (holds : b.child? slot = some inner) (rest : Leads r inner slots last) :
      Leads r b (slot :: slots) last

namespace Block

variable {r : Registry} {b inner last : Block} {slots : List Nat}

theorem child?_eq_some {b inner : Block} {slot : Nat} :
    b.child? slot = some inner ↔ b.arguments[slot]? = some inner.nested := by
  unfold child?
  split
  · next definition arguments holds =>
    obtain ⟨definition', arguments'⟩ := inner
    simp [holds, Block.nested]
  · next other =>
    refine iff_of_false nofun fun holds => ?_
    exact other _ _ holds

/-- One more slot at the end. -/
theorem Leads.child {d : Definition} {slot : Nat} {name : String} (h : b.Leads r slots last)
    (resolves : r.find? last.definition = some d)
    (takes : d.valueSlots[slot]? = some (.argument name)) (holds : last.child? slot = some inner) :
    b.Leads r (slots ++ [slot]) inner := by
  induction h with
  | here b => exact .into resolves takes holds (.here inner)
  | into resolves' takes' holds' _ ih => exact .into resolves' takes' holds' (ih resolves holds)

theorem Leads.descend (h : b.Leads r slots last) : b.descend slots = some last := by
  induction h with
  | here b => rfl
  | into _ _ holds _ ih => rw [Block.descend, holds, Option.bind_some, ih]

/-- A block is above those that it holds. -/
theorem sizeOf_child {slot : Nat} (h : b.child? slot = some inner) :
    sizeOf inner < sizeOf b := by
  obtain ⟨definition, arguments⟩ := b
  have among := List.sizeOf_lt_of_mem (List.mem_of_getElem? (child?_eq_some.mp h))
  simp only [nested, Argument.block.sizeOf_spec] at among
  rw [show sizeOf inner = 1 + sizeOf inner.definition + sizeOf inner.arguments from rfl,
    Block.mk.sizeOf_spec]
  omega

/-- What holds of a block when it holds of those that it holds, holds of all blocks. -/
theorem nesting_induction {P : Block → Prop}
    (step : ∀ b : Block, (∀ slot inner, b.child? slot = some inner → P inner) → P b) (b : Block) :
    P b :=
  step b fun _ inner h =>
    have := sizeOf_child h
    nesting_induction step inner
termination_by sizeOf b

end Block

/-- Where slots lead to from a block that is looked at is looked at: the path grows with each
slot. -/
theorem Block.Leads.reachable {c : Chain} {r : Registry} {index : Nat} {up slots : List Nat}
    {b last : Block} (h : b.Leads r slots last) (reachable : c.Reachable r ⟨index, up⟩ b) :
    c.Reachable r ⟨index, up ++ slots⟩ last := by
  induction h generalizing up with
  | here b => rwa [List.append_nil]
  | @into _ _ _ _ slot slots _ resolves takes holds _ ih =>
    rw [List.append_cons]
    exact ih (.nested reachable resolves takes holds)

namespace Chain

variable {c : Chain} {r : Registry} {path : BlockPath} {b : Block}

/-- The blocks that are looked at are those that slots lead to from a block of the chain. -/
theorem reachable_iff : c.Reachable r path b ↔
    ∃ top, c.blocks[path.index]? = some top ∧ top.Leads r path.slots b := by
  constructor
  · intro h
    induction h with
    | topLevel stands => exact ⟨_, stands, .here _⟩
    | nested _ resolves takes holds ih =>
      obtain ⟨top, stands, leads⟩ := ih
      exact ⟨top, stands, leads.child resolves takes holds⟩
  · rintro ⟨top, stands, leads⟩
    exact leads.reachable (.topLevel stands)

theorem Reachable.at? (h : c.Reachable r path b) : c.at? path = some b := by
  obtain ⟨top, stands, leads⟩ := reachable_iff.mp h
  rw [Chain.at?, stands, Option.bind_some, leads.descend]

theorem index_lt_of_at? (h : c.at? path = some b) : path.index < c.blocks.length := by
  obtain ⟨top, stands, -⟩ := Option.bind_eq_some_iff.mp h
  exact (List.getElem?_eq_some_iff.mp stands).1

end Chain

/-! ## Defects -/

/-- The kinds of arguments that a slot takes; a label takes none. -/
def Slot.Takes : Slot → ArgumentKind → Prop
  | .argument _, kind => kind = .literal ∨ kind = .block
  | .dropdown .., kind => kind = .choice
  | .definitionEditor, kind => kind = .definition
  | .text _, _ | .image _, _ => False

/-- What is wrong with an argument in a slot, the slot at `index` of a definition. -/
inductive Slot.Misfit (definition : String) (index : Nat) :
    Slot → Argument → ViolationKind → Prop where
  | kind {slot : Slot} {a : Argument} (other : ¬ slot.Takes a.kind) :
      Misfit definition index slot a (.slotMismatch definition index slot a.kind)
  | choice {name : String} {choices : List String} {choice : String}
      (notOffered : choice ∉ choices) :
      Misfit definition index (.dropdown name choices) (.choice choice)
        (.choiceNotOffered definition index choice)

/-- What is wrong with a block wherever it stands. -/
inductive Block.Malformed (r : Registry) (b : Block) : ViolationKind → Prop where
  | unknown (unresolved : r.find? b.definition = none) :
      Malformed r b (.unknownDefinition b.definition)
  | arity {d : Definition} (resolves : r.find? b.definition = some d)
      (other : d.arity ≠ b.arguments.length) :
      Malformed r b (.arityMismatch b.definition d.arity b.arguments.length)
  | argument {d : Definition} {index : Nat} {slot : Slot} {a : Argument} {kind : ViolationKind}
      (resolves : r.find? b.definition = some d) (wants : d.valueSlots[index]? = some slot)
      (holds : b.arguments[index]? = some a) (misfit : slot.Misfit b.definition index a kind) :
      Malformed r b kind

/-- What is wrong with a block because of where it stands. -/
inductive Block.Misplaced (r : Registry) (path : BlockPath) (b : Block) : ViolationKind → Prop where
  | control (nested : path.slots ≠ []) (directs : (r.flow? b.definition).isSome) :
      Misplaced r path b (.controlInArgument b.definition)
  | hat {flow : Flow} (top : path.slots = []) (later : 0 < path.index)
      (directs : r.flow? b.definition = some flow) (isHat : flow.isHat) :
      Misplaced r path b (.hatNotFirst b.definition)

/-- What is wrong with the block at a path. -/
def Block.Faulty (r : Registry) (path : BlockPath) (b : Block) (kind : ViolationKind) : Prop :=
  b.Malformed r kind ∨ b.Misplaced r path kind

/-! ## One block -/

/-- Only slots that take an argument are value slots. -/
theorem Definition.isValueSlot_of_valueSlots {d : Definition} {index : Nat} {slot : Slot}
    (h : d.valueSlots[index]? = some slot) : slot.isValueSlot :=
  (List.mem_filter.mp (List.mem_of_getElem? h)).2

namespace Integrity

variable {r : Registry} {path : BlockPath} {definition : String} {f : Finding}

/-- An argument that is not a block in the place of a value is looked at by itself. -/
theorem mem_checkFit {index : Nat} {slot : Slot} {a : Argument} (value : slot.isValueSlot)
    (plain : ∀ name, slot = .argument name → a.kind ≠ .block) :
    f ∈ checkFit path definition index slot a ↔
      f.1 = path ∧ slot.Misfit definition index a f.2 := by
  have of_kind (other : ¬ slot.Takes a.kind) :
      f ∈ [(path, ViolationKind.slotMismatch definition index slot a.kind)] ↔
        f.1 = path ∧ slot.Misfit definition index a f.2 := by
    rw [List.mem_singleton]
    constructor
    · rintro rfl
      exact ⟨rfl, .kind other⟩
    · obtain ⟨path', kind⟩ := f
      rintro ⟨rfl, _ | _⟩
      · rfl
      · exact absurd rfl other
  have of_fit (takes : slot.Takes a.kind) (offered : ∀ name choices choice,
      slot = .dropdown name choices → a = .choice choice → choice ∈ choices) :
      f ∈ ([] : List Finding) ↔ f.1 = path ∧ slot.Misfit definition index a f.2 := by
    refine iff_of_false List.not_mem_nil ?_
    rintro ⟨-, misfit⟩
    generalize f.2 = kind at misfit
    cases misfit with
    | kind other => exact other takes
    | choice notOffered => exact notOffered (offered _ _ _ rfl rfl)
  cases slot with
  | argument name =>
    cases a with
    | literal value => exact of_fit (.inl rfl) (by rintro _ _ _ ⟨⟩)
    | block inner arguments => exact absurd rfl (plain name rfl)
    | choice choice => exact of_kind (by rintro (h | h) <;> cases h)
    | definition d => exact of_kind (by rintro (h | h) <;> cases h)
  | dropdown name choices =>
    cases a with
    | choice choice =>
      by_cases offered : choice ∈ choices
      · rw [checkFit, if_pos (by simpa using offered)]
        refine of_fit rfl ?_
        rintro _ _ _ ⟨⟩ ⟨⟩
        exact offered
      · rw [checkFit, if_neg (by simpa using offered), List.mem_singleton]
        constructor
        · rintro rfl
          exact ⟨rfl, .choice offered⟩
        · obtain ⟨path', kind⟩ := f
          rintro ⟨rfl, other | _⟩
          · exact absurd rfl other
          · rfl
    | literal value => exact of_kind (by rintro ⟨⟩)
    | block inner arguments => exact of_kind (by rintro ⟨⟩)
    | definition d => exact of_kind (by rintro ⟨⟩)
  | definitionEditor =>
    cases a with
    | definition d => exact of_fit rfl (by rintro _ _ _ ⟨⟩)
    | literal value => exact of_kind (by rintro ⟨⟩)
    | block inner arguments => exact of_kind (by rintro ⟨⟩)
    | choice choice => exact of_kind (by rintro ⟨⟩)
  | text label => cases value
  | image asset => cases value

/-- What is listed for a control block in the place of a value. -/
def checkControl (r : Registry) (path : BlockPath) (b : Block) : List Finding :=
  if (r.flow? b.definition).isSome then [(path, .controlInArgument b.definition)] else []

theorem mem_checkControl {b : Block} : f ∈ checkControl r path b ↔
    f = (path, .controlInArgument b.definition) ∧ (r.flow? b.definition).isSome := by
  unfold checkControl
  split <;> simp [*]

/-- An argument is a block in the place of a value, or is looked at by itself. -/
theorem checkArgument_cases (r : Registry) (path : BlockPath) (definition : String) (index : Nat)
    (slot : Slot) (a : Argument) :
    (∃ name inner, slot = .argument name ∧ a = Block.nested inner ∧
        checkArgument r path definition index slot a =
          checkControl r (path.child index) inner ++ checkBlock r (path.child index) inner) ∨
      (∀ name, slot = .argument name → a.kind ≠ .block) ∧
        checkArgument r path definition index slot a = checkFit path definition index slot a := by
  cases a with
  | block inner arguments =>
    cases slot with
    | argument name =>
      refine .inl ⟨name, ⟨inner, arguments⟩, rfl, rfl, ?_⟩
      rw [checkArgument]
      rfl
    | _ => exact .inr ⟨by rintro _ ⟨⟩, by rw [checkArgument]; rintro _ ⟨⟩⟩
  | _ => exact .inr ⟨by rintro _ - ⟨⟩, by rw [checkArgument]; rintro _ _ ⟨⟩⟩

theorem mem_checkArguments {slots : List Slot} {arguments : List Argument} {index : Nat} :
    f ∈ checkArguments r path definition index slots arguments ↔
      ∃ i slot a, slots[i]? = some slot ∧ arguments[i]? = some a ∧
        f ∈ checkArgument r path definition (index + i) slot a := by
  induction arguments generalizing slots index with
  | nil => simp [checkArguments]
  | cons a rest ih =>
    cases slots with
    | nil => simp [checkArguments]
    | cons slot slots =>
      rw [checkArguments, List.mem_append, ih]
      constructor
      · rintro (first | ⟨i, slot', a', hslot, ha, later⟩)
        · exact ⟨0, slot, a, rfl, rfl, first⟩
        · exact ⟨i + 1, slot', a', hslot, ha, by
            rwa [show index + (i + 1) = index + 1 + i by omega]⟩
      · rintro ⟨_ | i, slot', a', hslot, ha, found⟩
        · cases hslot
          cases ha
          exact .inl found
        · exact .inr ⟨i, slot', a', hslot, ha, by
            rwa [show index + 1 + i = index + (i + 1) by omega]⟩

theorem mem_checkDefined {found : Nat} {inSlots : List Slot → List Finding} :
    f ∈ checkDefined r path definition found inSlots ↔
      (r.find? definition = none ∧ f = (path, .unknownDefinition definition)) ∨
      ∃ d, r.find? definition = some d ∧
        ((d.arity ≠ found ∧ f = (path, .arityMismatch definition d.arity found)) ∨
          f ∈ inSlots d.valueSlots) := by
  unfold checkDefined
  cases r.find? definition with
  | none => simp
  | some d => by_cases h : d.arity = found <;> simp [h]

/-- **What the check of a block lists** is wrong with the block, or with what it holds in the place
of a value. -/
theorem mem_checkBlock_iff {b : Block} : f ∈ checkBlock r path b ↔
    (f.1 = path ∧ b.Malformed r f.2) ∨
      ∃ d slot name inner, r.find? b.definition = some d ∧
        d.valueSlots[slot]? = some (.argument name) ∧ b.child? slot = some inner ∧
        f ∈ checkControl r (path.child slot) inner ++ checkBlock r (path.child slot) inner := by
  rw [checkBlock, mem_checkDefined]
  constructor
  · rintro (⟨unresolved, rfl⟩ | ⟨d, resolves, ⟨other, rfl⟩ | found⟩)
    · exact .inl ⟨rfl, .unknown unresolved⟩
    · exact .inl ⟨rfl, .arity resolves other⟩
    · obtain ⟨i, slot, a, wants, holds, found⟩ := mem_checkArguments.mp found
      rw [Nat.zero_add] at found
      rcases checkArgument_cases r path b.definition i slot a with
        ⟨name, inner, rfl, rfl, eq⟩ | ⟨plain, eq⟩
      · exact .inr ⟨d, i, name, inner, resolves, wants, Block.child?_eq_some.mpr holds, eq ▸ found⟩
      · obtain ⟨at_path, misfit⟩ :=
          (mem_checkFit (Definition.isValueSlot_of_valueSlots wants) plain).mp (eq ▸ found)
        exact .inl ⟨at_path, .argument resolves wants holds misfit⟩
  · have inSlots {d : Definition} {i : Nat} {slot : Slot} {a : Argument}
        (wants : d.valueSlots[i]? = some slot) (holds : b.arguments[i]? = some a)
        (found : f ∈ checkArgument r path b.definition i slot a) :
        f ∈ checkArguments r path b.definition 0 d.valueSlots b.arguments :=
      mem_checkArguments.mpr ⟨i, slot, a, wants, holds, by rwa [Nat.zero_add]⟩
    rintro (⟨at_path, malformed⟩ | ⟨d, i, name, inner, resolves, wants, holds, found⟩)
    · obtain ⟨path', kind⟩ := f
      cases at_path
      cases malformed with
      | unknown unresolved => exact .inl ⟨unresolved, rfl⟩
      | arity resolves other => exact .inr ⟨_, resolves, .inl ⟨other, rfl⟩⟩
      | @argument d i slot a _ resolves wants holds misfit =>
        refine .inr ⟨d, resolves, .inr (inSlots wants holds ?_)⟩
        rcases checkArgument_cases r path' b.definition i slot a
          with ⟨name, inner, rfl, rfl, -⟩ | ⟨plain, eq⟩
        · -- a block fits the place of a value
          cases misfit with
          | kind other => exact absurd (Or.inr rfl) other
        · rw [eq]
          exact (mem_checkFit (Definition.isValueSlot_of_valueSlots wants) plain).mpr ⟨rfl, misfit⟩
    · have holds := Block.child?_eq_some.mp holds
      refine .inr ⟨d, resolves, .inr (inSlots wants holds ?_)⟩
      rcases checkArgument_cases r path b.definition i
        (.argument name) inner.nested with ⟨_, inner', -, eq_nested, eq⟩ | ⟨plain, -⟩
      · cases inner
        cases inner'
        cases eq_nested
        rwa [eq]
      · exact absurd rfl (plain name rfl)

/-- What is listed is wrong with the block that slots lead to; a block in the place of a value may
stand where it must not. -/
theorem mem_checkBlock {b : Block} : f ∈ checkBlock r path b ↔
    ∃ slots last, b.Leads r slots last ∧ f.1 = ⟨path.index, path.slots ++ slots⟩ ∧
      (last.Malformed r f.2 ∨ slots ≠ [] ∧ last.Misplaced r f.1 f.2) := by
  induction b using Block.nesting_induction generalizing path with
  | step b ih =>
    rw [mem_checkBlock_iff]
    constructor
    · rintro (⟨at_path, malformed⟩ | ⟨d, slot, name, inner, resolves, takes, holds, found⟩)
      · exact ⟨[], b, .here b, by rw [at_path, List.append_nil], .inl malformed⟩
      · rcases List.mem_append.mp found with control | found
        · obtain ⟨rfl, directs⟩ := mem_checkControl.mp control
          exact ⟨[slot], inner, .into resolves takes holds (.here inner), rfl,
            .inr ⟨List.cons_ne_nil _ _, .control (by simp [BlockPath.child]) directs⟩⟩
        · obtain ⟨slots, last, leads, at_path, wrong⟩ := (ih slot inner holds).mp found
          refine ⟨slot :: slots, last, .into resolves takes holds leads,
            by simpa [BlockPath.child] using at_path, ?_⟩
          exact wrong.imp_right fun misplaced => ⟨List.cons_ne_nil _ _, misplaced.2⟩
    · rintro ⟨slots, last, leads, at_path, wrong⟩
      cases leads with
      | here =>
        exact .inl ⟨by simpa using at_path, wrong.resolve_right fun misplaced => misplaced.1 rfl⟩
      | @into _ inner _ d slot slots name resolves takes holds rest =>
        refine .inr ⟨d, slot, name, inner, resolves, takes, holds, List.mem_append.mpr ?_⟩
        have below (wrong : last.Malformed r f.2 ∨ slots ≠ [] ∧ last.Misplaced r f.1 f.2) :
            f ∈ checkBlock r (path.child slot) inner :=
          (ih slot inner holds).mpr ⟨slots, last, rest, by simpa [BlockPath.child] using at_path,
            wrong⟩
        rcases wrong with malformed | ⟨-, misplaced⟩
        · exact .inr (below (.inl malformed))
        · by_cases there : slots = []
          · subst there
            cases rest
            obtain ⟨path', kind⟩ := f
            cases at_path
            cases misplaced with
            | control _ directs => exact .inl (mem_checkControl.mpr ⟨rfl, directs⟩)
            | hat top => exact absurd top (by simp)
          · exact .inr (below (.inr ⟨there, misplaced⟩))

end Integrity

/-! ## The order of reading -/

/-- The slot whose argument is wrong. -/
def ViolationKind.slot? : ViolationKind → Option Nat
  | .slotMismatch _ index .. | .choiceNotOffered _ index _ => some index
  | _ => none

/-- What is said first about one block: that it stands where it must not, then what is wrong with it
as a whole, then what is wrong with its arguments. -/
def ViolationKind.rank : ViolationKind → Nat
  | .controlInArgument _ | .hatNotFirst _ => 0
  | .unknownDefinition _ | .arityMismatch .. => 1
  | _ => 2

/-- Where in a chain something is wrong: the way to the block, and to the argument if it is one that
is wrong. -/
def Finding.place (f : Finding) : List Nat := f.1.index :: (f.1.slots ++ f.2.slot?.toList)

/-- The order of reading: a block before what it holds, and that from the first slot to the last. -/
def Finding.Before (f g : Finding) : Prop :=
  f.place < g.place ∨ f.place = g.place ∧ f.2.rank < g.2.rank

namespace Finding

variable {f g : Finding} {way : List Nat}

theorem Before.ne (h : f.Before g) : f ≠ g := by
  rintro rfl
  rcases h with lt | ⟨-, lt⟩
  · exact List.lt_irrefl _ lt
  · exact Nat.lt_irrefl _ lt

/-- What is wrong along a way comes before what is wrong further down. -/
theorem before_of_longer {slot : Nat} (at_way : f.place = way) (below : way ++ [slot] <+: g.place) :
    f.Before g := by
  obtain ⟨rest, eq⟩ := below
  refine .inl ?_
  rw [at_way, ← eq, List.append_assoc]
  simpa using @List.append_left_lt _ _ way _ _ (List.nil_lt_cons slot rest)

/-- What is wrong down one slot comes before what is wrong down a later one. -/
theorem before_of_slots {slot later : Nat} (lt : slot < later) (here : way ++ [slot] <+: f.place)
    (there : way ++ [later] <+: g.place) : f.Before g := by
  obtain ⟨rest, eq⟩ := here
  obtain ⟨rest', eq'⟩ := there
  refine .inl ?_
  rw [← eq, ← eq', List.append_assoc, List.append_assoc]
  exact List.append_left_lt (List.cons_lt_cons_iff.mpr (.inl lt))

end Finding

/-- The way to the block at a path. -/
def BlockPath.way (path : BlockPath) : List Nat := path.index :: path.slots

namespace Integrity

variable {r : Registry} {path : BlockPath} {definition : String} {f : Finding} {b : Block}

theorem place_of_whole {kind : ViolationKind} (whole : kind.slot? = none) :
    Finding.place (path, kind) = path.way := by
  simp [Finding.place, BlockPath.way, whole]

theorem way_prefix_of_mem_checkBlock (h : f ∈ checkBlock r path b) : path.way <+: f.place := by
  obtain ⟨slots, _, -, at_path, -⟩ := mem_checkBlock.mp h
  exact ⟨slots ++ f.2.slot?.toList, by simp [Finding.place, BlockPath.way, at_path]⟩

theorem way_prefix_of_mem_checkArgument {index : Nat} {slot : Slot} {a : Argument}
    (value : slot.isValueSlot) (h : f ∈ checkArgument r path definition index slot a) :
    path.way ++ [index] <+: f.place := by
  rcases checkArgument_cases r path definition index slot a with
    ⟨name, inner, rfl, rfl, eq⟩ | ⟨plain, eq⟩
  · rw [eq] at h
    rcases List.mem_append.mp h with control | below
    · obtain ⟨rfl, -⟩ := mem_checkControl.mp control
      exact ⟨[], by simp [Finding.place, BlockPath.way, BlockPath.child, ViolationKind.slot?]⟩
    · exact way_prefix_of_mem_checkBlock below
  · obtain ⟨at_path, misfit⟩ := (mem_checkFit value plain).mp (eq ▸ h)
    have slot : f.2.slot? = some index := by
      generalize f.2 = kind at misfit
      cases misfit <;> rfl
    exact ⟨[], by simp [Finding.place, BlockPath.way, at_path, slot]⟩

/-- What is wrong with a block as a whole comes before what is wrong with its arguments. -/
theorem before_checkArguments {kind : ViolationKind} {d : Definition} {arguments : List Argument}
    (whole : kind.slot? = none)
    (h : f ∈ checkArguments r path definition 0 d.valueSlots arguments) :
    Finding.Before (path, kind) f := by
  obtain ⟨i, slot, a, wants, -, found⟩ := mem_checkArguments.mp h
  exact Finding.before_of_longer (place_of_whole whole)
    (way_prefix_of_mem_checkArgument (Definition.isValueSlot_of_valueSlots wants) found)

/-- Where a block stands is looked at before the block. -/
theorem before_checkBlock {kind : ViolationKind} (whole : kind.slot? = none) (first : kind.rank = 0)
    (h : f ∈ checkBlock r path b) : Finding.Before (path, kind) f := by
  rw [checkBlock] at h
  rcases mem_checkDefined.mp h with ⟨-, rfl⟩ | ⟨d, -, ⟨-, rfl⟩ | found⟩
  · exact .inr ⟨(place_of_whole whole).trans (place_of_whole rfl).symm, first ▸ Nat.zero_lt_one⟩
  · exact .inr ⟨(place_of_whole whole).trans (place_of_whole rfl).symm, first ▸ Nat.zero_lt_one⟩
  · exact before_checkArguments whole found

theorem pairwise_checkFit {index : Nat} {slot : Slot} {a : Argument} :
    (checkFit path definition index slot a).Pairwise Finding.Before := by
  unfold checkFit
  split <;> (try split) <;> simp

theorem pairwise_checkArguments {slots : List Slot} {arguments : List Argument} {index : Nat}
    (values : ∀ slot ∈ slots, slot.isValueSlot)
    (each : ∀ i slot, ∀ a ∈ arguments,
      (checkArgument r path definition i slot a).Pairwise Finding.Before) :
    (checkArguments r path definition index slots arguments).Pairwise Finding.Before := by
  induction arguments generalizing slots index with
  | nil => exact .nil
  | cons a rest ih =>
    cases slots with
    | nil => exact .nil
    | cons slot slots =>
      rw [checkArguments]
      refine List.pairwise_append.mpr ⟨each _ _ a List.mem_cons_self,
        ih (fun slot among => values slot (List.mem_cons_of_mem _ among))
          (fun i slot a among => each i slot a (List.mem_cons_of_mem _ among)), ?_⟩
      intro f here g there
      obtain ⟨i, later, a', wants, -, found⟩ := mem_checkArguments.mp there
      have value := values later (List.mem_cons_of_mem _ (List.mem_of_getElem? wants))
      exact Finding.before_of_slots (show index < index + 1 + i by omega)
        (way_prefix_of_mem_checkArgument (values slot List.mem_cons_self) here)
        (way_prefix_of_mem_checkArgument value found)

/-- **What is wrong with a block is listed in the order of reading.** -/
theorem pairwise_checkBlock : (checkBlock r path b).Pairwise Finding.Before := by
  induction b using Block.nesting_induction generalizing path with
  | step b ih =>
    have each (i : Nat) (slot : Slot) (a : Argument) (among : a ∈ b.arguments) :
        (checkArgument r path b.definition i slot a).Pairwise Finding.Before := by
      rcases checkArgument_cases r path b.definition i slot a with
        ⟨name, inner, rfl, rfl, eq⟩ | ⟨-, eq⟩
      · obtain ⟨k, holds⟩ := List.mem_iff_getElem?.mp among
        rw [eq]
        refine List.pairwise_append.mpr ⟨?_, ih k inner (Block.child?_eq_some.mpr holds), ?_⟩
        · unfold checkControl
          split <;> simp
        · intro f control g below
          obtain ⟨rfl, -⟩ := mem_checkControl.mp control
          exact before_checkBlock rfl rfl below
      · rw [eq]
        exact pairwise_checkFit
    rw [checkBlock, checkDefined]
    cases r.find? b.definition with
    | none => exact List.pairwise_singleton ..
    | some d =>
      refine List.pairwise_append.mpr ⟨by split <;> simp, pairwise_checkArguments
        (fun slot among => (List.mem_filter.mp among).2) each, ?_⟩
      intro f whole g below
      have eq : f = (path, .arityMismatch b.definition d.arity b.arguments.length) := by
        split at whole
        · cases whole
        · exact List.mem_singleton.mp whole
      subst eq
      exact before_checkArguments rfl below

/-! ## The blocks of a chain -/

theorem mem_checkTopLevel {index : Nat} : f ∈ checkTopLevel r index b ↔
    (f = (.topLevel index, .hatNotFirst b.definition) ∧ 0 < index ∧
        (r.flow? b.definition).any Flow.isHat) ∨ f ∈ checkBlock r (.topLevel index) b := by
  rw [checkTopLevel, List.mem_append]
  refine or_congr_left ?_
  split <;> simp_all

theorem pairwise_checkTopLevel {index : Nat} :
    (checkTopLevel r index b).Pairwise Finding.Before := by
  rw [checkTopLevel]
  refine List.pairwise_append.mpr ⟨by split <;> simp, pairwise_checkBlock, ?_⟩
  intro f hat g below
  have eq : f = (.topLevel index, .hatNotFirst b.definition) := by
    split at hat
    · exact List.mem_singleton.mp hat
    · cases hat
  subst eq
  exact before_checkBlock rfl rfl below

theorem index_of_mem_checkTopLevel {index : Nat} (h : f ∈ checkTopLevel r index b) :
    f.1.index = index := by
  rcases mem_checkTopLevel.mp h with ⟨rfl, -⟩ | found
  · rfl
  · obtain ⟨slots, last, -, at_path, -⟩ := mem_checkBlock.mp found
    rw [at_path]
    rfl

/-- What is wrong with the blocks of a chain. -/
def checkBlocks (r : Registry) (c : Chain) : List Finding :=
  c.blocks.zipIdx.flatMap fun (b, index) => checkTopLevel r index b

variable {c : Chain}

/-- The check of the blocks lists the defects of the blocks that are looked at. -/
theorem mem_checkBlocks {kind : ViolationKind} : (path, kind) ∈ checkBlocks r c ↔
    ∃ b, c.Reachable r path b ∧ b.Faulty r path kind := by
  have mem : (path, kind) ∈ checkBlocks r c ↔
      ∃ index top, c.blocks[index]? = some top ∧ (path, kind) ∈ checkTopLevel r index top := by
    simp only [checkBlocks, List.mem_flatMap, Prod.exists, List.mem_zipIdx_iff_getElem?]
    exact exists_comm
  rw [mem]
  constructor
  · rintro ⟨index, top, stands, found⟩
    rcases mem_checkTopLevel.mp found with ⟨eq, later, hat⟩ | found
    · cases eq
      obtain ⟨flow, directs, isHat⟩ := (Option.any_eq_true _ _).mp hat
      exact ⟨top, .topLevel stands, .inr (.hat rfl later directs isHat)⟩
    · obtain ⟨slots, last, leads, at_path, wrong⟩ := mem_checkBlock.mp found
      cases at_path
      exact ⟨last, leads.reachable (.topLevel stands), wrong.imp_right And.right⟩
  · rintro ⟨b, reachable, wrong⟩
    obtain ⟨top, stands, leads⟩ := Chain.reachable_iff.mp reachable
    refine ⟨path.index, top, stands, mem_checkTopLevel.mpr ?_⟩
    have below (wrong : b.Malformed r kind ∨ path.slots ≠ [] ∧ b.Misplaced r path kind) :
        (path, kind) ∈ checkBlock r (.topLevel path.index) top :=
      mem_checkBlock.mpr ⟨path.slots, b, leads, rfl, wrong⟩
    rcases wrong with malformed | misplaced
    · exact .inr (below (.inl malformed))
    · cases misplaced with
      | control nested directs => exact .inr (below (.inr ⟨nested, .control nested directs⟩))
      | hat top' later directs isHat =>
        obtain ⟨index, slots⟩ := path
        obtain rfl : slots = [] := top'
        cases leads
        exact .inl ⟨rfl, later, by rw [directs]; exact isHat⟩

theorem pairwise_checkBlocks : (checkBlocks r c).Pairwise Finding.Before := by
  refine List.pairwise_flatMap.mpr ⟨fun _ _ => pairwise_checkTopLevel, ?_⟩
  rw [List.pairwise_iff_getElem]
  intro i j hi hj lt f here g there
  rw [List.getElem_zipIdx] at here there
  -- paths of different blocks differ in the first place
  have index := index_of_mem_checkTopLevel here
  have index' := index_of_mem_checkTopLevel there
  refine .inl (List.cons_lt_cons_iff.mpr (.inl ?_))
  rw [index, index']
  omega

end Integrity

/-! ## The structure of a chain -/

/-- The part of the block at which bodies fail to be nested. -/
def StructureError.Blames : StructureError → Flow → Prop
  | .unmatchedEnd _, flow => flow = .endBody
  | .strayElse _, flow | .duplicateElse .., flow => flow = .otherwise
  | .unterminated _, flow => flow.opensBody

namespace Body

/-- A block that is not admitted is at fault itself. -/
theorem meet_error {index : Nat} {flow : Option Flow} {stack : List OpenBody} {e : StructureError}
    (h : meet index flow stack = .error e) :
    e.index = index ∧ ∃ part, flow = some part ∧ e.Blames part := by
  unfold meet at h
  split at h
  · split at h
    · cases h
    · cases h
      exact ⟨rfl, _, rfl, rfl⟩
    · cases h
      exact ⟨rfl, _, rfl, rfl⟩
  · split at h
    · cases h
    · cases h
      exact ⟨rfl, _, rfl, rfl⟩
  · cases h
  · cases h

/-- Open bodies are opened by blocks of the chain. -/
def Opened (flows : List (Option Flow)) (stack : List OpenBody) : Prop :=
  ∀ b ∈ stack, flows[b.opener]? = some (some b.flow) ∧ b.flow.opensBody

theorem Meets.opened {flows : List (Option Flow)} {index : Nat} {flow : Option Flow}
    {stack after : List OpenBody} {closed : Option Body} (h : Meets index flow stack after closed)
    (here : flows[index]? = some flow) (opened : Opened flows stack) : Opened flows after := by
  cases h with
  | plain => exact opened
  | opener opens =>
    intro b among
    rcases List.mem_cons.mp among with rfl | among
    · exact ⟨here, opens⟩
    · exact opened b among
  | otherwise =>
    intro b among
    rcases List.mem_cons.mp among with rfl | among
    · exact opened ⟨_, .ifThen, none⟩ List.mem_cons_self
    · exact opened b (List.mem_cons_of_mem _ among)
  | close => exact fun b among => opened b (List.mem_cons_of_mem _ among)

/-- **A chain whose bodies are not nested names a block that is at fault.** -/
theorem scan_error {flows rest : List (Option Flow)} {index : Nat} {stack : List OpenBody}
    {e : StructureError} (h : scan index stack rest = .error e) (left : flows.drop index = rest)
    (opened : Opened flows stack) :
    ∃ part, flows[e.index]? = some (some part) ∧ e.Blames part := by
  induction rest generalizing index stack with
  | nil =>
    unfold scan at h
    split at h
    · next b last =>
      -- what is open at the end was opened by a block of the chain
      cases h
      obtain ⟨stands, opens⟩ := opened b (List.mem_of_getLast? last)
      exact ⟨b.flow, stands, opens⟩
    · cases h
  | cons flow rest ih =>
    have here : flows[index]? = some flow := by
      rw [← List.head?_drop, left, List.head?_cons]
    unfold scan at h
    cases hm : meet index flow stack with
    | error e' =>
      rw [hm] at h
      cases h
      obtain ⟨at_index, part, rfl, blames⟩ := meet_error hm
      exact ⟨part, at_index ▸ here, blames⟩
    | ok r =>
      obtain ⟨after, closed⟩ := r
      rw [hm] at h
      cases hs : scan (index + 1) after rest with
      | error e' =>
        simp only [bind, Except.bind, hs] at h
        cases h
        refine ih hs ?_ ((meets_of_meet hm).opened here opened)
        rw [← List.tail_drop, left, List.tail_cons]
      | ok later =>
        simp only [bind, Except.bind, hs] at h
        cases h

end Body

namespace Chain

variable {c : Chain} {r : Registry}

theorem blames_of_shapes {e : StructureError} (h : c.shapes r = .error e) :
    ∃ b flow, c.at? (.topLevel e.index) = some b ∧ r.flow? b.definition = some flow ∧
      e.Blames flow := by
  unfold Chain.shapes shapesOfFlows at h
  cases hs : Body.scan 0 [] (c.blocks.map fun b => r.flow? b.definition) with
  | ok bodies =>
    rw [hs] at h
    cases h
  | error e' =>
    rw [hs] at h
    cases h
    obtain ⟨flow, stands, blames⟩ := Body.scan_error hs List.drop_zero nofun
    rw [List.getElem?_map, Option.map_eq_some_iff] at stands
    obtain ⟨b, stands, directs⟩ := stands
    exact ⟨b, flow, by rw [Chain.at?, BlockPath.topLevel, stands]; rfl, directs, blames⟩

end Chain

/-! ## Sound chains -/

/-- An argument is what a slot takes, and a choice is one of those that the slot offers. -/
def Slot.Fits (slot : Slot) (a : Argument) : Prop :=
  slot.Takes a.kind ∧ ∀ name choices choice,
    slot = .dropdown name choices → a = .choice choice → choice ∈ choices

/-- A block has a definition, and an argument that fits for each of its slots. -/
def Block.WellFormed (r : Registry) (b : Block) : Prop :=
  ∃ d, r.find? b.definition = some d ∧ d.arity = b.arguments.length ∧
    ∀ (i : Nat) (slot : Slot) (a : Argument),
      d.valueSlots[i]? = some slot → b.arguments[i]? = some a → slot.Fits a

/-- At every depth blocks are well formed and stand where they may, and the bodies are nested. -/
structure Chain.Sound (c : Chain) (r : Registry) : Prop where
  wellFormed : ∀ path b, c.at? path = some b → b.WellFormed r
  /-- A control block is not the value of a slot. -/
  values : ∀ path b, c.at? path = some b → path.slots ≠ [] → r.flow? b.definition = none
  hats : ∀ path b flow, c.at? path = some b → r.flow? b.definition = some flow → flow.isHat →
    path = .topLevel 0
  bodies : ∃ shapes, c.shapes r = .ok shapes

theorem Slot.fits_iff {slot : Slot} {a : Argument} {definition : String} {index : Nat} :
    slot.Fits a ↔ ∀ kind, ¬ slot.Misfit definition index a kind := by
  constructor
  · rintro ⟨takes, offered⟩ kind misfit
    cases misfit with
    | kind other => exact other takes
    | choice notOffered => exact notOffered (offered _ _ _ rfl rfl)
  · intro fits
    refine ⟨?_, ?_⟩
    · by_contra other
      exact fits _ (.kind other)
    · rintro name choices choice rfl rfl
      by_contra notOffered
      exact fits _ (.choice notOffered)

theorem Block.wellFormed_iff {r : Registry} {b : Block} :
    b.WellFormed r ↔ ∀ kind, ¬ b.Malformed r kind := by
  constructor
  · rintro ⟨d, resolves, arity, fits⟩ kind malformed
    cases malformed with
    | unknown unresolved => simp [resolves] at unresolved
    | arity resolves' other =>
      cases resolves.symm.trans resolves'
      exact other arity
    | argument resolves' wants holds misfit =>
      cases resolves.symm.trans resolves'
      exact Slot.fits_iff.mp (fits _ _ _ wants holds) _ misfit
  · intro sound
    cases resolves : r.find? b.definition with
    | none => exact absurd (.unknown resolves) (sound _)
    | some d =>
      refine ⟨d, resolves, ?_, fun i slot a wants holds => Slot.fits_iff.mpr fun kind misfit =>
        sound kind (.argument resolves wants holds misfit)⟩
      by_contra other
      exact sound _ (.arity resolves other)

/-- A well-formed block holds a block only in the place of a value. -/
theorem Block.WellFormed.takes_block {r : Registry} {b inner : Block} {slot : Nat}
    (h : b.WellFormed r) (holds : b.child? slot = some inner) :
    ∃ d name, r.find? b.definition = some d ∧ d.valueSlots[slot]? = some (.argument name) := by
  obtain ⟨d, resolves, arity, fits⟩ := h
  have holds := Block.child?_eq_some.mp holds
  have lt : slot < d.valueSlots.length := by
    rw [show d.valueSlots.length = b.arguments.length from arity]
    exact (List.getElem?_eq_some_iff.mp holds).1
  have wants : d.valueSlots[slot]? = some d.valueSlots[slot] := List.getElem?_eq_getElem lt
  have takes : d.valueSlots[slot].Takes .block := (fits _ _ _ wants holds).1
  generalize d.valueSlots[slot] = s at takes wants
  cases s with
  | argument name => exact ⟨d, name, resolves, wants⟩
  | _ => cases takes

namespace Chain

variable {c : Chain} {r : Registry}

/-- Where the blocks that are looked at are well formed, every block is looked at. -/
theorem reachable_of_descend {index : Nat} {up slots : List Nat} {b last : Block}
    (wellFormed : ∀ path b, c.Reachable r path b → b.WellFormed r)
    (reachable : c.Reachable r ⟨index, up⟩ b) (down : b.descend slots = some last) :
    c.Reachable r ⟨index, up ++ slots⟩ last := by
  induction slots generalizing up b with
  | nil =>
    cases down
    rwa [List.append_nil]
  | cons slot slots ih =>
    obtain ⟨inner, holds, down⟩ := Option.bind_eq_some_iff.mp down
    obtain ⟨d, name, resolves, takes⟩ := (wellFormed _ _ reachable).takes_block holds
    rw [List.append_cons]
    exact ih (.nested reachable resolves takes holds) down

theorem reachable_of_at? {path : BlockPath} {b : Block}
    (wellFormed : ∀ path b, c.Reachable r path b → b.WellFormed r) (h : c.at? path = some b) :
    c.Reachable r path b := by
  obtain ⟨top, stands, down⟩ := Option.bind_eq_some_iff.mp h
  exact reachable_of_descend wellFormed (.topLevel stands) down

/-- A chain is sound when nothing is wrong with the blocks that are looked at, nor with its
structure. -/
theorem sound_iff : c.Sound r ↔
    (∀ path b kind, c.Reachable r path b → ¬ b.Faulty r path kind) ∧
      ∃ shapes, c.shapes r = .ok shapes := by
  constructor
  · rintro ⟨wellFormed, values, hats, bodies⟩
    refine ⟨?_, bodies⟩
    rintro path b kind reachable (malformed | misplaced)
    · exact Block.wellFormed_iff.mp (wellFormed _ _ reachable.at?) kind malformed
    · cases misplaced with
      | control nested directs => simp [values _ _ reachable.at? nested] at directs
      | hat top later directs isHat =>
        rw [hats _ _ _ reachable.at? directs isHat] at later
        exact Nat.lt_irrefl 0 later
  · rintro ⟨faultless, bodies⟩
    have wellFormed (path : BlockPath) (b : Block) (reachable : c.Reachable r path b) :
        b.WellFormed r :=
      Block.wellFormed_iff.mpr fun kind malformed =>
        faultless path b kind reachable (.inl malformed)
    have values (path : BlockPath) (b : Block) (at_path : c.at? path = some b)
        (nested : path.slots ≠ []) : r.flow? b.definition = none := by
      by_contra directs
      exact faultless _ _ _ (reachable_of_at? wellFormed at_path)
        (.inr (.control nested (Option.isSome_iff_ne_none.mpr directs)))
    refine ⟨fun path b at_path => wellFormed _ _ (reachable_of_at? wellFormed at_path), values,
      fun path b flow at_path directs isHat => ?_, bodies⟩
    by_cases top : path.slots = []
    · obtain ⟨index, slots⟩ := path
      obtain rfl : slots = [] := top
      cases index with
      | zero => rfl
      | succ index =>
        exact absurd (.inr (.hat rfl (Nat.succ_pos index) directs isHat))
          (faultless _ _ _ (reachable_of_at? wellFormed at_path))
    · rw [values _ _ at_path top] at directs
      cases directs

/-! ## The check of a chain -/

/-- The findings about a chain as violations. -/
def report (c : Chain) (f : Finding) : Violation := ⟨c.id, f.1, f.2⟩

theorem report_injective : Function.Injective c.report := by
  rintro ⟨path, kind⟩ ⟨path', kind'⟩ eq
  cases eq
  rfl

theorem violations_of_ok {shapes : List Shape} (h : c.shapes r = .ok shapes) :
    c.violations r = (Integrity.checkBlocks r c).map c.report := by
  have none : Integrity.checkShapes r c = [] := by rw [Integrity.checkShapes, h]
  show (Integrity.checkBlocks r c ++ Integrity.checkShapes r c).map c.report = _
  rw [none, List.append_nil]

theorem violations_of_error {e : StructureError} (h : c.shapes r = .error e) :
    c.violations r = (Integrity.checkBlocks r c).map c.report ++
      [⟨c.id, .topLevel e.index, .bodies e⟩] := by
  have one : Integrity.checkShapes r c = [(.topLevel e.index, .bodies e)] := by
    rw [Integrity.checkShapes, h]
  show (Integrity.checkBlocks r c ++ Integrity.checkShapes r c).map c.report = _
  rw [one, List.map_append]
  rfl

/-- A violation is a defect of a block, or the error of the structure. -/
theorem mem_violations {v : Violation} (h : v ∈ c.violations r) :
    (∃ path kind b, v = c.report (path, kind) ∧ c.Reachable r path b ∧ b.Faulty r path kind) ∨
      ∃ e, c.shapes r = .error e ∧ v = ⟨c.id, .topLevel e.index, .bodies e⟩ := by
  have of_blocks (h : v ∈ (Integrity.checkBlocks r c).map c.report) :
      ∃ path kind b, v = c.report (path, kind) ∧ c.Reachable r path b ∧ b.Faulty r path kind := by
    obtain ⟨⟨path, kind⟩, found, rfl⟩ := List.mem_map.mp h
    obtain ⟨b, reachable, faulty⟩ := Integrity.mem_checkBlocks.mp found
    exact ⟨path, kind, b, rfl, reachable, faulty⟩
  cases hs : c.shapes r with
  | ok shapes =>
    rw [violations_of_ok hs] at h
    exact .inl (of_blocks h)
  | error e =>
    rw [violations_of_error hs, List.mem_append, List.mem_singleton] at h
    exact h.imp of_blocks fun eq => ⟨e, rfl, eq⟩

/-- The structure is not a defect of a block. -/
theorem not_faulty_bodies {path : BlockPath} {b : Block} {e : StructureError} :
    ¬ b.Faulty r path (.bodies e) := by
  rintro (malformed | misplaced)
  · cases malformed with
    | argument _ _ _ misfit => cases misfit
  · cases misplaced

theorem nodup_violations : (c.violations r).Nodup := by
  have blocks : ((Integrity.checkBlocks r c).map c.report).Nodup :=
    List.Nodup.map report_injective (Integrity.pairwise_checkBlocks.imp Finding.Before.ne)
  cases hs : c.shapes r with
  | ok shapes => rwa [violations_of_ok hs]
  | error e =>
    rw [violations_of_error hs]
    refine List.nodup_append.mpr ⟨blocks, List.nodup_singleton _, ?_⟩
    rintro v hv _ hw rfl
    obtain rfl := List.mem_singleton.mp hw
    obtain ⟨⟨path, kind⟩, found, eq⟩ := List.mem_map.mp hv
    cases eq
    obtain ⟨b, -, faulty⟩ := Integrity.mem_checkBlocks.mp found
    exact not_faulty_bodies faulty

theorem violations_eq_nil_iff : c.violations r = [] ↔ c.Sound r := by
  rw [sound_iff]
  cases hs : c.shapes r with
  | ok shapes =>
    rw [violations_of_ok hs, List.map_eq_nil_iff, List.eq_nil_iff_forall_not_mem]
    constructor
    · intro none
      exact ⟨fun path b kind reachable faulty =>
        none _ (Integrity.mem_checkBlocks.mpr ⟨b, reachable, faulty⟩), shapes, rfl⟩
    · rintro ⟨faultless, -⟩ ⟨path, kind⟩ found
      obtain ⟨b, reachable, faulty⟩ := Integrity.mem_checkBlocks.mp found
      exact faultless path b kind reachable faulty
  | error e =>
    rw [violations_of_error hs]
    refine iff_of_false (by simp) ?_
    rintro ⟨-, shapes, ok⟩
    cases ok

/-- **The check of a chain reports exactly its defects.** It lists those of the blocks that are
looked at, each once and in the order of reading, and then the error of the structure if there is
one. Each path leads to the block at fault. Nothing is reported if and only if the chain is sound
at every depth. -/
theorem violations_exact (c : Chain) (r : Registry) :
    (∃ found : List Finding,
      (∀ path kind, (path, kind) ∈ found ↔ ∃ b, c.Reachable r path b ∧ b.Faulty r path kind) ∧
      found.Pairwise Finding.Before ∧
      (∀ shapes, c.shapes r = .ok shapes → c.violations r = found.map c.report) ∧
      (∀ e, c.shapes r = .error e →
        c.violations r = found.map c.report ++ [⟨c.id, .topLevel e.index, .bodies e⟩])) ∧
    (c.violations r).Nodup ∧
    (∀ v ∈ c.violations r, v.chain = c.id ∧ v.path.index < c.blocks.length ∧
      ∃ b, c.at? v.path = some b ∧
        ((c.Reachable r v.path b ∧ b.Faulty r v.path v.kind) ∨
          ∃ e flow, c.shapes r = .error e ∧ v.path = .topLevel e.index ∧ v.kind = .bodies e ∧
            r.flow? b.definition = some flow ∧ e.Blames flow)) ∧
    (c.violations r = [] ↔ c.Sound r) := by
  refine ⟨⟨Integrity.checkBlocks r c, fun _ _ => Integrity.mem_checkBlocks,
    Integrity.pairwise_checkBlocks, fun _ => violations_of_ok, fun _ => violations_of_error⟩,
    nodup_violations, fun v h => ?_, violations_eq_nil_iff⟩
  rcases mem_violations h with ⟨path, kind, b, rfl, reachable, faulty⟩ | ⟨e, hs, rfl⟩
  · exact ⟨rfl, index_lt_of_at? reachable.at?, b, reachable.at?, .inl ⟨reachable, faulty⟩⟩
  · obtain ⟨b, flow, at_path, directs, blames⟩ := blames_of_shapes hs
    exact ⟨rfl, index_lt_of_at? at_path, b, at_path, .inr ⟨e, flow, hs, rfl, rfl, directs, blames⟩⟩

end Chain

end Blockwork
