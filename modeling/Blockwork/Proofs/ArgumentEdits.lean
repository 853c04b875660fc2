import Blockwork.Proofs.Defects

/-!
# Edits of one argument

An edit puts something into one argument slot of a block, wherever in its chain the block is. It is
refused when the slot does not hold what the edit is about. The block keeps its definition, and so
do the blocks around it. So the structure of the chain is what it was, and a slot that held a block
still takes one: a chain in which nothing is wrong stays so, as long as what is put in fits.

## Main statements

* `ArgumentEdit.act_of_takes`, `ArgumentEdit.act_of_not_takes`: what an edit does.
* `Block.edit_of_descend`: an edit further down replaces the block that slots lead to.
* `Integrity.checkBlock_eq_nil_iff`: what the check of a block finds nothing wrong with.
* `Chain.violations_of_edit`: a chain without violations stays without them.
-/

namespace Blockwork

/-! ## Edits -/

/-- An edit of one argument of a block. -/
inductive ArgumentEdit where
  /-- Puts a block in. -/
  | attach (slot : Nat) (inner : Block)
  /-- Takes a block out. -/
  | detach (slot : Nat)
  /-- Changes a literal. -/
  | setLiteral (slot : Nat) (value : Value)
  /-- Changes a choice. -/
  | setChoice (slot : Nat) (choice : String)

/-- What an edit answers. -/
inductive EditAnswer where
  /-- Nothing has been changed. -/
  | refused
  | done
  /-- The argument that was replaced. -/
  | argument (old : Argument)
  /-- The block that was taken out. -/
  | block (old : Block)
  /-- The chain that was taken out. -/
  | chain (old : Chain)
  /-- The number of the chain that was added. -/
  | number (id : ChainId)
  /-- Why the procedure of a chain is not registered; nothing has been changed. -/
  | error (e : RegistryError)

namespace ArgumentEdit

/-- Does an edit: its answer, and the block after it. -/
def act (b : Block) : ArgumentEdit → EditAnswer × Block
  | attach slot inner =>
    match b.attach slot inner with
    | some (old, b) => (.argument old, b)
    | none => (.refused, b)
  | detach slot =>
    match b.detach slot with
    | some (inner, b) => (.block inner, b)
    | none => (.refused, b)
  | setLiteral slot value =>
    match b.setLiteral slot value with
    | some b => (.done, b)
    | none => (.refused, b)
  | setChoice slot choice =>
    match b.setChoice slot choice with
    | some b => (.done, b)
    | none => (.refused, b)

/-- The slot that is edited. -/
def slot : ArgumentEdit → Nat
  | attach slot _ | detach slot | setLiteral slot _ | setChoice slot _ => slot

/-- The kinds of arguments that an edit is about. -/
def Takes : ArgumentEdit → ArgumentKind → Prop
  | attach .., _ => True
  | detach _, kind => kind = .block
  | setLiteral .., kind => kind = .literal
  | setChoice .., kind => kind = .choice

/-- What the slot holds afterwards. -/
def content : ArgumentEdit → Argument
  | attach _ inner => inner.nested
  | detach _ => .literal (.text "")
  | setLiteral _ value => .literal value
  | setChoice _ choice => .choice choice

/-- What is answered about the argument that is replaced. -/
def answer (old : Argument) : ArgumentEdit → EditAnswer
  | attach .. => .argument old
  | detach _ =>
    match old with
    | .block definition arguments => .block ⟨definition, arguments⟩
    | _ => .refused
  | setLiteral .. | setChoice .. => .done

variable {e : ArgumentEdit} {b : Block} {old : Argument}

/-- **An edit that is not refused replaces one argument.** -/
theorem act_of_takes (holds : b.arguments[e.slot]? = some old) (takes : e.Takes old.kind) :
    e.act b = (e.answer old, b.setArgument e.slot e.content) := by
  cases e with
  | attach slot inner =>
    rw [act, Block.attach, show b.arguments[slot]? = some old from holds]
    rfl
  | detach slot =>
    cases old with
    | block definition arguments =>
      have there : b.child? slot = some ⟨definition, arguments⟩ := Block.child?_eq_some.mpr holds
      rw [act, Block.detach, there]
      rfl
    | _ => cases takes
  | setLiteral slot value =>
    cases old with
    | literal before =>
      rw [act, Block.setLiteral, show b.arguments[slot]? = some (.literal before) from holds]
      rfl
    | _ => cases takes
  | setChoice slot choice =>
    cases old with
    | choice before =>
      rw [act, Block.setChoice, show b.arguments[slot]? = some (.choice before) from holds]
      rfl
    | _ => cases takes

/-- **An edit is refused** when there is no such slot or it holds something else. -/
theorem act_of_not_takes (other : ∀ old, b.arguments[e.slot]? = some old → ¬ e.Takes old.kind) :
    e.act b = (.refused, b) := by
  cases e with
  | attach slot inner =>
    cases holds : b.arguments[slot]? with
    | none =>
      rw [act, Block.attach, holds]
      rfl
    | some old => exact absurd trivial (other old holds)
  | detach slot =>
    cases there : b.child? slot with
    | none =>
      rw [act, Block.detach, there]
      rfl
    | some inner => exact absurd rfl (other _ (Block.child?_eq_some.mp there))
  | setLiteral slot value =>
    have none : b.setLiteral slot value = none := by
      unfold Block.setLiteral
      split
      · next holds => exact absurd rfl (other _ holds)
      · rfl
    rw [act, none]
  | setChoice slot choice =>
    have none : b.setChoice slot choice = none := by
      unfold Block.setChoice
      split
      · next holds => exact absurd rfl (other _ holds)
      · rfl
    rw [act, none]

/-- An edit replaces the argument that it is about, or is refused and leaves the block. -/
theorem act_cases (b : Block) (e : ArgumentEdit) :
    (∃ old, b.arguments[e.slot]? = some old ∧ e.Takes old.kind ∧
        e.act b = (e.answer old, b.setArgument e.slot e.content)) ∨
      (∀ old, b.arguments[e.slot]? = some old → ¬ e.Takes old.kind) ∧ e.act b = (.refused, b) := by
  by_cases taken : ∃ old, b.arguments[e.slot]? = some old ∧ e.Takes old.kind
  · obtain ⟨old, holds, takes⟩ := taken
    exact .inl ⟨old, holds, takes, act_of_takes holds takes⟩
  · have other (old : Argument) (holds : b.arguments[e.slot]? = some old) : ¬ e.Takes old.kind :=
      fun takes => taken ⟨old, holds, takes⟩
    exact .inr ⟨other, act_of_not_takes other⟩

end ArgumentEdit

/-! ## Edits further down -/

namespace Block

/-- The block with another one where slots lead to. -/
def replace (b : Block) : List Nat → Block → Block
  | [], new => new
  | slot :: slots, new =>
    match b.child? slot with
    | some inner => b.setArgument slot (inner.replace slots new).nested
    | none => b

variable {b last new inner : Block} {slot : Nat} {slots : List Nat} {a : Argument}

theorem nested_injective : Function.Injective nested := by
  rintro ⟨definition, arguments⟩ ⟨definition', arguments'⟩ same
  cases same
  rfl

theorem replace_cons (holds : b.child? slot = some inner) (slots : List Nat) (new : Block) :
    b.replace (slot :: slots) new = b.setArgument slot (inner.replace slots new).nested := by
  rw [replace, holds]

theorem getElem?_setArgument {i : Nat} (h : (b.setArgument slot a).arguments[i]? = some old) :
    i = slot ∧ old = a ∨ i ≠ slot ∧ b.arguments[i]? = some old := by
  rw [setArgument, List.getElem?_set] at h
  split at h
  · next same =>
    split at h
    · exact .inl ⟨same.symm, (Option.some.inj h).symm⟩
    · cases h
  · next other => exact .inr ⟨fun same => other same.symm, h⟩

/-- Another block where slots lead to leaves the definition of the outermost one, if it has the same
definition. -/
theorem definition_replace (down : b.descend slots = some last)
    (same : new.definition = last.definition) :
    (b.replace slots new).definition = b.definition := by
  cases slots with
  | nil =>
    cases down
    exact same
  | cons slot slots =>
    obtain ⟨inner, holds, -⟩ := Option.bind_eq_some_iff.mp down
    rw [replace_cons holds]
    rfl

/-- Nothing changes when the block is put back that slots lead to. -/
theorem replace_self (down : b.descend slots = some last) : b.replace slots last = b := by
  induction slots generalizing b with
  | nil =>
    cases down
    rfl
  | cons slot slots ih =>
    obtain ⟨inner, holds, down⟩ := Option.bind_eq_some_iff.mp down
    obtain ⟨lt, same⟩ := List.getElem?_eq_some_iff.mp (child?_eq_some.mp holds)
    rw [replace_cons holds, ih down, setArgument, ← same, List.set_getElem_self]

/-- **An edit further down** replaces the block that slots lead to. -/
theorem edit_of_descend {α : Type} (change : Block → α × Block)
    (down : b.descend slots = some last) :
    Block.edit change slots b = some ((change last).1, b.replace slots (change last).2) := by
  induction slots generalizing b with
  | nil =>
    cases down
    rfl
  | cons slot slots ih =>
    obtain ⟨inner, holds, down⟩ := Option.bind_eq_some_iff.mp down
    rw [Block.edit, holds, replace_cons holds]
    simp [ih down]

theorem edit_of_descend_eq_none {α : Type} (change : Block → α × Block)
    (nowhere : b.descend slots = none) : Block.edit change slots b = none := by
  induction slots generalizing b with
  | nil => cases nowhere
  | cons slot slots ih =>
    rw [Block.edit]
    cases holds : b.child? slot with
    | none => rfl
    | some inner =>
      rw [descend, holds, Option.bind_some] at nowhere
      simp [ih nowhere]

/-- Slots lead to the block that was put there. -/
theorem descend_replace (down : b.descend slots = some last) :
    (b.replace slots new).descend slots = some new := by
  induction slots generalizing b with
  | nil => rfl
  | cons slot slots ih =>
    obtain ⟨inner, holds, down⟩ := Option.bind_eq_some_iff.mp down
    have there := (List.getElem?_eq_some_iff.mp (child?_eq_some.mp holds)).1
    have put : (b.setArgument slot (inner.replace slots new).nested).child? slot =
        some (inner.replace slots new) :=
      child?_eq_some.mpr (List.getElem?_set_self there)
    rw [replace_cons holds, descend, put, Option.bind_some, ih down]

end Block

namespace Chain

/-- The chain with another block at a path. -/
def replace (c : Chain) (path : BlockPath) (new : Block) : Chain :=
  { c with blocks := c.blocks.modify path.index fun top => top.replace path.slots new }

variable {c : Chain} {path : BlockPath} {b new : Block} {α : Type} (change : Block → α × Block)

theorem replace_of_getElem? {top : Block} (first : c.blocks[path.index]? = some top) :
    c.replace path new =
      { c with blocks := c.blocks.set path.index (top.replace path.slots new) } := by
  rw [replace, List.modify_eq_set_getElem?, first]
  rfl

/-- An edit of the block at a path replaces that block. -/
theorem edit_of_at? (stands : c.at? path = some b) :
    c.edit path change = some ((change b).1, c.replace path (change b).2) := by
  obtain ⟨top, first, down⟩ := Option.bind_eq_some_iff.mp stands
  rw [Chain.edit, first, replace_of_getElem? first]
  simp [Block.edit_of_descend change down]

/-- Where there is no block, nothing is edited. -/
theorem edit_of_at?_eq_none (nowhere : c.at? path = none) : c.edit path change = none := by
  rw [Chain.edit]
  cases first : c.blocks[path.index]? with
  | none => rfl
  | some top =>
    rw [Chain.at?, first, Option.bind_some] at nowhere
    simp [Block.edit_of_descend_eq_none change nowhere]

/-- Nothing changes when the block is put back that stands at a path. -/
theorem replace_self (stands : c.at? path = some b) : c.replace path b = c := by
  obtain ⟨top, first, down⟩ := Option.bind_eq_some_iff.mp stands
  obtain ⟨lt, same⟩ := List.getElem?_eq_some_iff.mp first
  rw [replace_of_getElem? first, Block.replace_self down, ← same, List.set_getElem_self]

theorem at?_replace (stands : c.at? path = some b) : (c.replace path new).at? path = some new := by
  obtain ⟨top, first, down⟩ := Option.bind_eq_some_iff.mp stands
  rw [Chain.at?, replace, List.getElem?_modify_eq, first]
  exact Block.descend_replace down

end Chain

/-! ## Sound blocks -/

/-- At every depth a block is well formed, and control blocks are not the values of slots. -/
inductive Block.Sound (r : Registry) : Block → Prop where
  | mk {b : Block} (wellFormed : b.WellFormed r)
      (values : ∀ slot inner, b.child? slot = some inner → r.flow? inner.definition = none)
      (inside : ∀ slot inner, b.child? slot = some inner → Sound r inner) : Sound r b

namespace Integrity

variable {r : Registry} {path : BlockPath} {b : Block}

theorem checkControl_eq_nil_iff : checkControl r path b = [] ↔ r.flow? b.definition = none := by
  unfold checkControl
  cases r.flow? b.definition <;> simp

/-- **The check finds nothing wrong with a block** if and only if it is sound, wherever it is. -/
theorem checkBlock_eq_nil_iff : checkBlock r path b = [] ↔ b.Sound r := by
  induction b using Block.nesting_induction generalizing path with
  | step b ih =>
    rw [List.eq_nil_iff_forall_not_mem]
    constructor
    · intro none
      have wellFormed : b.WellFormed r := Block.wellFormed_iff.mpr fun kind malformed =>
        none (path, kind) (mem_checkBlock_iff.mpr (.inl ⟨rfl, malformed⟩))
      -- The check looks only into slots that take a block. All blocks are in such slots here.
      have below (slot : Nat) (inner : Block) (holds : b.child? slot = some inner) :
          checkControl r (path.child slot) inner ++ checkBlock r (path.child slot) inner = [] := by
        obtain ⟨d, name, resolves, takes⟩ := wellFormed.takes_block holds
        exact List.eq_nil_iff_forall_not_mem.mpr fun f found => none f <|
          mem_checkBlock_iff.mpr (.inr ⟨d, slot, name, inner, resolves, takes, holds, found⟩)
      refine ⟨wellFormed, fun slot inner holds => ?_, fun slot inner holds => ?_⟩
      · exact checkControl_eq_nil_iff.mp (List.append_eq_nil_iff.mp (below slot inner holds)).1
      · exact (ih slot inner holds).mp (List.append_eq_nil_iff.mp (below slot inner holds)).2
    · rintro ⟨wellFormed, values, inside⟩ f found
      rcases mem_checkBlock_iff.mp found with
        ⟨-, malformed⟩ | ⟨d, slot, name, inner, -, -, holds, found⟩
      · exact Block.wellFormed_iff.mp wellFormed _ malformed
      · rw [checkControl_eq_nil_iff.mpr (values slot inner holds),
          (ih slot inner holds).mpr (inside slot inner holds)] at found
        cases found

end Integrity

namespace Block.Sound

variable {r : Registry} {b new last : Block} {slot : Nat} {a : Argument}

/-- A sound block stays sound when an argument is put in that fits, and that is sound if it is a
block. -/
theorem setArgument (sound : b.Sound r)
    (fits : ∀ d s, r.find? b.definition = some d → d.valueSlots[slot]? = some s → s.Fits a)
    (inside : ∀ inner : Block, a = inner.nested → r.flow? inner.definition = none ∧ inner.Sound r) :
    (b.setArgument slot a).Sound r := by
  obtain ⟨⟨d, resolves, arity, fit⟩, values, sounds⟩ := sound
  have child {i : Nat} {inner : Block} (holds : (b.setArgument slot a).child? i = some inner) :
      inner.nested = a ∨ b.child? i = some inner :=
    (getElem?_setArgument (child?_eq_some.mp holds)).imp And.right
      fun there => child?_eq_some.mpr there.2
  refine ⟨⟨d, resolves, ?_, fun i s x wants holds => ?_⟩, fun i inner holds => ?_,
    fun i inner holds => ?_⟩
  · rw [arity, Block.setArgument, List.length_set]
  · rcases getElem?_setArgument holds with ⟨rfl, rfl⟩ | ⟨-, there⟩
    · exact fits d s resolves wants
    · exact fit i s x wants there
  · rcases child holds with same | there
    · exact (inside inner same.symm).1
    · exact values i inner there
  · rcases child holds with same | there
    · exact (inside inner same.symm).2
    · exact sounds i inner there

/-- Slots lead from a sound block to sound ones. -/
theorem descend {slots : List Nat} (sound : b.Sound r) (down : b.descend slots = some last) :
    last.Sound r := by
  induction slots generalizing b with
  | nil =>
    cases down
    exact sound
  | cons slot slots ih =>
    obtain ⟨inner, holds, down⟩ := Option.bind_eq_some_iff.mp down
    obtain ⟨-, -, inside⟩ := sound
    exact ih (inside slot inner holds) down

/-- A sound block stays sound when one that slots lead to is replaced by a sound one of the same
definition: a slot that held a block takes a block. -/
theorem replace {slots : List Nat} (sound : b.Sound r) (down : b.descend slots = some last)
    (same : new.definition = last.definition) (put : new.Sound r) :
    (b.replace slots new).Sound r := by
  induction slots generalizing b with
  | nil => exact put
  | cons slot slots ih =>
    obtain ⟨inner, holds, down⟩ := Option.bind_eq_some_iff.mp down
    obtain ⟨wellFormed, values, inside⟩ := id sound
    obtain ⟨d, name, resolves, takes⟩ := wellFormed.takes_block holds
    rw [replace_cons holds]
    refine sound.setArgument (fun d' s resolves' wants => ?_) ?_
    · -- The slot held a block, so it takes any block.
      cases resolves.symm.trans resolves'
      cases takes.symm.trans wants
      exact ⟨.inr rfl, by rintro _ _ _ ⟨⟩⟩
    · rintro inner' nested
      obtain rfl : inner.replace slots new = inner' := nested_injective nested
      rw [definition_replace down same]
      exact ⟨values slot inner holds, ih (inside slot inner holds) down⟩

end Block.Sound

/-! ## Edits of a chain -/

namespace ArgumentEdit

variable {r : Registry} {b : Block} {e : ArgumentEdit}

/-- What an edit puts in fits: a block stands in the place of a value, is no control block and has
nothing wrong with it, and a choice is one of those that its dropdown offers. -/
def Suits (r : Registry) (b : Block) : ArgumentEdit → Prop
  | attach slot inner =>
    (∀ old, b.arguments[slot]? = some old → old.kind = .literal ∨ old.kind = .block) ∧
      r.flow? inner.definition = none ∧ ∃ path, Integrity.checkBlock r path inner = []
  | setChoice slot choice =>
    ∀ d name choices, r.find? b.definition = some d →
      d.valueSlots[slot]? = some (.dropdown name choices) → choice ∈ choices
  | detach _ | setLiteral .. => True

/-- The slot that an argument fits takes what an edit puts in its place: the kind of the argument
tells the kind of the slot. -/
theorem fits_content {d : Definition} {s : Slot} {old : Argument} (suits : e.Suits r b)
    (resolves : r.find? b.definition = some d) (wants : d.valueSlots[e.slot]? = some s)
    (holds : b.arguments[e.slot]? = some old) (takes : e.Takes old.kind) (fits : s.Fits old) :
    s.Fits e.content := by
  obtain ⟨kind, -⟩ := fits
  have value (there : old.kind = .literal ∨ old.kind = .block) : ∃ name, s = .argument name := by
    cases s with
    | argument name => exact ⟨name, rfl⟩
    | _ => rcases there with there | there <;> rw [there] at kind <;> cases kind
  cases e with
  | attach slot inner =>
    obtain ⟨name, rfl⟩ := value (suits.1 old holds)
    exact ⟨.inr rfl, by rintro _ _ _ ⟨⟩⟩
  | detach slot =>
    obtain ⟨name, rfl⟩ := value (.inr takes)
    exact ⟨.inl rfl, by rintro _ _ _ ⟨⟩⟩
  | setLiteral slot v =>
    obtain ⟨name, rfl⟩ := value (.inl takes)
    exact ⟨.inl rfl, by rintro _ _ _ ⟨⟩⟩
  | setChoice slot choice =>
    rw [show old.kind = .choice from takes] at kind
    cases s with
    | dropdown name choices =>
      refine ⟨rfl, ?_⟩
      rintro _ _ _ ⟨⟩ ⟨⟩
      exact suits d name choices resolves wants
    | argument name => rcases kind with kind | kind <;> cases kind
    | _ => cases kind

/-- An edit does not change the definition of the block. -/
theorem definition_act (b : Block) (e : ArgumentEdit) : (e.act b).2.definition = b.definition := by
  rcases e.act_cases b with ⟨old, -, -, acts⟩ | ⟨-, acts⟩
  · rw [acts]
    rfl
  · rw [acts]

/-- **A sound block stays sound** when what is put in fits. -/
theorem sound_act (suits : e.Suits r b) (sound : b.Sound r) : (e.act b).2.Sound r := by
  rcases e.act_cases b with ⟨old, holds, takes, acts⟩ | ⟨-, acts⟩
  · rw [acts]
    obtain ⟨⟨d, resolves, -, fit⟩, -, -⟩ := id sound
    refine sound.setArgument (fun d' s resolves' wants => ?_) fun inner nested => ?_
    · cases resolves.symm.trans resolves'
      exact fits_content suits resolves wants holds takes (fit _ s old wants holds)
    · cases e with
      | attach slot inner' =>
        obtain rfl : inner' = inner := Block.nested_injective nested
        obtain ⟨-, plain, path, clean⟩ := suits
        exact ⟨plain, Integrity.checkBlock_eq_nil_iff.mp clean⟩
      | _ => cases nested
  · rwa [acts]

end ArgumentEdit

/-- Nothing is wrong with the block at an index of a chain when it is sound, and no hat unless it is
the first one. -/
theorem Integrity.checkTopLevel_eq_nil_iff {r : Registry} {index : Nat} {b : Block} :
    checkTopLevel r index b = [] ↔
      (∀ flow, r.flow? b.definition = some flow → flow.isHat → index = 0) ∧ b.Sound r := by
  rw [checkTopLevel, List.append_eq_nil_iff, checkBlock_eq_nil_iff]
  refine and_congr_left fun _ => ?_
  cases r.flow? b.definition with
  | none => simp
  | some flow => by_cases hat : flow.isHat <;> simp [hat]

namespace Chain

variable {c : Chain} {r : Registry} {path : BlockPath} {b new : Block} {e : ArgumentEdit}

/-- Nothing is wrong with a chain when its blocks are sound, only the first one is a hat, and its
bodies are nested. -/
theorem violations_eq_nil_iff_sound : c.violations r = [] ↔
    (∀ index b, c.blocks[index]? = some b →
      (∀ flow, r.flow? b.definition = some flow → flow.isHat → index = 0) ∧ b.Sound r) ∧
    ∃ shapes, c.shapes r = .ok shapes := by
  have blocks : Integrity.checkBlocks r c = [] ↔ ∀ index b, c.blocks[index]? = some b →
      (∀ flow, r.flow? b.definition = some flow → flow.isHat → index = 0) ∧ b.Sound r := by
    simp only [Integrity.checkBlocks, List.flatMap_eq_nil_iff, Prod.forall,
      List.mem_zipIdx_iff_getElem?, Integrity.checkTopLevel_eq_nil_iff]
    exact forall_comm
  cases shapes : c.shapes r with
  | ok s => simp [violations_of_ok shapes, blocks]
  | error e => simp [violations_of_error shapes]

/-- Another block of the same definition at a path does not change the structure of a chain. -/
theorem shapes_replace (stands : c.at? path = some b) (same : new.definition = b.definition) :
    (c.replace path new).shapes r = c.shapes r := by
  obtain ⟨top, first, down⟩ := Option.bind_eq_some_iff.mp stands
  have flows : (c.replace path new).blocks.map (fun b => r.flow? b.definition) =
      c.blocks.map fun b => r.flow? b.definition := by
    refine List.ext_getElem? fun i => ?_
    rw [replace, List.getElem?_map, List.getElem?_map, List.getElem?_modify]
    by_cases here : path.index = i
    · subst here
      simp [first, Block.definition_replace down same]
    · simp [here]
  rw [Chain.shapes, flows, Chain.shapes]

/-- **A chain in which nothing is wrong stays so** when a block in it, at any depth, is edited and
what is put in fits. -/
theorem violations_of_edit (clean : c.violations r = []) (stands : c.at? path = some b)
    (suits : e.Suits r b) :
    ∃ c', c.edit path e.act = some ((e.act b).1, c') ∧ c'.at? path = some (e.act b).2 ∧
      c'.violations r = [] := by
  refine ⟨_, edit_of_at? _ stands, at?_replace stands, ?_⟩
  obtain ⟨sound, bodies⟩ := violations_eq_nil_iff_sound.mp clean
  obtain ⟨top, first, down⟩ := Option.bind_eq_some_iff.mp stands
  have same := ArgumentEdit.definition_act b e
  refine violations_eq_nil_iff_sound.mpr ⟨fun index b' there => ?_, ?_⟩
  · rw [replace, List.getElem?_modify] at there
    by_cases here : path.index = index
    · subst here
      rw [first] at there
      obtain rfl : top.replace path.slots (e.act b).2 = b' := by simpa using there
      obtain ⟨hat, sound⟩ := sound _ top first
      -- It is the definition that makes a block a hat, and the edit leaves it.
      rw [Block.definition_replace down same]
      exact ⟨hat, sound.replace down same (ArgumentEdit.sound_act suits (sound.descend down))⟩
    · exact sound index b' (by simpa [here] using there)
  · rwa [shapes_replace stands same]

/-- A text joined with a sum. -/
def joined : Block :=
  ⟨"join", [.literal (.text "sum: "), .block "add" [.literal (.number 1), .literal (.number 2)]]⟩

/-- A chain that prints a text joined with a sum. -/
def joining : Chain := ⟨0, Chain.origin, [⟨"on_start", []⟩, ⟨"print", [joined.nested]⟩]⟩

/-- The sum gives way to an absolute value. -/
def absolute : ArgumentEdit := .attach 1 ⟨"math", [.choice "abs", .literal (.number (-2))]⟩

theorem violations_of_edit_joining :
    joining.violations .builtins = [] ∧ joining.at? ⟨1, [0]⟩ = some joined ∧
      absolute.Suits .builtins joined ∧
      ∃ c', joining.edit ⟨1, [0]⟩ absolute.act = some ((absolute.act joined).1, c') ∧
        c'.at? ⟨1, [0]⟩ = some (absolute.act joined).2 ∧ c'.violations .builtins = [] := by
  have clean : joining.violations .builtins = [] := by decide +kernel
  have stands : joining.at? ⟨1, [0]⟩ = some joined := rfl
  have suits : absolute.Suits .builtins joined := by
    refine ⟨?_, by decide +kernel, .topLevel 0, by decide +kernel⟩
    rintro _ ⟨⟩
    exact .inr rfl
  exact ⟨clean, stands, suits, violations_of_edit clean stands suits⟩

end Chain

end Blockwork
