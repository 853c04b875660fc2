import Blockwork.Proofs.ArgumentEdits
import Blockwork.Proofs.Registries

/-!
# Histories of edits

A program is edited step by step: blocks are put in and taken out, in a chain or inside another
block, and chains are added and taken out. Reading the blocks of a program from front to back, each
before those that it holds, an edit replaces one part of the row by another: what it hands back by
what it was given. So whatever the history, no block gets lost, none is there twice, and those that
stay keep their order.

## Main statements

* `Chain.act_cases`, `Program.act_cases`: an edit is refused and changes nothing, or does what
  `Becomes` says.
* `Program.Becomes.spliced`: an edit replaces one part of the row of blocks.
* `Program.edits_conserve`: what becomes of the blocks of a program in a history of edits.
-/

namespace Blockwork

/-! ## Rows of which a part is replaced -/

/-- A row of which one part is replaced by another. -/
def Spliced {α : Type} (out into before after : List α) : Prop :=
  ∃ front back, before = front ++ out ++ back ∧ after = front ++ into ++ back

namespace Spliced

variable {α β : Type} {out into before after : List α}

theorem same (row : List α) : Spliced [] [] row row :=
  ⟨[], row, rfl, rfl⟩

/-- What is around the row stays. -/
theorem inside (h : Spliced out into before after) (left right : List α) :
    Spliced out into (left ++ before ++ right) (left ++ after ++ right) := by
  obtain ⟨front, back, rfl, rfl⟩ := h
  exact ⟨left ++ front, back ++ right, by simp, by simp⟩

theorem flatMap (h : Spliced out into before after) (f : α → List β) :
    Spliced (out.flatMap f) (into.flatMap f) (before.flatMap f) (after.flatMap f) := by
  obtain ⟨front, back, rfl, rfl⟩ := h
  exact ⟨front.flatMap f, back.flatMap f, by simp, by simp⟩

/-- A part of what one item stands for is replaced. -/
theorem flatMap_one {x y : α} {out into : List β} {f : α → List β}
    (h : Spliced out into (f x) (f y)) (one : Spliced [x] [y] before after) :
    Spliced out into (before.flatMap f) (after.flatMap f) := by
  obtain ⟨front, back, rfl, rfl⟩ := one
  simpa using h.inside (front.flatMap f) (back.flatMap f)

section

variable {front back : List α} {x : α}

theorem added (place : before = front ++ back) (x : α) :
    Spliced [] [x] before (front ++ x :: back) :=
  ⟨front, back, by simp [place], by simp⟩

theorem pushed (row : List α) (x : α) : Spliced [] [x] row (row ++ [x]) :=
  added (List.append_nil row).symm x

theorem removed (place : before = front ++ x :: back) : Spliced [x] [] before (front ++ back) :=
  ⟨front, back, by simp [place], by simp⟩

theorem replaced (place : before = front ++ x :: back) (y : α) :
    Spliced [x] [y] before (front ++ y :: back) :=
  ⟨front, back, by simp [place], by simp⟩

theorem set {i : Nat} (h : before[i]? = some x) (y : α) :
    Spliced [x] [y] before (before.set i y) := by
  obtain ⟨lt, rfl⟩ := List.getElem?_eq_some_iff.mp h
  rw [List.set_eq_take_append_cons_drop, if_pos lt]
  exact replaced (by simp) y

end

/-- How often something is in a row changes by how often it is in the parts. -/
theorem count [BEq α] (h : Spliced out into before after) (x : α) :
    after.count x + out.count x = before.count x + into.count x := by
  obtain ⟨front, back, rfl, rfl⟩ := h
  simp only [List.count_append]
  omega

end Spliced

/-! ## The blocks of a program -/

mutual

/-- The blocks of an argument, each before those that it holds. A block is told by its
definition. -/
def Argument.nodes : Argument → List String
  | .block name arguments => name :: Argument.nodesOf arguments
  | .literal _ | .choice _ | .definition _ => []

/-- The blocks of arguments. -/
def Argument.nodesOf : List Argument → List String
  | [] => []
  | a :: rest => a.nodes ++ Argument.nodesOf rest

end

/-- A block and those that it holds. -/
def Block.nodes (b : Block) : List String := b.definition :: Argument.nodesOf b.arguments

/-- The blocks of a chain. -/
def Chain.nodes (c : Chain) : List String := c.blocks.flatMap Block.nodes

/-- The blocks of a program. -/
def Program.nodes (p : Program) : List String := p.chains.flatMap Chain.nodes

theorem Argument.nodesOf_eq (arguments : List Argument) :
    nodesOf arguments = arguments.flatMap nodes := by
  induction arguments with
  | nil => rfl
  | cons a rest ih => rw [nodesOf, ih, List.flatMap_cons]

@[simp]
theorem Block.nodes_nested (b : Block) : b.nested.nodes = b.nodes := rfl

namespace Block

variable {b last new inner : Block} {slot : Nat} {slots : List Nat} {a old : Argument}
  {out into : List String}

/-- What is replaced in an argument is replaced in the block that holds it. -/
theorem spliced_setArgument (holds : b.arguments[slot]? = some old)
    (h : Spliced out into old.nodes a.nodes) :
    Spliced out into b.nodes (b.setArgument slot a).nodes := by
  have arguments := (h.flatMap_one (Spliced.set holds a)).inside [b.definition] []
  simpa [Block.nodes, setArgument, Argument.nodesOf_eq] using arguments

/-- What is replaced in a block is replaced in one around it. -/
theorem spliced_replace (down : b.descend slots = some last)
    (h : Spliced out into last.nodes new.nodes) :
    Spliced out into b.nodes (b.replace slots new).nodes := by
  induction slots generalizing b with
  | nil =>
    cases down
    exact h
  | cons slot slots ih =>
    obtain ⟨inner, holds, down⟩ := Option.bind_eq_some_iff.mp down
    rw [replace_cons holds]
    exact spliced_setArgument (child?_eq_some.mp holds) (ih down)

end Block

theorem Chain.spliced_replace {c : Chain} {path : BlockPath} {b new : Block}
    {out into : List String} (stands : c.at? path = some b)
    (h : Spliced out into b.nodes new.nodes) :
    Spliced out into c.nodes (c.replace path new).nodes := by
  obtain ⟨top, first, down⟩ := Option.bind_eq_some_iff.mp stands
  rw [Chain.nodes, Chain.nodes, replace_of_getElem? first]
  exact (Block.spliced_replace down h).flatMap_one (Spliced.set first _)

/-! ## Edits -/

/-- An edit of a chain. -/
inductive ChainEdit where
  | push (b : Block)
  | insert (index : Nat) (b : Block)
  | remove (index : Nat)
  /-- Edits an argument of the block at a path. -/
  | argument (path : BlockPath) (e : ArgumentEdit)

/-- An edit of a program. -/
inductive ProgramEdit where
  /-- Edits the first chain of a number. -/
  | chain (id : ChainId) (e : ChainEdit)
  | addChain (blocks : List Block)
  | removeChain (id : ChainId)

/-- Does an edit: its answer, and the chain after it. -/
def ChainEdit.act (c : Chain) : ChainEdit → EditAnswer × Chain
  | push b => (.done, c.push b)
  | insert index b => (.done, c.insert index b)
  | remove index =>
    match c.remove index with
    | some (b, c) => (.block b, c)
    | none => (.refused, c)
  | argument path e => (c.edit path e.act).getD (.refused, c)

/-- Does an edit: its answer, and the program after it. -/
def ProgramEdit.act (p : Program) : ProgramEdit → EditAnswer × Program
  | chain id e => (p.editChain id e.act).getD (.refused, p)
  | addChain blocks =>
    match p.addChain blocks with
    | .ok (id, p) => (.number id, p)
    | .error e => (.error e, p)
  | removeChain id =>
    match p.removeChain id with
    | some (c, p) => (.chain c, p)
    | none => (.refused, p)

/-- Does edits one after the other: their answers, and the program after them. -/
def Program.editAll (p : Program) : List ProgramEdit → List EditAnswer × Program
  | [] => ([], p)
  | e :: rest =>
    let (answer, q) := e.act p
    let (answers, q) := q.editAll rest
    (answer :: answers, q)

/-! ### What is handed in and back -/

/-- Nothing has been changed. -/
def EditAnswer.isRefusal : EditAnswer → Bool
  | refused | error _ => true
  | _ => false

/-- The blocks that are handed back. -/
def EditAnswer.nodes : EditAnswer → List String
  | argument old => old.nodes
  | block old => old.nodes
  | chain old => old.nodes
  | refused | done | number _ | error _ => []

theorem EditAnswer.nodes_of_isRefusal {answer : EditAnswer} (h : answer.isRefusal) :
    answer.nodes = [] := by
  cases answer with
  | refused | error => rfl
  | _ => cases h

/-- The blocks that an edit is given. -/
def ArgumentEdit.given : ArgumentEdit → List Block
  | attach _ inner => [inner]
  | detach _ | setLiteral .. | setChoice .. => []

@[inherit_doc ArgumentEdit.given]
def ChainEdit.given : ChainEdit → List Block
  | push b | insert _ b => [b]
  | remove _ => []
  | argument _ e => e.given

@[inherit_doc ArgumentEdit.given]
def ProgramEdit.given : ProgramEdit → List Block
  | chain _ e => e.given
  | addChain blocks => blocks
  | removeChain _ => []

/-! ### What an edit is about -/

/-- Why an edit of a chain is refused: there is nothing at the index, or at the path no slot that
holds what the edit is about. -/
def Chain.Refuses (c : Chain) : ChainEdit → Prop
  | .push _ | .insert .. => False
  | .remove index => c.blocks.length ≤ index
  | .argument path e => ∀ b, c.at? path = some b →
    ∀ old, b.arguments[e.slot]? = some old → ¬ e.Takes old.kind

/-- What an edit of a chain does and answers, if it is not refused. -/
inductive Chain.Becomes (c : Chain) : ChainEdit → EditAnswer → Chain → Prop where
  | push {b : Block} : Becomes c (.push b) .done { c with blocks := c.blocks ++ [b] }
  | insert {front back : List Block} {b : Block} (place : c.blocks = front ++ back) :
      Becomes c (.insert front.length b) .done { c with blocks := front ++ b :: back }
  | insertLast {index : Nat} {b : Block} (past : c.blocks.length ≤ index) :
      Becomes c (.insert index b) .done { c with blocks := c.blocks ++ [b] }
  | remove {front back : List Block} {b : Block} (place : c.blocks = front ++ b :: back) :
      Becomes c (.remove front.length) (.block b) { c with blocks := front ++ back }
  | argument {path : BlockPath} {e : ArgumentEdit} {b : Block} {old : Argument}
      (stands : c.at? path = some b) (holds : b.arguments[e.slot]? = some old)
      (takes : e.Takes old.kind) :
      Becomes c (.argument path e) (e.answer old)
        (c.replace path (b.setArgument e.slot e.content))

/-- Why an edit of a program is refused: there is no chain of the number, the chain refuses it, or
the id of the procedure that a new chain defines belongs to a definition of another kind. -/
def Program.Refuses (p : Program) : ProgramEdit → Prop
  | .chain id e => ∀ c, p.chain? id = some c → c.Refuses e
  | .addChain blocks => ∃ d old, procedureOf ⟨p.nextId, Chain.origin, blocks⟩ = some d ∧
    p.definitions.find? d.id = some old ∧ old.behavior.kind ≠ .procedure
  | .removeChain id => p.chain? id = none

/-- What an edit of a program does and answers, if it is not refused. -/
inductive Program.Becomes (p : Program) : ProgramEdit → EditAnswer → Program → Prop where
  | chain {front back : List Chain} {c c' : Chain} {e : ChainEdit} {answer : EditAnswer}
      (place : p.chains = front ++ c :: back) (first : ∀ d ∈ front, d.id ≠ c.id)
      (becomes : c.Becomes e answer c') :
      Becomes p (.chain c.id e) answer { p with chains := front ++ c' :: back }
  | addChain {blocks : List Block}
      (plain : procedureOf ⟨p.nextId, Chain.origin, blocks⟩ = none) :
      Becomes p (.addChain blocks) (.number p.nextId)
        { p with chains := p.chains ++ [⟨p.nextId, Chain.origin, blocks⟩] }
  | addProcedure {blocks : List Block} {d : Definition}
      (defines : procedureOf ⟨p.nextId, Chain.origin, blocks⟩ = some d) :
      Becomes p (.addChain blocks) (.number p.nextId)
        { p with
          definitions := p.definitions.insert d
          chains := p.chains ++ [⟨p.nextId, Chain.origin, blocks⟩] }
  | removeChain {front back : List Chain} {c : Chain} (place : p.chains = front ++ c :: back)
      (first : ∀ d ∈ front, d.id ≠ c.id) :
      Becomes p (.removeChain c.id) (.chain c) { p with chains := front ++ back }

/-! ## What an edit does -/

theorem insertIdx_length {α : Type} (front back : List α) (x : α) :
    (front ++ back).insertIdx front.length x = front ++ x :: back := by
  induction front with
  | nil => rfl
  | cons y front ih =>
    rw [List.cons_append, List.length_cons, List.insertIdx_succ_cons, ih, List.cons_append]

/-- What an edit puts into a slot replaces what the slot held. -/
theorem ArgumentEdit.spliced_content {e : ArgumentEdit} {old : Argument}
    (takes : e.Takes old.kind) :
    Spliced (e.answer old).nodes (e.given.flatMap Block.nodes) old.nodes e.content.nodes := by
  cases e with
  | attach slot inner => exact ⟨[], [], by simp [answer, EditAnswer.nodes],
      by simp [given, content]⟩
  | detach slot =>
    cases old with
    | block name arguments => exact ⟨[], [], (List.append_nil _).symm, rfl⟩
    | _ => cases takes
  | setLiteral slot value =>
    cases old with
    | literal before => exact .same []
    | _ => cases takes
  | setChoice slot choice =>
    cases old with
    | choice before => exact .same []
    | _ => cases takes

namespace Chain

variable {c : Chain} {e : ChainEdit}

theorem insert_length {front back : List Block} (place : c.blocks = front ++ back) (b : Block) :
    c.insert front.length b = { c with blocks := front ++ b :: back } := by
  rw [insert, place, List.length_append, Nat.min_eq_left (Nat.le_add_right ..), insertIdx_length]

theorem remove_length {front back : List Block} {b : Block}
    (place : c.blocks = front ++ b :: back) :
    c.remove front.length = some (b, { c with blocks := front ++ back }) := by
  simp [remove, place, List.eraseIdx_append_of_length_le]

/-- **An edit of a chain is refused and changes nothing, or does what it says.** -/
theorem act_cases (c : Chain) (e : ChainEdit) :
    c.Refuses e ∧ e.act c = (.refused, c) ∨
      ¬ c.Refuses e ∧ c.Becomes e (e.act c).1 (e.act c).2 := by
  cases e with
  | push b => exact .inr ⟨not_false, .push⟩
  | insert index b =>
    refine .inr ⟨not_false, ?_⟩
    rcases Nat.le_total c.blocks.length index with past | within
    · rw [ChainEdit.act, Chain.insert, Nat.min_eq_right past, List.insertIdx_length_self]
      exact .insertLast past
    · obtain ⟨front, back, place, rfl⟩ : ∃ front back, c.blocks = front ++ back ∧
          front.length = index :=
        ⟨_, _, (List.take_append_drop index _).symm, List.length_take_of_le within⟩
      rw [ChainEdit.act, insert_length place]
      exact .insert place
  | remove index =>
    rcases Nat.lt_or_ge index c.blocks.length with within | past
    · refine .inr ⟨Nat.not_le_of_lt within, ?_⟩
      obtain ⟨front, back, place, rfl⟩ : ∃ front back,
          c.blocks = front ++ c.blocks[index] :: back ∧ front.length = index :=
        ⟨c.blocks.take index, c.blocks.drop (index + 1), by simp,
          List.length_take_of_le (Nat.le_of_lt within)⟩
      rw [ChainEdit.act, remove_length place]
      exact .remove place
    · refine .inl ⟨past, ?_⟩
      rw [ChainEdit.act, Chain.remove, List.getElem?_eq_none past]
      rfl
  | argument path e =>
    cases stands : c.at? path with
    | none =>
      refine .inl ⟨fun b there => ?_, ?_⟩
      · rw [stands] at there
        cases there
      · rw [ChainEdit.act, edit_of_at?_eq_none _ stands]
        rfl
    | some b =>
      rw [ChainEdit.act, edit_of_at? _ stands, Option.getD_some]
      rcases e.act_cases b with ⟨old, holds, takes, acts⟩ | ⟨other, acts⟩
      · rw [acts]
        exact .inr ⟨fun refuses => refuses b stands old holds takes, .argument stands holds takes⟩
      · -- What is refused is put back where it was.
        rw [acts, replace_self stands]
        refine .inl ⟨fun b' there => ?_, rfl⟩
        cases stands.symm.trans there
        exact other

/-- An edit replaces one part of the row of blocks: what it hands back by what it was given. -/
theorem Becomes.spliced {answer : EditAnswer} {c' : Chain} (h : c.Becomes e answer c') :
    Spliced answer.nodes (e.given.flatMap Block.nodes) c.nodes c'.nodes := by
  cases h with
  | push | insertLast => exact (Spliced.pushed _ _).flatMap Block.nodes
  | insert place => exact (Spliced.added place _).flatMap Block.nodes
  | remove place =>
    have blocks := (Spliced.removed place).flatMap Block.nodes
    rwa [List.flatMap_singleton] at blocks
  | argument stands holds takes =>
    exact spliced_replace stands
      (Block.spliced_setArgument holds (ArgumentEdit.spliced_content takes))

/-- An edit that does something is not refused. -/
theorem Becomes.not_isRefusal {answer : EditAnswer} {c' : Chain} (h : c.Becomes e answer c') :
    answer.isRefusal = false := by
  cases h with
  | @argument path e b old stands holds takes =>
    cases e with
    | detach slot =>
      cases old with
      | block name arguments => rfl
      | _ => cases takes
    | _ => rfl
  | _ => rfl

end Chain

namespace Program

variable {p q : Program} {id : ChainId} {c : Chain} {e : ProgramEdit} {answer : EditAnswer}

/-- The chain of a number is the first one that has it. -/
theorem chain?_eq_some : p.chain? id = some c ↔
    c.id = id ∧ ∃ front back, p.chains = front ++ c :: back ∧ ∀ d ∈ front, d.id ≠ c.id := by
  rw [chain?, List.find?_eq_some_iff_append]
  constructor
  · rintro ⟨same, front, back, place, first⟩
    obtain rfl : c.id = id := by simpa using same
    exact ⟨rfl, front, back, place, by simpa using first⟩
  · rintro ⟨rfl, front, back, place, first⟩
    exact ⟨by simp, front, back, place, by simpa using first⟩

section

variable {front back : List Chain} (place : p.chains = front ++ c :: back)
  (first : ∀ d ∈ front, d.id ≠ c.id)

include place first

/-- An edit of the chain of a number leaves the other chains. -/
theorem editChain_of_first {α : Type} (change : Chain → α × Chain) :
    p.editChain c.id change =
      some ((change c).1, { p with chains := front ++ (change c).2 :: back }) := by
  have index : p.chains.findIdx? (fun d => d.id = c.id) = some front.length := by
    rw [place, List.findIdx?_append, List.findIdx?_eq_none_iff.mpr (by simpa using first),
      List.findIdx?_cons]
    simp
  rw [editChain, index, Option.bind_some, place]
  simp

theorem removeChain_of_first :
    p.removeChain c.id = some (c, { p with chains := front ++ back }) := by
  have found : p.chain? c.id = some c := chain?_eq_some.mpr ⟨rfl, front, back, place, first⟩
  have erased : p.chains.eraseP (fun d => d.id = c.id) = front ++ back := by
    rw [place, List.eraseP_append_right _ (by simpa using first)]
    simp
  rw [removeChain, found, erased]
  rfl

end

theorem editChain_of_none {α : Type} (change : Chain → α × Chain) (none : p.chain? id = none) :
    p.editChain id change = .none := by
  have absent : p.chains.findIdx? (fun d => d.id = id) = .none :=
    List.findIdx?_eq_none_iff.mpr (by simpa [chain?] using none)
  rw [editChain, absent]
  rfl

/-- **An edit of a program is refused and changes nothing, or does what it says.** -/
theorem act_cases (p : Program) (e : ProgramEdit) :
    p.Refuses e ∧ (e.act p).1.isRefusal ∧ (e.act p).2 = p ∨
      ¬ p.Refuses e ∧ p.Becomes e (e.act p).1 (e.act p).2 := by
  cases e with
  | chain id e =>
    cases found : p.chain? id with
    | none =>
      rw [ProgramEdit.act, editChain_of_none _ found]
      refine .inl ⟨fun c there => ?_, rfl, rfl⟩
      cases found.symm.trans there
    | some c =>
      obtain ⟨rfl, front, back, place, first⟩ := chain?_eq_some.mp found
      rw [ProgramEdit.act, editChain_of_first place first, Option.getD_some]
      rcases c.act_cases e with ⟨refuses, same⟩ | ⟨admits, becomes⟩
      · rw [same]
        refine .inl ⟨?_, rfl, by rw [← place]⟩
        rintro c' there
        cases found.symm.trans there
        exact refuses
      · exact .inr ⟨fun refuses => admits (refuses c found), .chain place first becomes⟩
  | addChain blocks =>
    cases defines : procedureOf ⟨p.nextId, Chain.origin, blocks⟩ with
    | none =>
      have added : p.addChain blocks =
          .ok (p.nextId, { p with chains := p.chains ++ [⟨p.nextId, Chain.origin, blocks⟩] }) := by
        simp only [Program.addChain, defines]
      rw [ProgramEdit.act, added]
      exact .inr ⟨by simp [Refuses, defines], .addChain defines⟩
    | some d =>
      have procedure := kind_of_procedureOf defines
      by_cases clash : ∃ old, p.definitions.find? d.id = some old ∧ old.behavior.kind ≠ .procedure
      · obtain ⟨old, taken, other⟩ := clash
        have refused := Registry.register_of_clash taken (procedure ▸ other)
        -- The chain is pushed last, so nothing is there yet that had to be taken back.
        have failed : p.addChain blocks = .error (.duplicateDefinition d.id old.behavior.kind) := by
          simp only [Program.addChain, defines, refused]
        rw [ProgramEdit.act, failed]
        exact .inl ⟨⟨d, old, defines, taken, other⟩, rfl, rfl⟩
      · have free (old : Definition) (taken : p.definitions.find? d.id = some old) :
            old.behavior.kind = .procedure := by
          by_contra other
          exact clash ⟨old, taken, other⟩
        obtain ⟨old, registered⟩ := Registry.register_of_admits procedure free
        have added : p.addChain blocks = .ok (p.nextId,
            { p with
              definitions := p.definitions.insert d
              chains := p.chains ++ [⟨p.nextId, Chain.origin, blocks⟩] }) := by
          simp only [Program.addChain, defines, registered]
        rw [ProgramEdit.act, added]
        refine .inr ⟨?_, .addProcedure defines⟩
        rintro ⟨d', old', defines', taken, other⟩
        cases defines.symm.trans defines'
        exact other (free old' taken)
  | removeChain id =>
    cases found : p.chain? id with
    | none =>
      have nothing : p.removeChain id = none := by rw [removeChain, found]; rfl
      rw [ProgramEdit.act, nothing]
      exact .inl ⟨found, rfl, rfl⟩
    | some c =>
      obtain ⟨rfl, front, back, place, first⟩ := chain?_eq_some.mp found
      rw [ProgramEdit.act, removeChain_of_first place first]
      exact .inr ⟨by simp [Refuses, found], .removeChain place first⟩

/-- An edit replaces one part of the row of blocks: what it hands back by what it was given. -/
theorem Becomes.spliced (h : p.Becomes e answer q) :
    Spliced answer.nodes (e.given.flatMap Block.nodes) p.nodes q.nodes := by
  cases h with
  | chain place first becomes => exact becomes.spliced.flatMap_one (Spliced.replaced place _)
  | @addChain blocks | @addProcedure blocks =>
    have chains := (Spliced.pushed p.chains ⟨p.nextId, Chain.origin, blocks⟩).flatMap Chain.nodes
    rwa [List.flatMap_singleton] at chains
  | removeChain place first =>
    have chains := (Spliced.removed place).flatMap Chain.nodes
    rwa [List.flatMap_singleton] at chains

/-- An edit that does something is not refused. -/
theorem Becomes.not_isRefusal (h : p.Becomes e answer q) : answer.isRefusal = false := by
  cases h with
  | chain _ _ becomes => exact becomes.not_isRefusal
  | _ => rfl

/-! ## Histories -/

/-- The blocks that edits are given. -/
def handedIn (edits : List ProgramEdit) : List String :=
  edits.flatMap fun e => e.given.flatMap Block.nodes

/-- The blocks that edits hand back. -/
def handedBack (p : Program) (edits : List ProgramEdit) : List String :=
  (p.editAll edits).1.flatMap EditAnswer.nodes

/-- The blocks that are given to edits which are refused. -/
def discarded (p : Program) (edits : List ProgramEdit) : List String :=
  (edits.zip (p.editAll edits).1).flatMap fun (e, answer) =>
    if answer.isRefusal then e.given.flatMap Block.nodes else []

/-- What one edit hands back or discards, and what is there after it, is what was there before it
and what it was given. -/
theorem count_act (p : Program) (e : ProgramEdit) (definition : String) :
    (e.act p).2.nodes.count definition + ((e.act p).1.nodes.count definition +
        (if (e.act p).1.isRefusal then e.given.flatMap Block.nodes else []).count definition) =
      p.nodes.count definition + (e.given.flatMap Block.nodes).count definition := by
  rcases p.act_cases e with ⟨-, refusal, same⟩ | ⟨-, becomes⟩
  · rw [same, EditAnswer.nodes_of_isRefusal refusal, if_pos refusal, List.count_nil, Nat.zero_add]
  · rw [if_neg (by simp [becomes.not_isRefusal]), List.count_nil, Nat.add_zero,
      becomes.spliced.count]

/-- **Edits neither lose nor duplicate blocks:** those that are there after a history, that were
handed back and that were discarded are those that were there before it and that were handed in. -/
theorem count_editAll (p : Program) (edits : List ProgramEdit) (definition : String) :
    (p.editAll edits).2.nodes.count definition +
        ((p.handedBack edits).count definition + (p.discarded edits).count definition) =
      p.nodes.count definition + (handedIn edits).count definition := by
  induction edits generalizing p with
  | nil => rfl
  | cons e rest ih =>
    have first := p.count_act e definition
    have later := ih (e.act p).2
    simp only [handedBack, discarded, handedIn] at later ⊢
    simp only [editAll, List.flatMap_cons, List.zip_cons_cons, List.count_append]
    omega

theorem editAll_append (p : Program) (before after : List ProgramEdit) :
    p.editAll (before ++ after) =
      ((p.editAll before).1 ++ ((p.editAll before).2.editAll after).1,
        ((p.editAll before).2.editAll after).2) := by
  induction before generalizing p with
  | nil => rfl
  | cons e rest ih => simp only [List.cons_append, editAll, ih]

theorem length_editAll (p : Program) (edits : List ProgramEdit) :
    (p.editAll edits).1.length = edits.length := by
  induction edits generalizing p with
  | nil => rfl
  | cons e rest ih => simp only [editAll, List.length_cons, ih]

/-- **Edits neither lose nor duplicate blocks.** Over a history, the blocks of each definition that
are there afterwards, were handed back or were discarded are those that were there before or were
handed in. Each edit is refused, for one of the reasons for it, and changes nothing; or it does what
`Becomes` says, and in the row of blocks only replaces what it hands back by what it was given. -/
theorem edits_conserve (p : Program) (edits : List ProgramEdit) :
    (∀ definition : String,
      (p.editAll edits).2.nodes.count definition +
          ((p.handedBack edits).count definition + (p.discarded edits).count definition) =
        p.nodes.count definition + (handedIn edits).count definition) ∧
    ∀ before e after, edits = before ++ e :: after →
      let q := (p.editAll before).2
      (p.editAll edits).1[before.length]? = some (e.act q).1 ∧
        (q.Refuses e ∧ (e.act q).1.isRefusal ∧ (e.act q).2 = q ∨
          ¬ q.Refuses e ∧ (e.act q).1.isRefusal = false ∧
            q.Becomes e (e.act q).1 (e.act q).2 ∧
            Spliced (e.act q).1.nodes (e.given.flatMap Block.nodes) q.nodes (e.act q).2.nodes) := by
  refine ⟨p.count_editAll edits, ?_⟩
  rintro before e after rfl
  refine ⟨?_, ?_⟩
  · rw [editAll_append, ← length_editAll p before, List.getElem?_append_right (Nat.le_refl _),
      Nat.sub_self]
    rfl
  · rcases (p.editAll before).2.act_cases e with refused | ⟨admits, becomes⟩
    · exact .inl refused
    · exact .inr ⟨admits, becomes.not_isRefusal, becomes, becomes.spliced⟩

/-- A program with one chain. -/
def joiningProgram : Program := ⟨.ofList Builtins.directing, .empty, [Chain.joining]⟩

/-- A sum inside a text gives way to another block, and then the whole chain is taken out. -/
def retouching : List ProgramEdit :=
  [.chain 0 (.push ⟨"end", []⟩), .chain 0 (.remove 7),
    .chain 0 (.argument ⟨1, [0]⟩ Chain.absolute), .removeChain 0]

theorem edits_conserve_retouching :
    retouching = [.chain 0 (.push ⟨"end", []⟩)] ++ .chain 0 (.remove 7) :: retouching.drop 2 ∧
      ((joiningProgram.editAll retouching).2.nodes.count "add" +
          ((joiningProgram.handedBack retouching).count "add" +
            (joiningProgram.discarded retouching).count "add") =
        joiningProgram.nodes.count "add" + (handedIn retouching).count "add") ∧
      (joiningProgram.handedBack retouching).count "add" = 1 ∧
      (joiningProgram.editAll retouching).1[1]? = some .refused := by
  have split : retouching =
      [.chain 0 (.push ⟨"end", []⟩)] ++ .chain 0 (.remove 7) :: retouching.drop 2 := rfl
  obtain ⟨counts, steps⟩ := edits_conserve joiningProgram retouching
  exact ⟨split, counts "add", by decide +kernel, (steps _ _ _ split).1⟩

end Program

end Blockwork
