import Blockwork.CommandLine.Commands
import Blockwork.Proofs.Defects
import Blockwork.Proofs.EditHistories
import Blockwork.Proofs.Listings

/-!
# What the label of a violation marks

A violation names its chain by a number. The message about it shows the listing of the first chain
of that number, and marks the block at the index of the path there. Chains are checked one by one,
whatever their numbers are, so the block that is marked is the one at fault if the chain that was
checked is the first of its number, and of all chains if no number is given twice. A chain that
shares its number with an earlier one gets the label of a block of that one, or none.

## Main statements

* `Listing.marked_diagnostic`: what the label of a violation marks.
* `ProgramFile.marksFault_iff`: when it marks the block at fault.
* `ProgramFile.marksFault_of_distinct`: it does if the numbers of the chains are distinct.
-/

namespace Blockwork

/-- What a diagnostic about a listing marks. -/
def Diagnostic.marked (d : Diagnostic) (l : Listing) : Option ByteArray :=
  d.label.map fun label => l.bytes (label.start, label.stop)

namespace Listing

variable {r : Registry} {c : Chain}

/-- **The label of a violation marks the block at the index of its path**, if there is one in the
chain that is listed. -/
theorem marked_diagnostic (v : Violation) :
    (v.diagnostic (ofChain r c)).marked (ofChain r c) =
      (c.blocks[v.path.index]?).map fun b => (r.render b).toByteArray := by
  rw [Diagnostic.marked, Violation.diagnostic]
  cases stands : c.blocks[v.path.index]? with
  | none =>
    have behind := List.getElem?_eq_none_iff.mp stands
    rw [span?_eq_none_iff.mpr (c.length_ofChain r ▸ behind)]
    rfl
  | some b =>
    have listed := Chain.getElem?_ofChain r stands
    have hspan := span?_eq listed
    rw [hspan]
    exact congrArg some (bytes_of_span? listed hspan)

end Listing

/-- A violation is about a block of its chain that lies in the block at the index of its path. -/
theorem Chain.exists_top_of_violation {c : Chain} {r : Registry} {v : Violation}
    (h : v ∈ c.violations r) :
    v.chain = c.id ∧ ∃ top b, c.blocks[v.path.index]? = some top ∧
      top.descend v.path.slots = some b := by
  rcases mem_violations h with ⟨path, kind, b, rfl, reachable, -⟩ | ⟨e, hs, rfl⟩
  · obtain ⟨top, stands, leads⟩ := reachable_iff.mp reachable
    exact ⟨rfl, top, b, stands, leads.descend⟩
  · obtain ⟨b, -, at_path, -⟩ := blames_of_shapes hs
    obtain ⟨top, stands, leads⟩ := Option.bind_eq_some_iff.mp at_path
    exact ⟨rfl, top, b, stands, leads⟩

namespace ProgramFile

/-- The message about a violation of a chain marks the block of the chain that holds the block at
fault. -/
def MarksFault (f : ProgramFile) (c : Chain) (v : Violation) : Prop :=
  ∃ l top b, f.listing? v.chain = some l ∧ c.blocks[v.path.index]? = some top ∧
    top.descend v.path.slots = some b ∧
    (v.diagnostic l).marked l = some (f.program.definitions.render top).toByteArray

variable {f : ProgramFile} {v : Violation} {c : Chain}

/-- **What the message about a violation marks.** It shows the first chain that has the number of
the chain at fault, and marks the block there that has the index of the one at fault. The mark is
right just when this block looks the same. -/
theorem marksFault_iff (found : v ∈ c.violations f.program.definitions) :
    f.MarksFault c v ↔ ∃ first, f.program.chain? c.id = some first ∧
      (first.blocks[v.path.index]?).map f.program.definitions.render =
        (c.blocks[v.path.index]?).map f.program.definitions.render := by
  obtain ⟨named, top, b, stands, leads⟩ := c.exists_top_of_violation found
  have listed : f.listing? v.chain =
      (f.program.chain? c.id).map (Listing.ofChain f.program.definitions) := by
    rw [listing?, named]
  rw [stands]
  constructor
  · rintro ⟨l, top', b', shows, stands', -, marks⟩
    rw [stands] at stands'
    cases stands'
    rw [listed] at shows
    obtain ⟨first, lists, rfl⟩ := Option.map_eq_some_iff.mp shows
    refine ⟨first, lists, ?_⟩
    rw [Listing.marked_diagnostic] at marks
    obtain ⟨shown, there, same⟩ := Option.map_eq_some_iff.mp marks
    rw [there, Option.map_some, Option.map_some, String.toByteArray_inj.mp same]
  · rintro ⟨first, lists, same⟩
    refine ⟨_, top, b, listed.trans (congrArg _ lists), stands, leads, ?_⟩
    rw [Listing.marked_diagnostic, ← Function.comp_def, ← Option.map_map, same]
    rfl

/-- **The message about a violation marks the block at fault if its chain is the first of its
number.** -/
theorem marksFault_of_first (found : v ∈ c.violations f.program.definitions)
    (first : f.program.chain? c.id = some c) : f.MarksFault c v :=
  (marksFault_iff found).mpr ⟨c, first, rfl⟩

/-- **If no number is given twice, the message about every violation marks the block at fault.** -/
theorem marksFault_of_distinct (distinct : (f.program.chains.map Chain.id).Nodup)
    (h : v ∈ f.program.violations) :
    ∃ c ∈ f.program.chains, v ∈ c.violations f.program.definitions ∧ f.MarksFault c v := by
  obtain ⟨c, among, found⟩ := List.mem_flatMap.mp h
  obtain ⟨front, back, place⟩ := List.append_of_mem among
  refine ⟨c, among, found, marksFault_of_first found ?_⟩
  refine Program.chain?_eq_some.mpr ⟨rfl, front, back, place, fun d earlier same => ?_⟩
  rw [place, List.map_append, List.map_cons] at distinct
  exact (List.nodup_append.mp distinct).2.2 d.id (List.mem_map_of_mem earlier) c.id
    List.mem_cons_self same

end ProgramFile

end Blockwork
