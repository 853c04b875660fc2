import Blockwork.Listing
import Blockwork.Proofs.Grammar
import Mathlib.Data.Finset.Card
import Mathlib.Data.Finset.Range

/-!
# Where the blocks of a listing stand

A listing is made line by line. It counts bytes while it is made, and it counts open bodies by the
parts that the blocks play, without looking for their ends. Both counts are related here to what
they are about: a span is where the text of its block stands, and the depth of a block is the number
of bodies it lies in, if the bodies of the chain nest.

## Main statements

* `Chain.blocks_ofChain`: what is listed, and how deep.
* `Listing.depthOf_eq_card`: the depth of a block is the number of the bodies around it.
* `Chain.listing_exact`: the text, the spans and the indentation of a listing.

The count of open bodies before a block is related to the openers that are closed there or later
(`Shape.open`); an else and an end are met while their own opener is one of them.
-/

namespace Blockwork

/-! ## Lines -/

/-- The line of a block, with its end. -/
def ListedBlock.line (b : ListedBlock) : String := b.indentation ++ b.text ++ "\n"

theorem ListedBlock.indentation_eq (b : ListedBlock) :
    b.indentation = String.ofList (List.replicate (4 * b.depth) ' ') := by
  obtain ⟨depth, text⟩ := b
  show String.join (List.replicate depth Listing.step) = _
  induction depth with
  | zero => rfl
  | succ depth ih =>
    rw [List.replicate_succ, String.join_cons, ih, Nat.mul_succ, Nat.add_comm,
      ← List.replicate_append_replicate, String.ofList_append]
    rfl

/-- A part of a text as bytes. -/
def Listing.bytes (l : Listing) (span : Nat × Nat) : ByteArray :=
  l.text.toByteArray.extract span.1 span.2

namespace Listing

variable {blocks : List ListedBlock} {i : Nat} {b : ListedBlock}

/-- What stands before the text of the block at an index. -/
def before (blocks : List ListedBlock) (i : Nat) (b : ListedBlock) : String :=
  String.join ((blocks.take i).map ListedBlock.line) ++ b.indentation

/-- The text of a listing around the text of a block. -/
theorem join_lines (h : blocks[i]? = some b) :
    String.join (blocks.map ListedBlock.line) =
      before blocks i b ++ b.text ++
        ("\n" ++ String.join ((blocks.drop (i + 1)).map ListedBlock.line)) := by
  obtain ⟨lt, rfl⟩ := List.getElem?_eq_some_iff.mp h
  have whole : blocks = blocks.take i ++ blocks[i] :: blocks.drop (i + 1) := by
    rw [← List.drop_eq_getElem_cons lt, List.take_append_drop]
  conv_lhs => rw [whole]
  rw [List.map_append, String.join_append, List.map_cons, String.join_cons]
  simp only [ListedBlock.line, before, String.append_assoc]

/-- The span of a block begins where the text before it ends. -/
theorem getElem?_spansFrom (offset : Nat) (h : blocks[i]? = some b) :
    (spansFrom offset blocks)[i]? =
      some (offset + (before blocks i b).utf8ByteSize,
        offset + (before blocks i b).utf8ByteSize + b.text.utf8ByteSize) := by
  induction blocks generalizing offset i with
  | nil => cases h
  | cons first rest ih =>
    cases i with
    | zero =>
      obtain rfl : first = b := by simpa using h
      simp [spansFrom, before]
    | succ i =>
      have size : (before (first :: rest) (i + 1) b).utf8ByteSize =
          first.indentation.utf8ByteSize + first.text.utf8ByteSize + 1 +
            (before rest i b).utf8ByteSize := by
        rw [before, List.take_succ_cons, List.map_cons, String.join_cons, String.append_assoc,
          String.utf8ByteSize_append, ListedBlock.line, String.utf8ByteSize_append,
          String.utf8ByteSize_append]
        rfl
      show (spansFrom _ rest)[i]? = _
      rw [ih _ (by simpa using h), size]
      congr 2 <;> omega

theorem length_spansFrom (offset : Nat) (blocks : List ListedBlock) :
    (spansFrom offset blocks).length = blocks.length := by
  induction blocks generalizing offset with
  | nil => rfl
  | cons b rest ih => simp [spansFrom, ih]

theorem le_of_mem_spansFrom {offset : Nat} {span : Nat × Nat} (h : span ∈ spansFrom offset blocks) :
    offset ≤ span.1 := by
  induction blocks generalizing offset with
  | nil => cases h
  | cons b rest ih =>
    rcases List.mem_cons.mp h with rfl | h
    · exact Nat.le_add_right _ _
    · have := ih h
      omega

/-- A span ends before the next one begins: the end of the line is between them. -/
theorem pairwise_spansFrom (offset : Nat) (blocks : List ListedBlock) :
    (spansFrom offset blocks).Pairwise fun span later => span.2 < later.1 := by
  induction blocks generalizing offset with
  | nil => exact .nil
  | cons b rest ih =>
    refine .cons (fun later among => ?_) (ih _)
    exact le_of_mem_spansFrom among

variable {l : Listing}

theorem span?_eq_none_iff : l.span? i = none ↔ l.blocks.length ≤ i := by
  rw [span?, List.getElem?_eq_none_iff, length_spansFrom]

theorem lt_of_span? {j : Nat} {span later : Nat × Nat} (lt : i < j) (h : l.span? i = some span)
    (h' : l.span? j = some later) : span.2 < later.1 := by
  obtain ⟨inside, rfl⟩ := List.getElem?_eq_some_iff.mp h
  obtain ⟨inside', rfl⟩ := List.getElem?_eq_some_iff.mp h'
  exact List.pairwise_iff_getElem.mp (pairwise_spansFrom 0 l.blocks) i j inside inside' lt

theorem span?_eq (h : l.blocks[i]? = some b) :
    l.span? i = some ((before l.blocks i b).utf8ByteSize,
      (before l.blocks i b).utf8ByteSize + b.text.utf8ByteSize) := by
  have span := getElem?_spansFrom 0 h
  rwa [Nat.zero_add] at span

/-- **The bytes of a span are the text of its block.** -/
theorem bytes_of_span? {span : Nat × Nat} (h : l.blocks[i]? = some b)
    (hspan : l.span? i = some span) : l.bytes span = b.text.toByteArray := by
  rw [span?_eq h] at hspan
  cases hspan
  show (String.join (l.blocks.map ListedBlock.line)).toByteArray.extract _ _ = _
  rw [join_lines h, String.toByteArray_append, String.toByteArray_append, ByteArray.append_assoc,
    ← String.size_toByteArray, ← String.size_toByteArray, ← Nat.add_zero (ByteArray.size _),
    Nat.add_assoc, ByteArray.extract_append_size_add]
  exact ByteArray.extract_append_eq_left (Nat.zero_add _)

/-! ## Counting open bodies -/

/-- How many bodies a listing takes to be open after blocks that play the given parts. -/
def openAfter (depth : Nat) (flows : List (Option Flow)) : Nat :=
  flows.foldl (fun depth flow => depthAfter (depthAt depth flow) flow) depth

/-- How many bodies a listing takes to be open when it comes to a block. -/
def openBefore (flows : List (Option Flow)) (i : Nat) : Nat := openAfter 0 (flows.take i)

/-- How deep a listing puts a block. -/
def depthOf (flows : List (Option Flow)) (i : Nat) : Nat :=
  depthAt (openBefore flows i) (flows[i]?.getD none)

theorem openBefore_succ {flows : List (Option Flow)} {flow : Option Flow}
    (h : flows[i]? = some flow) :
    openBefore flows (i + 1) = depthAfter (depthAt (openBefore flows i) flow) flow := by
  rw [openBefore, openAfter, List.take_add_one, h, List.foldl_append]
  rfl

theorem depth_of_plain {flow : Option Flow} (plain : flow.all Flow.isPlain) (depth : Nat) :
    depthAt depth flow = depth ∧ depthAfter depth flow = depth := by
  cases flow with
  | none => exact ⟨rfl, rfl⟩
  | some flow => cases flow <;> first | exact ⟨rfl, rfl⟩ | cases plain

theorem depth_of_opener {flow : Flow} (opens : flow.opensBody) (depth : Nat) :
    depthAt depth (some flow) = depth ∧ depthAfter depth (some flow) = depth + 1 := by
  cases flow <;> first | exact ⟨rfl, rfl⟩ | cases opens

theorem depthOf_of_getElem? {flows : List (Option Flow)} {flow : Option Flow}
    (h : flows[i]? = some flow) : depthOf flows i = depthAt (openBefore flows i) flow := by
  rw [depthOf, h]
  rfl

end Listing

/-! ## The bodies around a block -/

/-- Whether a block opens a body that another block lies in. An end does not lie in the body that it
closes, nor an else in those that it separates. -/
def Shape.encloses (opener i : Nat) : Shape → Bool
  | .opener _ middle c => opener < i && i < c && middle != some i
  | _ => false

/-- Whether a block opens a body that another block lies in, separates or closes. -/
def Shape.isOpenAt (opener i : Nat) : Shape → Bool
  | .opener _ _ c => opener < i && i ≤ c
  | _ => false

/-- The openers of the bodies that a block lies in. -/
def bodiesAround (shapes : List Shape) (i : Nat) : Finset Nat :=
  {opener ∈ Finset.range shapes.length | (shapes[opener]?).any (Shape.encloses opener i)}

/-- The openers whose ends do not come before a block. -/
def openersAt (shapes : List Shape) (i : Nat) : Finset Nat :=
  {opener ∈ Finset.range shapes.length | (shapes[opener]?).any (Shape.isOpenAt opener i)}

section

variable {shapes : List Shape} {i o c : Nat} {flow : Flow} {middle : Option Nat}

theorem mem_openersAt : o ∈ openersAt shapes i ↔
    ∃ flow middle c, shapes[o]? = some (.opener flow middle c) ∧ o < i ∧ i ≤ c := by
  rw [openersAt, Finset.mem_filter, Finset.mem_range, Option.any_eq_true]
  constructor
  · rintro ⟨-, shape, stands, isOpen⟩
    cases shape with
    | opener flow middle c =>
      exact ⟨flow, middle, c, stands, by simpa [Shape.isOpenAt] using isOpen⟩
    | _ => cases isOpen
  · rintro ⟨flow, middle, c, stands, before, after⟩
    exact ⟨(List.getElem?_eq_some_iff.mp stands).1, _, stands, by simp [Shape.isOpenAt, *]⟩

theorem mem_bodiesAround : o ∈ bodiesAround shapes i ↔
    ∃ flow middle c, shapes[o]? = some (.opener flow middle c) ∧ o < i ∧ i < c ∧
      middle ≠ some i := by
  rw [bodiesAround, Finset.mem_filter, Finset.mem_range, Option.any_eq_true]
  constructor
  · rintro ⟨-, shape, stands, around⟩
    cases shape with
    | opener flow middle c =>
      exact ⟨flow, middle, c, stands, by simpa [Shape.encloses, and_assoc] using around⟩
    | _ => cases around
  · rintro ⟨flow, middle, c, stands, before, after, outside⟩
    exact ⟨(List.getElem?_eq_some_iff.mp stands).1, _, stands, by simp [Shape.encloses, *]⟩

theorem openersAt_zero : openersAt shapes 0 = ∅ := by
  refine Finset.eq_empty_of_forall_notMem fun o among => ?_
  obtain ⟨flow, middle, c, stands, before, -⟩ := mem_openersAt.mp among
  exact Nat.not_lt_zero o before

namespace BodiesNest

variable (nest : BodiesNest shapes)
include nest

/-- Behind a block those openers are left that it does not close, and the block itself if it is
one. -/
theorem mem_openersAt_succ : o ∈ openersAt shapes (i + 1) ↔
    o ∈ openersAt shapes i ∧ shapes[i]? ≠ some (.close o) ∨
      o = i ∧ ∃ flow middle c, shapes[i]? = some (.opener flow middle c) := by
  rw [mem_openersAt, mem_openersAt]
  constructor
  · rintro ⟨flow, middle, c, stands, before, after⟩
    rcases Nat.eq_or_lt_of_le (Nat.le_of_lt_succ before) with rfl | earlier
    · exact .inr ⟨rfl, flow, middle, c, stands⟩
    · refine .inl ⟨⟨flow, middle, c, stands, earlier, Nat.le_of_lt after⟩, fun closes => ?_⟩
      obtain ⟨flow', middle', stands'⟩ := nest.opener_of_close closes
      rw [stands] at stands'
      cases stands'
      exact Nat.lt_irrefl _ after
  · rintro (⟨⟨flow, middle, c, stands, before, after⟩, stays⟩ | ⟨rfl, flow, middle, c, stands⟩)
    · refine ⟨flow, middle, c, stands, Nat.lt_succ_of_lt before, ?_⟩
      rcases Nat.eq_or_lt_of_le after with rfl | later
      · exact absurd (nest.close stands).2 stays
      · exact later
    · exact ⟨flow, middle, c, stands, Nat.lt_succ_self _, (nest.close stands).1⟩

/-- A block lies in the bodies that are open when it comes, apart from one that it closes or
splits. -/
theorem mem_bodiesAround_iff : o ∈ bodiesAround shapes i ↔
    o ∈ openersAt shapes i ∧ shapes[i]? ≠ some (.close o) ∧
      ∀ c, shapes[i]? ≠ some (.otherwise o c) := by
  rw [mem_bodiesAround, mem_openersAt]
  constructor
  · rintro ⟨flow, middle, c, stands, before, after, outside⟩
    refine ⟨⟨flow, middle, c, stands, before, Nat.le_of_lt after⟩, fun closes => ?_,
      fun c' splits => ?_⟩
    · obtain ⟨flow', middle', stands'⟩ := nest.opener_of_close closes
      rw [stands] at stands'
      cases stands'
      exact Nat.lt_irrefl _ after
    · rw [nest.opener_of_otherwise splits] at stands
      cases stands
      exact outside rfl
  · rintro ⟨⟨flow, middle, c, stands, before, after⟩, stays, outside⟩
    refine ⟨flow, middle, c, stands, before, ?_, ?_⟩
    · rcases Nat.eq_or_lt_of_le after with rfl | later
      · exact absurd (nest.close stands).2 stays
      · exact later
    · rintro rfl
      exact outside c (nest.otherwise stands).2.2.2

/-- A block that ends nothing lies in all bodies that are open when it comes. -/
theorem bodiesAround_eq (stays : ∀ o, shapes[i]? ≠ some (.close o))
    (outside : ∀ o c, shapes[i]? ≠ some (.otherwise o c)) :
    bodiesAround shapes i = openersAt shapes i := by
  ext o
  rw [nest.mem_bodiesAround_iff]
  exact and_iff_left ⟨stays o, outside o⟩

/-- A block that closes or splits a body does not lie in it. -/
theorem bodiesAround_of_belongs (belongs : shapes[i]? = some (.close o) ∨
    ∃ c, shapes[i]? = some (.otherwise o c)) :
    bodiesAround shapes i = (openersAt shapes i).erase o := by
  ext o'
  rw [nest.mem_bodiesAround_iff, Finset.mem_erase]
  rcases belongs with stands | ⟨c, stands⟩ <;> rw [stands] <;> simp [and_comm, eq_comm]

/-- An else or an end stands in the body of its opener or at the end of it, and what opens after the
opener is shut before. -/
theorem opener_of_belongs (belongs : shapes[i]? = some (.close o) ∨
    ∃ c, shapes[i]? = some (.otherwise o c)) :
    ∃ flow middle c, shapes[o]? = some (.opener flow middle c) ∧ o < i ∧ i ≤ c ∧
      ∀ {o' flow' middle' c'}, shapes[o']? = some (.opener flow' middle' c') → o < o' → o' < i →
        c' < i := by
  rcases belongs with closes | ⟨c, splits⟩
  · obtain ⟨flow, middle, stands⟩ := nest.opener_of_close closes
    refine ⟨flow, middle, i, stands, (nest.close stands).1, Nat.le_refl _, ?_⟩
    intro o' flow' middle' c' stands' later inside
    rcases nest.disjoint_or_nested stands stands' later with outside | within
    · omega
    · exact within
  · have stands := nest.opener_of_otherwise splits
    obtain ⟨-, before, after, -⟩ := nest.otherwise stands
    exact ⟨_, _, c, stands, before, Nat.le_of_lt after, nest.shallow stands⟩

/-- The opener that a block closes or splits is open when the block comes, and the others that are
open then were open when the opener came. -/
theorem erase_openersAt (belongs : shapes[i]? = some (.close o) ∨
    ∃ c, shapes[i]? = some (.otherwise o c)) :
    o ∈ openersAt shapes i ∧ (openersAt shapes i).erase o = openersAt shapes o := by
  obtain ⟨flow, middle, c, stands, before, after, shallow⟩ := nest.opener_of_belongs belongs
  refine ⟨mem_openersAt.mpr ⟨flow, middle, c, stands, before, after⟩, ?_⟩
  ext o'
  rw [Finset.mem_erase, mem_openersAt, mem_openersAt]
  constructor
  · rintro ⟨other, flow', middle', c', stands', before', after'⟩
    refine ⟨flow', middle', c', stands', ?_, by omega⟩
    rcases Nat.lt_trichotomy o' o with earlier | same | later
    · exact earlier
    · exact absurd same other
    · have := shallow stands' later before'
      omega
  · rintro ⟨flow', middle', c', stands', before', after'⟩
    refine ⟨Nat.ne_of_lt before', flow', middle', c', stands', Nat.lt_trans before' before, ?_⟩
    rcases nest.disjoint_or_nested stands' stands before' with outside | within
    · -- the end of the other opener is no opener, so it is not this one
      rcases Nat.eq_or_lt_of_le after' with rfl | beyond
      · have closes := (nest.close stands').2
        rw [stands] at closes
        cases closes
      · omega
    · omega

end BodiesNest

end

namespace Listing

variable {flows : List (Option Flow)} {shapes : List Shape} {i o : Nat}

/-- **A listing counts the bodies that are open.** -/
theorem openBefore_eq_card (h : shapesOfFlows flows = .ok shapes) (le : i ≤ flows.length) :
    openBefore flows i = (openersAt shapes i).card := by
  obtain ⟨-, closed, suits⟩ := shapes_closed h
  have nest := closed.bodiesNest
  induction i with
  | zero => rw [openersAt_zero]; rfl
  | succ i ih =>
    obtain ⟨flow, here⟩ : ∃ flow, flows[i]? = some flow := ⟨_, List.getElem?_eq_getElem le⟩
    obtain ⟨shape, stands, suited⟩ := suits i flow here
    rw [openBefore_succ here, ih (Nat.le_of_lt le)]
    have after (x : Nat) := nest.mem_openersAt_succ (o := x) (i := i)
    rw [stands] at after
    cases shape with
    | plain =>
      have same : openersAt shapes (i + 1) = openersAt shapes i := by
        ext x
        simp [after]
      rw [(depth_of_plain suited _).1, (depth_of_plain suited _).2, same]
    | opener flow' middle c =>
      obtain ⟨rfl, opens, -⟩ := suited
      have more : openersAt shapes (i + 1) = insert i (openersAt shapes i) := by
        ext x
        simp [after, or_comm]
      have fresh : i ∉ openersAt shapes i := fun among => by
        obtain ⟨_, _, _, -, before, -⟩ := mem_openersAt.mp among
        exact Nat.lt_irrefl i before
      rw [(depth_of_opener opens _).1, (depth_of_opener opens _).2, more,
        Finset.card_insert_of_notMem fresh]
    | otherwise o c =>
      obtain rfl : flow = some .otherwise := suited
      have same : openersAt shapes (i + 1) = openersAt shapes i := by
        ext x
        simp [after]
      have among := (nest.erase_openersAt (.inr ⟨c, stands⟩)).1
      rw [same]
      exact Nat.sub_add_cancel (Finset.card_pos.mpr ⟨o, among⟩)
    | close o =>
      obtain rfl : flow = some .endBody := suited
      have fewer : openersAt shapes (i + 1) = (openersAt shapes i).erase o := by
        ext x
        simp [after, and_comm, eq_comm]
      have among := (nest.erase_openersAt (.inl stands)).1
      rw [fewer, Finset.card_erase_of_mem among]
      rfl

/-- **The depth of a block is the number of bodies that it lies in.** -/
theorem depthOf_eq_card (h : shapesOfFlows flows = .ok shapes) (lt : i < flows.length) :
    depthOf flows i = (bodiesAround shapes i).card := by
  obtain ⟨-, closed, suits⟩ := shapes_closed h
  have nest := closed.bodiesNest
  have here := List.getElem?_eq_getElem lt
  obtain ⟨shape, stands, suited⟩ := suits i _ here
  rw [depthOf_of_getElem? here, openBefore_eq_card h (Nat.le_of_lt lt)]
  -- an else and an end are put one step before the bodies that are open
  have ending (o : Nat) (part : depthAt (openersAt shapes i).card flows[i] =
      (openersAt shapes i).card - 1) (belongs : shapes[i]? = some (.close o) ∨
        ∃ c, shapes[i]? = some (.otherwise o c)) :
      depthAt (openersAt shapes i).card flows[i] = (bodiesAround shapes i).card := by
    rw [part, nest.bodiesAround_of_belongs belongs,
      Finset.card_erase_of_mem (nest.erase_openersAt belongs).1]
  cases shape with
  | plain =>
    rw [(depth_of_plain suited _).1,
      nest.bodiesAround_eq (by simp [stands]) (by simp [stands])]
  | opener flow middle c =>
    obtain ⟨part, opens, -⟩ := suited
    rw [part, (depth_of_opener opens _).1,
      nest.bodiesAround_eq (by simp [stands]) (by simp [stands])]
  | otherwise o c =>
    have part : flows[i] = some .otherwise := suited
    exact ending o (by rw [part]; rfl) (.inr ⟨c, stands⟩)
  | close o =>
    have part : flows[i] = some .endBody := suited
    exact ending o (by rw [part]; rfl) (.inl stands)

/-- An else and an end are as deep as the opener that they belong to. -/
theorem depthOf_of_belongs (h : shapesOfFlows flows = .ok shapes)
    (belongs : shapes[i]? = some (.close o) ∨ ∃ c, shapes[i]? = some (.otherwise o c)) :
    depthOf flows i = depthOf flows o := by
  obtain ⟨length, closed, -⟩ := shapes_closed h
  have nest := closed.bodiesNest
  have inside {k : Nat} {shape : Shape} (stands : shapes[k]? = some shape) : k < flows.length :=
    length ▸ (List.getElem?_eq_some_iff.mp stands).1
  obtain ⟨flow, middle, c, opener, -⟩ := nest.opener_of_belongs belongs
  have lt : i < flows.length := by
    rcases belongs with stands | ⟨c, stands⟩
    · exact inside stands
    · exact inside stands
  rw [depthOf_eq_card h lt, depthOf_eq_card h (inside opener),
    nest.bodiesAround_of_belongs belongs, (nest.erase_openersAt belongs).2,
    nest.bodiesAround_eq (by simp [opener]) (by simp [opener])]

/-- When a listing comes to an else or an end, it takes some body to be open. -/
theorem openBefore_pos {flow : Flow} (h : shapesOfFlows flows = .ok shapes)
    (here : flows[i]? = some (some flow)) (ends : flow = .otherwise ∨ flow = .endBody) :
    0 < openBefore flows i := by
  obtain ⟨-, closed, suits⟩ := shapes_closed h
  have nest := closed.bodiesNest
  obtain ⟨shape, stands, suited⟩ := suits i _ here
  rw [openBefore_eq_card h (Nat.le_of_lt (List.getElem?_eq_some_iff.mp here).1)]
  refine Finset.card_pos.mpr ?_
  cases shape with
  | plain => rcases ends with rfl | rfl <;> cases suited
  | opener flow' middle c =>
    obtain ⟨part, opens, -⟩ := suited
    cases part
    rcases ends with rfl | rfl <;> cases opens
  | otherwise o c => exact ⟨o, (nest.erase_openersAt (.inr ⟨c, stands⟩)).1⟩
  | close o => exact ⟨o, (nest.erase_openersAt (.inl stands)).1⟩

/-! ## Listings of chains -/

theorem getElem?_ofBlocks (r : Registry) (depth : Nat) (blocks : List Block) (i : Nat) :
    (ofBlocks r depth blocks)[i]? = blocks[i]?.map fun b =>
      ⟨depthAt (openAfter depth ((blocks.take i).map fun b => r.flow? b.definition))
        (r.flow? b.definition), r.render b⟩ := by
  induction blocks generalizing depth i with
  | nil => rfl
  | cons b rest ih =>
    cases i with
    | zero => rfl
    | succ i => exact ih _ i

end Listing

namespace Chain

/-- The blocks of a chain are listed in order, each as it is rendered. -/
theorem blocks_ofChain (c : Chain) (r : Registry) :
    (Listing.ofChain r c).blocks =
      c.blocks.zipIdx.map fun p => ⟨Listing.depthOf (c.parts r) p.2, r.render p.1⟩ := by
  refine List.ext_getElem? fun i => ?_
  show (Listing.ofBlocks r 0 c.blocks)[i]? = _
  rw [Listing.getElem?_ofBlocks, List.getElem?_map, List.getElem?_zipIdx, Option.map_map]
  cases stands : c.blocks[i]? with
  | none => rfl
  | some b =>
    have part : (c.parts r)[i]? = some (r.flow? b.definition) := by
      rw [parts, List.getElem?_map, stands]
      rfl
    have depth : Listing.depthOf (c.parts r) i = Listing.depthAt (Listing.openAfter 0
        ((c.blocks.take i).map fun b => r.flow? b.definition)) (r.flow? b.definition) := by
      rw [Listing.depthOf_of_getElem? part, Listing.openBefore, parts, List.map_take]
    simp [depth]

theorem getElem?_ofChain {c : Chain} {i : Nat} {b : Block} (r : Registry)
    (h : c.blocks[i]? = some b) :
    (Listing.ofChain r c).blocks[i]? = some ⟨Listing.depthOf (c.parts r) i, r.render b⟩ := by
  rw [blocks_ofChain, List.getElem?_map, List.getElem?_zipIdx, h]
  simp

theorem length_ofChain (c : Chain) (r : Registry) :
    (Listing.ofChain r c).blocks.length = c.blocks.length := by
  rw [blocks_ofChain, List.length_map, List.length_zipIdx]

/-- **A listing shows each block on its line, and its spans are where the blocks stand.** The text
is made of the indented blocks in order. A span covers the bytes of its block and nothing else, ends
before the next one begins, and there is none behind the last block. If the bodies of the chain
nest, a block is indented by one step for each body that it lies in, so an else and an end stand
below their opener, and no end is met without an open body. -/
theorem listing_exact (c : Chain) (r : Registry) :
    let l := Listing.ofChain r c
    let depth := Listing.depthOf (c.parts r)
    let indent := fun i => String.ofList (List.replicate (4 * depth i) ' ')
    let line := fun p : Block × Nat => indent p.2 ++ r.render p.1 ++ "\n"
    l.text = String.join (c.blocks.zipIdx.map line) ∧
    (∀ i b, c.blocks[i]? = some b →
      let start := (String.join ((c.blocks.zipIdx.take i).map line) ++ indent i).utf8ByteSize
      let span := (start, start + (r.render b).utf8ByteSize)
      l.span? i = some span ∧ l.bytes span = (r.render b).toByteArray) ∧
    (∀ i j span later, i < j → l.span? i = some span → l.span? j = some later →
      span.2 < later.1) ∧
    (∀ i, l.span? i = none ↔ c.blocks.length ≤ i) ∧
    ∀ shapes, c.shapes r = .ok shapes → ∀ i b, c.blocks[i]? = some b →
      depth i = (bodiesAround shapes i).card ∧
      (∀ o, (shapes[i]? = some (.close o) ∨ ∃ close, shapes[i]? = some (.otherwise o close)) →
        depth i = depth o) ∧
      ∀ flow, r.flow? b.definition = some flow → flow = .otherwise ∨ flow = .endBody →
        0 < Listing.openBefore (c.parts r) i := by
  intro l depth indent line
  have listed (p : Block × Nat) : (ListedBlock.mk (depth p.2) (r.render p.1)).line = line p := by
    rw [ListedBlock.line, ListedBlock.indentation_eq]
  have lines : l.blocks.map ListedBlock.line = c.blocks.zipIdx.map line := by
    rw [blocks_ofChain, List.map_map]
    exact List.map_congr_left fun p _ => listed p
  refine ⟨congrArg String.join lines, ?_, ?_, ?_, ?_⟩
  · intro i b stands start span
    have start_eq : (Listing.before l.blocks i ⟨depth i, r.render b⟩).utf8ByteSize = start := by
      rw [Listing.before, List.map_take, lines, ← List.map_take, ListedBlock.indentation_eq]
    have hspan : l.span? i = some span := by
      rw [Listing.span?_eq (getElem?_ofChain r stands), start_eq]
    exact ⟨hspan, Listing.bytes_of_span? (getElem?_ofChain r stands) hspan⟩
  · intro i j span later lt h h'
    exact Listing.lt_of_span? lt h h'
  · intro i
    rw [Listing.span?_eq_none_iff, length_ofChain]
  · intro shapes h i b stands
    have part : (c.parts r)[i]? = some (r.flow? b.definition) := by
      rw [parts, List.getElem?_map, stands]
      rfl
    refine ⟨Listing.depthOf_eq_card h (List.getElem?_eq_some_iff.mp part).1,
      fun o belongs => Listing.depthOf_of_belongs h belongs, fun flow plays ends => ?_⟩
    exact Listing.openBefore_pos h (plays ▸ part) ends

end Chain

end Blockwork
