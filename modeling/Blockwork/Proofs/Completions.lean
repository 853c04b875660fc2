import Blockwork.Proofs.Grammar

/-!
# Rows that can be completed

Blocks that have no shapes may still be the beginning of blocks that have some. Which of the errors
of a structure is reported, and where, is told by what can be completed, and not by the pass that
finds it.

## Main statements

* `extensible_iff`: blocks can be completed when they leave bodies open as rows inside rows.
* `Chain.shapes_error_iff`: an early error is reported for the first block that cannot be part of
  a completed chain, and the lack of an end is reported when everything can be completed.

Blocks that can be completed are rows, each followed by an opener whose body has begun
(`LeavesOpen`). One end for each open body completes them.

Completion is by parts: the blocks that complete others may play any parts, whether or not there are
definitions for them. As ends are all that is needed, this is completion by blocks of a registry
that defines an end (`Chain.extensible_take_iff`). A registry without one has no block to close a
body with; there a chain that leaves bodies open has no completion by blocks, and still what is
reported for it is the lack of an end.
-/

namespace Blockwork

/-! ## What can be completed -/

/-- More blocks, playing any parts, make blocks that have shapes. No registry is asked for
definitions of these blocks. -/
def Extensible (parts : List (Option Flow)) : Prop :=
  ∃ more shapes, shapesOfFlows (parts ++ more) = .ok shapes

/-- The block at the index is the first that cannot be part of blocks that have shapes. -/
def FailsAt (parts : List (Option Flow)) (index : Nat) : Prop :=
  Extensible (parts.take index) ∧ ¬ Extensible (parts.take (index + 1))

/-- What may stand between the opener of a body and its end. -/
inductive Interior (flow : Flow) : List (Option Flow) → Prop where
  | whole (d : Derivation) : Interior flow d.parts
  | split (isIf : flow = .ifThen) (first second : Derivation) :
      Interior flow (first.parts ++ some .otherwise :: second.parts)

/-- The opener at the one index and the end at the other belong to one body. -/
def Matches (parts : List (Option Flow)) (i c : Nat) : Prop :=
  ∃ (before : List (Option Flow)) (flow : Flow) (inside after : List (Option Flow)),
    flow.opensBody ∧ Interior flow inside ∧
      parts = before ++ some flow :: (inside ++ some .endBody :: after) ∧
      before.length = i ∧ i + 1 + inside.length = c

/-- The block opens a body, and no end belongs to it. -/
def OpenAt (parts : List (Option Flow)) (i : Nat) : Prop :=
  (∃ flow, parts[i]? = some (some flow) ∧ flow.opensBody) ∧ ∀ c, ¬ Matches parts i c

/-- The innermost body that is open begins at the index. -/
def Innermost (parts : List (Option Flow)) (i : Nat) : Prop :=
  OpenAt parts i ∧ ∀ j, OpenAt parts j → j ≤ i

/-- The outermost body that is open begins at the index. -/
def Outermost (parts : List (Option Flow)) (i : Nat) : Prop :=
  OpenAt parts i ∧ ∀ j, OpenAt parts j → i ≤ j

/-- The block at the index is an if, and an else stands directly inside its body. -/
def SplitAt (parts : List (Option Flow)) (i : Nat) : Prop :=
  ∃ (before : List (Option Flow)) (d : Derivation) (after : List (Option Flow)),
    parts = before ++ some .ifThen :: (d.parts ++ some .otherwise :: after) ∧ before.length = i

/-- What an error says of the blocks. -/
def StructureError.Holds (parts : List (Option Flow)) : StructureError → Prop
  | .unmatchedEnd n =>
    FailsAt parts n ∧ parts[n]? = some (some .endBody) ∧ ∀ i, ¬ OpenAt (parts.take n) i
  | .strayElse n =>
    FailsAt parts n ∧ parts[n]? = some (some .otherwise) ∧
      ∀ i, Innermost (parts.take n) i → parts[i]? ≠ some (some .ifThen)
  | .duplicateElse i n =>
    FailsAt parts n ∧ parts[n]? = some (some .otherwise) ∧ Innermost (parts.take n) i ∧
      parts[i]? = some (some .ifThen) ∧ SplitAt (parts.take n) i
  | .unterminated i =>
    Extensible parts ∧ (¬ ∃ shapes, shapesOfFlows parts = .ok shapes) ∧ Outermost parts i

section

variable {parts more : List (Option Flow)} {i j c m n : Nat}

theorem Extensible.of_append (h : Extensible (parts ++ more)) : Extensible parts := by
  obtain ⟨more', shapes, has⟩ := h
  exact ⟨more ++ more', shapes, by rwa [← List.append_assoc]⟩

theorem Extensible.of_shapes {shapes : List Shape} (h : shapesOfFlows parts = .ok shapes) :
    Extensible parts :=
  ⟨[], shapes, by rwa [List.append_nil]⟩

theorem Extensible.take (h : Extensible parts) (n : Nat) : Extensible (parts.take n) :=
  of_append (by rwa [List.take_append_drop n])

theorem Extensible.take_le (h : Extensible (parts.take n)) (le : m ≤ n) :
    Extensible (parts.take m) := by
  have shorter := h.take m
  rwa [List.take_take, Nat.min_eq_left le] at shorter

/-- Only one block is the first. -/
theorem FailsAt.unique (h : FailsAt parts m) (h' : FailsAt parts n) : m = n := by
  rcases Nat.lt_trichotomy m n with lt | same | gt
  · exact absurd (h'.1.take_le lt) h.2
  · exact same
  · exact absurd (h.1.take_le gt) h'.2

theorem FailsAt.not_extensible (h : FailsAt parts n) : ¬ Extensible parts :=
  fun all => h.2 (all.take _)

theorem Innermost.unique (h : Innermost parts i) (h' : Innermost parts j) : i = j :=
  Nat.le_antisymm (h'.2 i h.1) (h.2 j h'.1)

theorem Outermost.unique (h : Outermost parts i) (h' : Outermost parts j) : i = j :=
  Nat.le_antisymm (h.2 j h'.1) (h'.2 i h.1)

/-- **At most one error holds of blocks,** and none if they have shapes. -/
theorem StructureError.Holds.unique {e e' : StructureError} (h : e.Holds parts)
    (h' : e'.Holds parts) : e = e' := by
  cases e with
  | unmatchedEnd m =>
    obtain ⟨fails, isEnd, -⟩ := h
    cases e' with
    | unmatchedEnd n => rw [fails.unique h'.1]
    | strayElse n =>
      obtain ⟨fails', isElse, -⟩ := h'
      rw [fails.unique fails', isElse] at isEnd
      cases isEnd
    | duplicateElse i n =>
      obtain ⟨fails', isElse, -⟩ := h'
      rw [fails.unique fails', isElse] at isEnd
      cases isEnd
    | unterminated i => exact absurd h'.1 fails.not_extensible
  | strayElse m =>
    obtain ⟨fails, isElse, stray⟩ := h
    cases e' with
    | unmatchedEnd n =>
      obtain ⟨fails', isEnd, -⟩ := h'
      rw [fails.unique fails', isEnd] at isElse
      cases isElse
    | strayElse n => rw [fails.unique h'.1]
    | duplicateElse i n =>
      obtain ⟨fails', -, innermost, isIf, -⟩ := h'
      rw [fails.unique fails'] at stray
      exact absurd isIf (stray i innermost)
    | unterminated i => exact absurd h'.1 fails.not_extensible
  | duplicateElse i m =>
    obtain ⟨fails, isElse, innermost, isIf, -⟩ := h
    cases e' with
    | unmatchedEnd n =>
      obtain ⟨fails', isEnd, -⟩ := h'
      rw [fails.unique fails', isEnd] at isElse
      cases isElse
    | strayElse n =>
      obtain ⟨fails', -, stray⟩ := h'
      rw [← fails.unique fails'] at stray
      exact absurd isIf (stray i innermost)
    | duplicateElse j n =>
      obtain ⟨fails', -, innermost', -, -⟩ := h'
      obtain rfl := fails.unique fails'
      rw [innermost.unique innermost']
    | unterminated i => exact absurd h'.1 fails.not_extensible
  | unterminated i =>
    obtain ⟨extensible, -, outermost⟩ := h
    cases e' with
    | unmatchedEnd n => exact absurd extensible h'.1.not_extensible
    | strayElse n => exact absurd extensible h'.1.not_extensible
    | duplicateElse j n => exact absurd extensible h'.1.not_extensible
    | unterminated j => rw [outermost.unique h'.2.2]

theorem StructureError.Holds.failsAt {e : StructureError} (h : e.Holds parts)
    (early : ∀ i, e ≠ .unterminated i) : FailsAt parts e.index := by
  cases e with
  | unmatchedEnd n => exact h.1
  | strayElse n => exact h.1
  | duplicateElse i n => exact h.1
  | unterminated i => exact absurd rfl (early i)

/-- The block at fault is one of the blocks. -/
theorem StructureError.Holds.index_lt {e : StructureError} (h : e.Holds parts) :
    e.index < parts.length := by
  have inside {n : Nat} {part : Option Flow} (here : parts[n]? = some part) : n < parts.length :=
    (List.getElem?_eq_some_iff.mp here).1
  cases e with
  | unmatchedEnd n => exact inside h.2.1
  | strayElse n => exact inside h.2.1
  | duplicateElse i n => exact inside h.2.1
  | unterminated i =>
    obtain ⟨-, -, ⟨⟨flow, here, -⟩, -⟩, -⟩ := h
    exact inside here

theorem StructureError.Holds.not_ok {e : StructureError} {shapes : List Shape}
    (h : e.Holds parts) : shapesOfFlows parts ≠ .ok shapes := by
  intro has
  cases e with
  | unmatchedEnd n => exact h.1.not_extensible (.of_shapes has)
  | strayElse n => exact h.1.not_extensible (.of_shapes has)
  | duplicateElse i n => exact h.1.not_extensible (.of_shapes has)
  | unterminated i => exact h.2.1 ⟨shapes, has⟩

end

/-! ## Ends that belong to openers -/

section

variable {parts before after : List (Option Flow)} {i c : Nat}

theorem Matches.wrap (h : Matches parts i c) (before after : List (Option Flow)) :
    Matches (before ++ (parts ++ after)) (before.length + i) (before.length + c) := by
  obtain ⟨before', flow, inside, after', opens, interior, rfl, rfl, rfl⟩ := h
  refine ⟨before ++ before', flow, inside, after' ++ after, opens, interior, ?_,
    List.length_append, by omega⟩
  simp only [List.append_assoc, List.cons_append]

theorem Matches.prepend (h : Matches parts i c) (before : List (Option Flow)) :
    Matches (before ++ parts) (before.length + i) (before.length + c) := by
  have wrapped := h.wrap before []
  rwa [List.append_nil] at wrapped

theorem Matches.append (h : Matches parts i c) (after : List (Option Flow)) :
    Matches (parts ++ after) i c := by
  have wrapped := h.wrap [] after
  rwa [List.length_nil, Nat.zero_add, Nat.zero_add] at wrapped

/-- Every opener has its end. -/
def AllMatched (parts : List (Option Flow)) : Prop := ∀ i, ¬ OpenAt parts i

/-- An opener that is open is so among the first blocks, or among those behind them. -/
theorem OpenAt.of_append (h : OpenAt (before ++ after) i) :
    OpenAt before i ∨ ∃ j, i = before.length + j ∧ OpenAt after j := by
  obtain ⟨⟨flow, stands, opens⟩, unmatched⟩ := h
  rcases Nat.lt_or_ge i before.length with lt | ge
  · rw [List.getElem?_append_left lt] at stands
    exact .inl ⟨⟨flow, stands, opens⟩, fun c has => unmatched c (has.append after)⟩
  · obtain ⟨j, rfl⟩ := Nat.exists_eq_add_of_le ge
    rw [List.getElem?_append_right ge, Nat.add_sub_cancel_left] at stands
    exact .inr ⟨j, rfl, ⟨flow, stands, opens⟩, fun c has => unmatched _ (has.prepend before)⟩

theorem AllMatched.append (h : AllMatched before) (h' : AllMatched after) :
    AllMatched (before ++ after) := by
  intro i isOpen
  rcases isOpen.of_append with first | ⟨j, -, second⟩
  · exact h i first
  · exact h' j second

theorem AllMatched.nil : AllMatched [] := by
  rintro i ⟨⟨flow, stands, -⟩, -⟩
  cases stands

theorem AllMatched.single {part : Option Flow}
    (closed : ∀ flow, part = some flow → flow.opensBody = false) : AllMatched [part] := by
  rintro (_ | i) ⟨⟨flow, stands, opens⟩, -⟩
  · rw [closed flow (Option.some.inj stands)] at opens
    cases opens
  · cases stands

/-- A first opener may be the only one that has no end. -/
theorem OpenAt.of_cons {part : Option Flow} (h : OpenAt (part :: after) i)
    (matched : AllMatched after) : i = 0 := by
  cases i with
  | zero => rfl
  | succ i =>
    rw [← List.singleton_append] at h
    rcases h.of_append with ⟨⟨flow, stands, -⟩, -⟩ | ⟨j, -, isOpen⟩
    · cases stands
    · exact absurd isOpen (matched j)

/-- A body whose inside needs no more ends needs none. -/
theorem AllMatched.body {flow : Flow} {inside : List (Option Flow)} (matched : AllMatched inside)
    (opens : flow.opensBody) (interior : Interior flow inside) :
    AllMatched (some flow :: (inside ++ [some .endBody])) := by
  intro i isOpen
  have closed : AllMatched (inside ++ [some .endBody]) :=
    matched.append (.single (by rintro _ ⟨⟩; rfl))
  obtain rfl := isOpen.of_cons closed
  exact isOpen.2 _ ⟨[], flow, inside, [], opens, interior, rfl, rfl, rfl⟩

end

namespace Derivation

theorem opensBody_of_plain {part : Option Flow} (is : BlockClass.ofPart part = .plain)
    (flow : Flow) (same : part = some flow) : flow.opensBody = false := by
  subst same
  cases flow <;> first | rfl | cases is

/-- **In a derived row every opener has its end.** -/
theorem allMatched (d : Derivation) : AllMatched d.parts := by
  have body {flow : Flow} {inside : List (Option Flow)} {rest : Derivation}
      (ihRest : AllMatched rest.parts) (ihInside : AllMatched inside) (opens : flow.opensBody)
      (interior : Interior flow inside) :
      AllMatched (some flow :: (inside ++ some .endBody :: rest.parts)) := by
    have whole := (ihInside.body opens interior).append ihRest
    rwa [List.cons_append, List.append_assoc] at whole
  induction d with
  | empty => exact .nil
  | plain part is rest ih => exact (AllMatched.single (opensBody_of_plain is)).append ih
  | loop flow is inner rest ihInner ihRest =>
    exact body ihRest ihInner (Flow.opensBody_of_class is) (.whole inner)
  | ifThen inner rest ihInner ihRest => exact body ihRest ihInner rfl (.whole inner)
  | ifElse first second rest ihFirst ihSecond ihRest =>
    have middle : AllMatched [some .otherwise] := .single (by rintro _ ⟨⟩; rfl)
    have whole := body ihRest (ihFirst.append (middle.append ihSecond)) rfl
      (.split rfl first second)
    rwa [List.append_assoc] at whole

/-- A row and another one behind it. -/
def append : Derivation → Derivation → Derivation
  | empty, d => d
  | plain part is rest, d => plain part is (rest.append d)
  | loop flow is inner rest, d => loop flow is inner (rest.append d)
  | ifThen inner rest, d => ifThen inner (rest.append d)
  | ifElse first second rest, d => ifElse first second (rest.append d)

theorem parts_append (d d' : Derivation) : (d.append d').parts = d.parts ++ d'.parts := by
  induction d with
  | empty => rfl
  | plain part is rest ih => rw [append, parts, ih, parts, List.cons_append]
  | loop flow is inner rest _ ih =>
    rw [append, parts, ih, parts, List.cons_append, List.append_assoc, List.cons_append]
  | ifThen inner rest _ ih =>
    rw [append, parts, ih, parts, List.cons_append, List.append_assoc, List.cons_append]
  | ifElse first second rest _ _ ih =>
    rw [append, parts, ih, parts]
    simp only [List.cons_append, List.append_assoc]

end Derivation

namespace Interior

variable {flow : Flow} {inside inside' after after' : List (Option Flow)}

/-- An opener has one end at most. -/
theorem eq_of_append (h : Interior flow inside) (h' : Interior flow inside')
    (same : inside ++ some .endBody :: after = inside' ++ some .endBody :: after') :
    inside = inside' := by
  cases h with
  | whole d =>
    cases h' with
    | whole d' =>
      rw [(Derivation.eq_of_append same (Derivation.stops_end _) (Derivation.stops_end _)).1]
    | split isIf first second =>
      rw [List.append_assoc] at same
      obtain ⟨-, tails⟩ :=
        Derivation.eq_of_append same (Derivation.stops_end _) (Derivation.stops_otherwise _)
      cases tails
  | split isIf first second =>
    rw [List.append_assoc] at same
    cases h' with
    | whole d' =>
      obtain ⟨-, tails⟩ :=
        Derivation.eq_of_append same (Derivation.stops_otherwise _) (Derivation.stops_end _)
      cases tails
    | split isIf first' second' =>
      rw [List.append_assoc] at same
      obtain ⟨rfl, tails⟩ :=
        Derivation.eq_of_append same (Derivation.stops_otherwise _) (Derivation.stops_otherwise _)
      obtain ⟨rfl, -⟩ := Derivation.eq_of_append (List.cons.inj tails).2 (Derivation.stops_end _)
        (Derivation.stops_end _)
      rfl

/-- A body is a row. -/
theorem exists_derivation (h : Interior flow inside) (opens : flow.opensBody) :
    ∃ d : Derivation, d.parts = some flow :: (inside ++ [some .endBody]) := by
  cases h with
  | whole d =>
    rcases Flow.class_of_opensBody opens with isLoop | rfl
    · exact ⟨.loop flow isLoop d .empty, rfl⟩
    · exact ⟨.ifThen d .empty, rfl⟩
  | split isIf first second =>
    subst isIf
    refine ⟨.ifElse first second .empty, ?_⟩
    rw [List.append_assoc]
    rfl

end Interior

/-! ## Bodies that have begun -/

/-- The blocks leave bodies open, innermost first: in front of each opener is a row, and behind the
opener is a row or, if an else has been met, two. -/
inductive LeavesOpen : List (Option Flow) → List OpenBody → Prop where
  | row (d : Derivation) : LeavesOpen d.parts []
  | whole {u : List (Option Flow)} {stack : List OpenBody} {flow : Flow}
      (outer : LeavesOpen u stack) (opens : flow.opensBody) (d : Derivation) :
      LeavesOpen (u ++ some flow :: d.parts) (⟨u.length, flow, none⟩ :: stack)
  | split {u : List (Option Flow)} {stack : List OpenBody} (outer : LeavesOpen u stack)
      (first second : Derivation) :
      LeavesOpen (u ++ some .ifThen :: (first.parts ++ some .otherwise :: second.parts))
        (⟨u.length, .ifThen, some (u.length + 1 + first.length)⟩ :: stack)

namespace LeavesOpen

variable {u : List (Option Flow)} {stack after : List OpenBody} {part : Option Flow}
  {closed : Option Body} {b : OpenBody} {i : Nat}

/-- The pass over the blocks leaves the same bodies open. -/
theorem passes (h : LeavesOpen u stack) : Body.Passes 0 [] u stack := by
  have opener {u : List (Option Flow)} {stack : List OpenBody} {flow : Flow}
      (opens : flow.opensBody) :
      Body.Passes (0 + u.length) stack [some flow] (⟨u.length, flow, none⟩ :: stack) := by
    rw [Nat.zero_add]
    exact Body.passes_of_meet (Body.meet_opener opens)
  induction h with
  | row d => exact Body.passes_derivation d 0 []
  | whole outer opens d ih =>
    exact ih.append ((opener opens).append (Body.passes_derivation d _ _))
  | @split u stack outer first second ih =>
    have middle : Body.Passes (0 + u.length + 1 + first.length) (⟨u.length, .ifThen, none⟩ :: stack)
        [some .otherwise]
        (⟨u.length, .ifThen, some (u.length + 1 + first.length)⟩ :: stack) := by
      rw [Nat.zero_add]
      exact Body.passes_of_meet rfl
    exact ih.append ((opener rfl).append
      ((Body.passes_derivation first _ _).append
        (middle.append (Body.passes_derivation second _ _))))

/-- A row may follow. -/
theorem append (h : LeavesOpen u stack) (d : Derivation) : LeavesOpen (u ++ d.parts) stack := by
  cases h with
  | row d' =>
    rw [← Derivation.parts_append]
    exact .row _
  | whole outer opens d' =>
    rw [List.append_assoc, List.cons_append, ← Derivation.parts_append]
    exact .whole outer opens _
  | split outer first second =>
    rw [List.append_assoc, List.cons_append, List.append_assoc, List.cons_append,
      ← Derivation.parts_append]
    exact .split outer first _

/-- The innermost body and what is around it. -/
theorem innermost (h : LeavesOpen u (b :: stack)) :
    ∃ (outer inside : List (Option Flow)), LeavesOpen outer stack ∧ b.flow.opensBody ∧
      Interior b.flow inside ∧ u = outer ++ some b.flow :: inside ∧ outer.length = b.opener := by
  cases h with
  | @whole outer _ flow before opens d => exact ⟨outer, d.parts, before, opens, .whole d, rfl, rfl⟩
  | @split outer _ before first second =>
    exact ⟨outer, _, before, rfl, .split rfl first second, rfl, rfl⟩

/-- The innermost body is ended. -/
theorem close (h : LeavesOpen u (b :: stack)) : LeavesOpen (u ++ [some .endBody]) stack := by
  obtain ⟨outer, inside, before, opens, interior, rfl, -⟩ := h.innermost
  obtain ⟨d, row⟩ := interior.exists_derivation opens
  rw [List.append_assoc, List.cons_append, ← row]
  exact before.append d

/-- **One more block that is admitted** opens a body, goes on with one, or ends one. -/
theorem meet (h : LeavesOpen u stack) (met : Body.Meets u.length part stack after closed) :
    LeavesOpen (u ++ [part]) after := by
  cases met with
  | plain plain => exact h.append (.plain part (BlockClass.ofPart_eq_plain_iff.mpr plain) .empty)
  | opener opens => exact .whole h opens .empty
  | otherwise =>
    cases h with
    | @whole outer _ flow before opens d =>
      have split := before.split d .empty
      rw [List.append_assoc, List.length_append, List.length_cons]
      rwa [show outer.length + (d.parts.length + 1) = outer.length + 1 + d.length by
        rw [Derivation.length]; omega]
  | close => exact h.close

/-- One end for each open body makes a row. -/
theorem complete (h : LeavesOpen u stack) :
    ∃ d : Derivation, d.parts = u ++ List.replicate stack.length (some .endBody) := by
  induction stack generalizing u with
  | nil =>
    cases h with
    | row d => exact ⟨d, (List.append_nil _).symm⟩
  | cons b outer ih =>
    obtain ⟨d, row⟩ := ih h.close
    refine ⟨d, ?_⟩
    rw [row, List.append_assoc, List.length_cons, List.replicate_succ, List.singleton_append]

/-- **Blocks can be read to their end,** or up to one that the open bodies do not admit. -/
theorem exists_of_parts (parts : List (Option Flow)) :
    (∃ stack, LeavesOpen parts stack) ∨
      ∃ (u : List (Option Flow)) (part : Option Flow) (rest : List (Option Flow))
        (stack : List OpenBody) (e : StructureError), parts = u ++ part :: rest ∧
        LeavesOpen u stack ∧ Body.meet u.length part stack = .error e := by
  have ahead (rest u : List (Option Flow)) (stack : List OpenBody) (h : LeavesOpen u stack) :
      (∃ stack, LeavesOpen (u ++ rest) stack) ∨
        ∃ (u' : List (Option Flow)) (part : Option Flow) (rest' : List (Option Flow))
          (stack : List OpenBody) (e : StructureError), u ++ rest = u' ++ part :: rest' ∧
          LeavesOpen u' stack ∧ Body.meet u'.length part stack = .error e := by
    induction rest generalizing u stack with
    | nil => exact .inl ⟨stack, by rwa [List.append_nil]⟩
    | cons part rest ih =>
      cases met : Body.meet u.length part stack with
      | error e => exact .inr ⟨u, part, rest, stack, e, rfl, h, met⟩
      | ok r =>
        rw [List.append_cons]
        exact ih _ _ (h.meet (Body.meets_of_meet met))
  exact ahead parts [] [] (.row .empty)

/-- The openers of the open bodies stand where they say. -/
theorem stands (h : LeavesOpen u stack) (among : b ∈ stack) :
    u[b.opener]? = some (some b.flow) ∧ b.flow.opensBody := by
  induction stack generalizing u with
  | nil => cases among
  | cons b' outer ih =>
    obtain ⟨before, inside, opened, opens, -, rfl, place⟩ := h.innermost
    rcases List.mem_cons.mp among with rfl | among
    · rw [← place, List.getElem?_append_right (Nat.le_refl _), Nat.sub_self]
      exact ⟨rfl, opens⟩
    · obtain ⟨stands, opens'⟩ := ih opened among
      have lt := (List.getElem?_eq_some_iff.mp stands).1
      exact ⟨by rwa [List.getElem?_append_left lt], opens'⟩

/-- The innermost body begins last. -/
theorem later (h : LeavesOpen u (b :: stack)) {b' : OpenBody} (among : b' ∈ stack) :
    b'.opener < b.opener := by
  obtain ⟨before, inside, opened, -, -, -, place⟩ := h.innermost
  rw [← place]
  exact (List.getElem?_eq_some_iff.mp (opened.stands among).1).1

/-- The end of a body that is open lies behind the blocks. -/
theorem unmatched (h : LeavesOpen u stack) (among : b ∈ stack) (c : Nat) :
    ¬ Matches u b.opener c := by
  -- when the inner bodies are ended, the body is known up to its own end, which is not there yet
  induction stack generalizing u with
  | nil => cases among
  | cons b' outer ih =>
    intro matched
    rcases List.mem_cons.mp among with rfl | among
    · obtain ⟨before, inside, -, -, interior, rfl, place⟩ := h.innermost
      obtain ⟨before', flow, inside', after', -, interior', same, place', -⟩ := matched
      obtain ⟨rfl, tails⟩ := List.append_inj same (place.trans place'.symm)
      obtain ⟨flows, insides⟩ := List.cons.inj tails
      obtain rfl := Option.some.inj flows
      have same : inside ++ some .endBody :: [] =
          inside' ++ some .endBody :: (after' ++ [some .endBody]) := by
        rw [insides, List.append_assoc, List.cons_append]
      obtain rfl := interior.eq_of_append interior' same
      have sizes := congrArg List.length insides
      rw [List.length_append, List.length_cons] at sizes
      omega
    · exact ih h.close among (matched.append _)

/-- **The open bodies are those of the openers that have no end.** -/
theorem openAt_iff (h : LeavesOpen u stack) : OpenAt u i ↔ ∃ b ∈ stack, b.opener = i := by
  constructor
  · intro isOpen
    induction h with
    | row d => exact absurd isOpen (d.allMatched i)
    | whole outer opens d ih =>
      rcases isOpen.of_append with before | ⟨j, rfl, here⟩
      · obtain ⟨b, among, rfl⟩ := ih before
        exact ⟨b, List.mem_cons_of_mem _ among, rfl⟩
      · obtain rfl := here.of_cons d.allMatched
        exact ⟨_, List.mem_cons_self, rfl⟩
    | split outer first second ih =>
      rcases isOpen.of_append with before | ⟨j, rfl, here⟩
      · obtain ⟨b, among, rfl⟩ := ih before
        exact ⟨b, List.mem_cons_of_mem _ among, rfl⟩
      · have middle : AllMatched [some .otherwise] := .single (by rintro _ ⟨⟩; rfl)
        obtain rfl := here.of_cons (first.allMatched.append (middle.append second.allMatched))
        exact ⟨_, List.mem_cons_self, rfl⟩
  · rintro ⟨b, among, rfl⟩
    exact ⟨⟨b.flow, h.stands among⟩, h.unmatched among⟩

theorem innermost_iff (h : LeavesOpen u stack) :
    Innermost u i ↔ ∃ b outer, stack = b :: outer ∧ b.opener = i := by
  constructor
  · rintro ⟨isOpen, last⟩
    obtain ⟨b, among, rfl⟩ := h.openAt_iff.mp isOpen
    cases stack with
    | nil => cases among
    | cons b' outer =>
      refine ⟨b', outer, rfl, ?_⟩
      rcases List.mem_cons.mp among with rfl | among
      · rfl
      · have := last b'.opener (h.openAt_iff.mpr ⟨b', List.mem_cons_self, rfl⟩)
        have := h.later among
        omega
  · rintro ⟨b, outer, rfl, rfl⟩
    refine ⟨h.openAt_iff.mpr ⟨b, List.mem_cons_self, rfl⟩, fun j isOpen => ?_⟩
    obtain ⟨b', among, rfl⟩ := h.openAt_iff.mp isOpen
    rcases List.mem_cons.mp among with rfl | among
    · exact Nat.le_refl _
    · exact Nat.le_of_lt (h.later among)

theorem pairwise (h : LeavesOpen u stack) :
    stack.Pairwise fun b b' => b'.opener < b.opener := by
  induction stack generalizing u with
  | nil => exact .nil
  | cons b outer ih =>
    obtain ⟨before, inside, opened, -⟩ := h.innermost
    exact .cons (fun b' among => h.later among) (ih opened)

/-- The last of the open bodies is the outermost. -/
theorem outermost (h : LeavesOpen u stack) (last : stack.getLast? = some b) :
    Outermost u b.opener := by
  obtain ⟨inner, rfl⟩ := List.getLast?_eq_some_iff.mp last
  refine ⟨h.openAt_iff.mpr ⟨b, by simp, rfl⟩, fun j isOpen => ?_⟩
  obtain ⟨b', among, rfl⟩ := h.openAt_iff.mp isOpen
  rcases List.mem_append.mp among with among | among
  · exact Nat.le_of_lt ((List.pairwise_append.mp h.pairwise).2.2 b' among b (by simp))
  · exact Nat.le_of_eq (by rw [List.mem_singleton.mp among])

/-- An else that is met splits the innermost body when it stands directly inside it. -/
theorem splitAt (h : LeavesOpen u (b :: stack)) (split : b.otherwise.isSome) :
    SplitAt u b.opener := by
  cases h with
  | whole outer opens d => cases split
  | @split u _ outer first second => exact ⟨u, first, second.parts, rfl, rfl⟩

/-- The pass stops at a block that the open bodies do not admit. -/
theorem error_of_meet {rest : List (Option Flow)} {e : StructureError} (h : LeavesOpen u stack)
    (met : Body.meet u.length part stack = .error e) :
    shapesOfFlows (u ++ part :: rest) = .error e := by
  obtain ⟨bodies, passed⟩ := h.passes
  unfold shapesOfFlows
  rw [passed, Nat.zero_add, Body.scan, met]
  rfl

/-- The pass ends with the outermost body, if one is open. -/
theorem error_of_open (h : LeavesOpen u stack) (last : stack.getLast? = some b) :
    shapesOfFlows u = .error (.unterminated b.opener) := by
  obtain ⟨bodies, passed⟩ := h.passes
  have all := passed []
  rw [List.append_nil, Body.scan, last] at all
  unfold shapesOfFlows
  rw [all]
  rfl

end LeavesOpen

/-- **Blocks can be completed when they leave bodies open as rows inside rows.** -/
theorem extensible_iff {u : List (Option Flow)} : Extensible u ↔ ∃ stack, LeavesOpen u stack := by
  constructor
  · rintro ⟨more, shapes, has⟩
    rcases LeavesOpen.exists_of_parts u with found | ⟨u', part, rest, stack, e, rfl, h, met⟩
    · exact found
    · rw [List.append_assoc, List.cons_append, h.error_of_meet met] at has
      cases has
  · rintro ⟨stack, h⟩
    obtain ⟨d, row⟩ := h.complete
    exact ⟨_, d.shapes 0, shapesOfFlows_eq_ok_iff.mpr ⟨d, row, rfl⟩⟩

/-! ## Errors -/

/-- A block that the open bodies do not admit is the first that cannot be part of blocks that have
shapes. -/
theorem LeavesOpen.failsAt {u rest : List (Option Flow)} {part : Option Flow}
    {stack : List OpenBody} {e : StructureError} (h : LeavesOpen u stack)
    (met : Body.meet u.length part stack = .error e) : FailsAt (u ++ part :: rest) u.length := by
  refine ⟨extensible_iff.mpr ⟨stack, by rwa [List.take_left]⟩, ?_⟩
  rw [List.take_length_add_append]
  rintro ⟨more, shapes, has⟩
  rw [List.take_succ_cons, List.take_zero, List.append_assoc, List.singleton_append,
    h.error_of_meet met] at has
  cases has

/-- **What the pass says of a block that is not admitted holds.** -/
theorem LeavesOpen.holds {u rest : List (Option Flow)} {part : Option Flow}
    {stack : List OpenBody} {e : StructureError} (h : LeavesOpen u stack)
    (met : Body.meet u.length part stack = .error e) : e.Holds (u ++ part :: rest) := by
  have fails : FailsAt (u ++ part :: rest) u.length := h.failsAt met
  have here : (u ++ part :: rest)[u.length]? = some part := by
    rw [List.getElem?_append_right (Nat.le_refl _), Nat.sub_self]
    rfl
  have earlier {b : OpenBody} (among : b ∈ stack) :
      (u ++ part :: rest)[b.opener]? = some (some b.flow) := by
    have stands := (h.stands among).1
    rwa [List.getElem?_append_left (List.getElem?_eq_some_iff.mp stands).1]
  have before : (u ++ part :: rest).take u.length = u := List.take_left
  unfold Body.meet at met
  split at met
  · split at met
    · cases met
    · next opener split outer =>
      cases met
      refine ⟨fails, here, ?_, earlier List.mem_cons_self, ?_⟩
      · rw [before]
        exact h.innermost_iff.mpr ⟨_, _, rfl, rfl⟩
      · rw [before]
        exact h.splitAt rfl
    · next unsplit split =>
      cases met
      refine ⟨fails, here, fun i innermost isIf => ?_⟩
      rw [before] at innermost
      obtain ⟨⟨opener, flow, otherwise⟩, outer, rfl, rfl⟩ := h.innermost_iff.mp innermost
      rw [earlier List.mem_cons_self] at isIf
      cases isIf
      cases otherwise with
      | none => exact unsplit _ _ rfl
      | some s => exact split _ _ _ rfl
  · split at met
    · cases met
    · cases met
      refine ⟨fails, here, fun i isOpen => ?_⟩
      rw [before] at isOpen
      obtain ⟨b, among, -⟩ := h.openAt_iff.mp isOpen
      cases among
  · cases met
  · cases met

/-- **An error is reported when it holds.** -/
theorem shapesOfFlows_eq_error_iff {parts : List (Option Flow)} {e : StructureError} :
    shapesOfFlows parts = .error e ↔ e.Holds parts := by
  have holds {e : StructureError} (h : shapesOfFlows parts = .error e) : e.Holds parts := by
    rcases LeavesOpen.exists_of_parts parts with
      ⟨stack, opened⟩ | ⟨u, part, rest, stack, e', rfl, opened, met⟩
    · cases last : stack.getLast? with
      | none =>
        obtain rfl := List.getLast?_eq_none_iff.mp last
        obtain ⟨d, row⟩ := opened.complete
        rw [List.length_nil, List.replicate_zero, List.append_nil] at row
        rw [shapesOfFlows_eq_ok_iff.mpr ⟨d, row, rfl⟩] at h
        cases h
      | some b =>
        have fails := opened.error_of_open last
        rw [h] at fails
        cases fails
        refine ⟨extensible_iff.mpr ⟨stack, opened⟩, ?_, opened.outermost last⟩
        rintro ⟨shapes, has⟩
        rw [h] at has
        cases has
    · rw [opened.error_of_meet met] at h
      cases h
      exact opened.holds met
  refine ⟨holds, fun h => ?_⟩
  cases result : shapesOfFlows parts with
  | ok shapes => exact absurd result h.not_ok
  | error e' => rw [h.unique (holds result)]

example : shapesOfFlows [some .ifThen, some .otherwise, some .forever, some .endBody,
    some .otherwise, some .endBody, some .endBody] = .error (.duplicateElse 0 4) := rfl

/-- **A first block that cannot be part of blocks that have shapes is reported.** -/
theorem error_iff_failsAt {parts : List (Option Flow)} {n : Nat} :
    (∃ e, shapesOfFlows parts = .error e ∧ e.index = n ∧ ∀ i, e ≠ .unterminated i) ↔
      FailsAt parts n := by
  constructor
  · rintro ⟨e, h, rfl, early⟩
    exact (shapesOfFlows_eq_error_iff.mp h).failsAt early
  · intro fails
    cases result : shapesOfFlows parts with
    | ok shapes => exact absurd (.of_shapes result) fails.not_extensible
    | error e =>
      have holds := shapesOfFlows_eq_error_iff.mp result
      have early (i : Nat) : e ≠ .unterminated i := by
        rintro rfl
        exact fails.not_extensible holds.1
      exact ⟨e, rfl, (holds.failsAt early).unique fails, early⟩

/-! ## Chains -/

namespace Chain

/-- Where an end is defined, blocks that can be completed are completed by blocks. -/
theorem extensible_take_iff {c : Chain} {r : Registry} {id : String}
    (defined : r.flow? id = some .endBody) (n : Nat) :
    Extensible ((c.parts r).take n) ↔ ∃ (more : List Block) (shapes : List Shape),
      ({ c with blocks := c.blocks.take n ++ more } : Chain).shapes r = .ok shapes := by
  have parts_eq (more : List Block) :
      ({ c with blocks := c.blocks.take n ++ more } : Chain).parts r =
        (c.parts r).take n ++ more.map fun b => r.flow? b.definition := by
    rw [parts, parts, List.map_append, List.map_take]
  constructor
  · intro extensible
    obtain ⟨stack, h⟩ := extensible_iff.mp extensible
    obtain ⟨d, row⟩ := h.complete
    refine ⟨List.replicate stack.length ⟨id, []⟩, d.shapes 0,
      shapesOfFlows_eq_ok_iff.mpr ⟨d, ?_, rfl⟩⟩
    show d.parts = parts _ r
    rw [row, parts_eq, List.map_replicate, defined]
  · rintro ⟨more, shapes, has⟩
    refine ⟨more.map fun b => r.flow? b.definition, shapes, ?_⟩
    rw [← parts_eq]
    exact has

/-- **An error of the structure is reported when it holds, and it is the earliest.**
Of an end or an else, the error says that it is the first block that cannot be part of a chain that
has shapes; that a body has no end is only said when the chain can be completed. The blocks that
complete others may play any parts; where the registry defines an end, there are such blocks, and
where it does not, a chain that leaves bodies open is completed by none of its blocks. -/
theorem shapes_error_iff (c : Chain) (r : Registry) :
    (∀ e, c.shapes r = .error e ↔ e.Holds (c.parts r)) ∧
      (∀ n, (∃ e, c.shapes r = .error e ∧ e.index = n ∧ ∀ i, e ≠ .unterminated i) ↔
        FailsAt (c.parts r) n) ∧
      (∀ e, c.shapes r = .error e → e.index < c.blocks.length) ∧
      ∀ id, r.flow? id = some .endBody → ∀ n, Extensible ((c.parts r).take n) ↔
        ∃ (more : List Block) (shapes : List Shape),
          ({ c with blocks := c.blocks.take n ++ more } : Chain).shapes r = .ok shapes := by
  refine ⟨fun e => shapesOfFlows_eq_error_iff, fun n => error_iff_failsAt, fun e h => ?_,
    fun id defined n => extensible_take_iff defined n⟩
  have lt := (shapesOfFlows_eq_error_iff.mp h).index_lt
  rwa [List.length_map] at lt

/-- A chain with an if that has two blocks for its second body. -/
def hesitating : Chain := ⟨0, origin, [⟨"if", []⟩, ⟨"else", []⟩, ⟨"else", []⟩, ⟨"end", []⟩]⟩

set_option maxRecDepth 20000 in
/-- The second else is reported, and what stands before it can be completed. -/
theorem shapes_error_iff_hesitating :
    hesitating.shapes (.ofList Builtins.directing) = .error (.duplicateElse 0 2) ∧
      (StructureError.duplicateElse 0 2).Holds (hesitating.parts (.ofList Builtins.directing)) ∧
      FailsAt (hesitating.parts (.ofList Builtins.directing)) 2 ∧ 2 < hesitating.blocks.length ∧
      ∃ (more : List Block) (shapes : List Shape),
        ({ hesitating with blocks := hesitating.blocks.take 2 ++ more } : Chain).shapes
          (.ofList Builtins.directing) = .ok shapes := by
  obtain ⟨exactly, early, within, completed⟩ :=
    shapes_error_iff hesitating (.ofList Builtins.directing)
  have error : hesitating.shapes (.ofList Builtins.directing) = .error (.duplicateElse 0 2) :=
    rfl
  have ends : Registry.flow? (.ofList Builtins.directing) "end" = some .endBody := rfl
  have fails := (early 2).mp ⟨_, error, rfl, fun _ => nofun⟩
  exact ⟨error, (exactly _).mp error, fails, within _ error, (completed "end" ends 2).mp fails.1⟩

end Chain

end Blockwork
