import Blockwork.Proofs.Bodies

/-!
# The grammar of bodies

Which rows of blocks have shapes is told by a grammar, and what the shapes are by the derivation of
a row. A row is

* empty,
* a plain block and a row,
* a loop, a row, an end and a row,
* an if, a row, an end and a row, or
* an if, a row, an else, a row, an end and a row.

## Main statements

* `Derivation.eq_of_parts`: a row has one derivation at most.
* `shapesOfFlows_eq_ok_iff`: the one pass over the blocks finds the shapes that the derivation
  gives.
* `Chain.shapes_derived`: what that means for a chain, and how its bodies lie.

The derivation of a row ends where the row does, and behind a row inside a body stands an else or an
end (`Stops`). This is why a derivation is determined even if more blocks follow.
-/

namespace Blockwork

/-! ## Classes -/

/-- What a block is to the grammar. -/
inductive BlockClass where
  | plain
  | loop
  | ifThen
  | otherwise
  | endBody
deriving DecidableEq, Repr

/-- The class of a block that plays the given part. A block that plays none, one that begins a chain
and a return are plain. -/
def BlockClass.ofPart : Option Flow → BlockClass
  | none | some .onStart | some .defineProcedure | some .giveBack => .plain
  | some .repeatTimes | some .repeatUntil | some .forever => .loop
  | some .ifThen => .ifThen
  | some .otherwise => .otherwise
  | some .endBody => .endBody

theorem BlockClass.ofPart_eq_plain_iff {part : Option Flow} :
    ofPart part = .plain ↔ part.all Flow.isPlain := by
  cases part with
  | none => simp [ofPart]
  | some flow => cases flow <;> decide

/-- What opens a body is a loop or an if. -/
theorem Flow.class_of_opensBody {flow : Flow} (opens : flow.opensBody) :
    BlockClass.ofPart (some flow) = .loop ∨ flow = .ifThen := by
  cases flow <;> simp_all [opensBody, BlockClass.ofPart]

theorem Flow.opensBody_of_class {flow : Flow} (is : BlockClass.ofPart (some flow) = .loop) :
    flow.opensBody := by
  cases flow <;> simp_all [opensBody, BlockClass.ofPart]

/-- The rows of the grammar. -/
inductive BlockClass.Row : List BlockClass → Prop where
  | empty : Row []
  | plain {rest : List BlockClass} (behind : Row rest) : Row (.plain :: rest)
  | loop {inner rest : List BlockClass} (body : Row inner) (behind : Row rest) :
      Row (.loop :: (inner ++ .endBody :: rest))
  | ifThen {inner rest : List BlockClass} (body : Row inner) (behind : Row rest) :
      Row (.ifThen :: (inner ++ .endBody :: rest))
  | ifElse {first second rest : List BlockClass} (body : Row first) (other : Row second)
      (behind : Row rest) :
      Row (.ifThen :: (first ++ .otherwise :: (second ++ .endBody :: rest)))

/-- An if, an else and an end are alone in their classes. -/
theorem BlockClass.eq_of_ofPart {part : Option Flow} (flow : Flow)
    (alone : flow = .ifThen ∨ flow = .otherwise ∨ flow = .endBody)
    (is : ofPart part = ofPart (some flow)) : part = some flow := by
  rcases alone with rfl | rfl | rfl
  all_goals
    cases part with
    | none => cases is
    | some flow => cases flow <;> first | rfl | cases is

theorem BlockClass.eq_loop {part : Option Flow} (is : ofPart part = .loop) :
    ∃ flow, part = some flow := by
  cases part with
  | none => cases is
  | some flow => exact ⟨flow, rfl⟩

/-! ## Derivations -/

/-- A derivation of a row of blocks, one constructor for each rule of the grammar. -/
inductive Derivation where
  | empty
  | plain (part : Option Flow) (is : BlockClass.ofPart part = .plain) (rest : Derivation)
  | loop (flow : Flow) (is : BlockClass.ofPart (some flow) = .loop) (inner rest : Derivation)
  | ifThen (inner rest : Derivation)
  | ifElse (first second rest : Derivation)

namespace Derivation

/-- The row that is derived: the parts that its blocks play. -/
def parts : Derivation → List (Option Flow)
  | empty => []
  | plain part _ rest => part :: rest.parts
  | loop flow _ inner rest => some flow :: (inner.parts ++ some .endBody :: rest.parts)
  | ifThen inner rest => some .ifThen :: (inner.parts ++ some .endBody :: rest.parts)
  | ifElse first second rest =>
    some .ifThen ::
      (first.parts ++ some .otherwise :: (second.parts ++ some .endBody :: rest.parts))

/-- How many blocks the row has. -/
def length (d : Derivation) : Nat := d.parts.length

section

variable {part : Option Flow} {flow : Flow} {inner first second rest : Derivation}

theorem length_plain {is : BlockClass.ofPart part = .plain} :
    (plain part is rest).length = 1 + rest.length := by
  simp only [length, parts, List.length_cons]
  omega

theorem length_loop {is : BlockClass.ofPart (some flow) = .loop} :
    (loop flow is inner rest).length = 1 + inner.length + 1 + rest.length := by
  simp only [length, parts, List.length_cons, List.length_append]
  omega

theorem length_ifThen : (ifThen inner rest).length = 1 + inner.length + 1 + rest.length := by
  simp only [length, parts, List.length_cons, List.length_append]
  omega

theorem length_ifElse :
    (ifElse first second rest).length =
      1 + first.length + 1 + second.length + 1 + rest.length := by
  simp only [length, parts, List.length_cons, List.length_append]
  omega

end

/-- The shapes that the derivation gives to the blocks of its row, the first of which stands at the
index. An opener knows its own else and its own end, and these know their opener. -/
def shapes : Derivation → Nat → List Shape
  | empty, _ => []
  | plain _ _ rest, index => .plain :: rest.shapes (index + 1)
  | loop flow _ inner rest, index =>
    let close := index + 1 + inner.length
    .opener flow none close ::
      (inner.shapes (index + 1) ++ .close index :: rest.shapes (close + 1))
  | ifThen inner rest, index =>
    let close := index + 1 + inner.length
    .opener .ifThen none close ::
      (inner.shapes (index + 1) ++ .close index :: rest.shapes (close + 1))
  | ifElse first second rest, index =>
    let middle := index + 1 + first.length
    let close := middle + 1 + second.length
    .opener .ifThen (some middle) close ::
      (first.shapes (index + 1) ++ .otherwise index close ::
        (second.shapes (middle + 1) ++ .close index :: rest.shapes (close + 1)))

/-- A row that is derived is one of the grammar. -/
theorem row (d : Derivation) : BlockClass.Row (d.parts.map BlockClass.ofPart) := by
  induction d with
  | empty => exact .empty
  | plain part is rest ih =>
    rw [parts, List.map_cons, is]
    exact .plain ih
  | loop flow is inner rest ihInner ihRest =>
    rw [parts, List.map_cons, List.map_append, List.map_cons, is]
    exact .loop ihInner ihRest
  | ifThen inner rest ihInner ihRest =>
    rw [parts, List.map_cons, List.map_append, List.map_cons]
    exact .ifThen ihInner ihRest
  | ifElse first second rest ihFirst ihSecond ihRest =>
    rw [parts, List.map_cons, List.map_append, List.map_cons, List.map_append, List.map_cons]
    exact .ifElse ihFirst ihSecond ihRest

/-- Where the classes have one of a kind between others, so has the row. -/
theorem exists_of_map_eq {parts : List (Option Flow)} {before after : List BlockClass}
    {is : BlockClass} (same : parts.map BlockClass.ofPart = before ++ is :: after) :
    ∃ inner part rest, parts = inner ++ part :: rest ∧ inner.map BlockClass.ofPart = before ∧
      BlockClass.ofPart part = is ∧ rest.map BlockClass.ofPart = after := by
  obtain ⟨inner, more, rfl, sameInner, sameMore⟩ := List.map_eq_append_iff.mp same
  obtain ⟨part, rest, rfl, samePart, sameRest⟩ := List.map_eq_cons_iff.mp sameMore
  exact ⟨inner, part, rest, rfl, sameInner, samePart, sameRest⟩

/-- A row whose classes are in the grammar is derived. -/
theorem exists_of_row {parts : List (Option Flow)} {classes : List BlockClass}
    (h : BlockClass.Row classes) (same : parts.map BlockClass.ofPart = classes) :
    ∃ d : Derivation, d.parts = parts := by
  induction h generalizing parts with
  | empty => exact ⟨.empty, (List.map_eq_nil_iff.mp same).symm⟩
  | plain behind ih =>
    obtain ⟨part, rest, rfl, is, sameRest⟩ := List.map_eq_cons_iff.mp same
    obtain ⟨d, rfl⟩ := ih sameRest
    exact ⟨.plain part is d, rfl⟩
  | loop body behind ihBody ihBehind =>
    obtain ⟨part, more, rfl, is, sameMore⟩ := List.map_eq_cons_iff.mp same
    obtain ⟨inner, last, rest, rfl, sameInner, isEnd, sameRest⟩ := exists_of_map_eq sameMore
    obtain ⟨d, rfl⟩ := ihBody sameInner
    obtain ⟨d', rfl⟩ := ihBehind sameRest
    obtain ⟨flow, rfl⟩ := BlockClass.eq_loop is
    obtain rfl := BlockClass.eq_of_ofPart .endBody (by decide) isEnd
    exact ⟨.loop flow is d d', rfl⟩
  | ifThen body behind ihBody ihBehind =>
    obtain ⟨part, more, rfl, is, sameMore⟩ := List.map_eq_cons_iff.mp same
    obtain ⟨inner, last, rest, rfl, sameInner, isEnd, sameRest⟩ := exists_of_map_eq sameMore
    obtain ⟨d, rfl⟩ := ihBody sameInner
    obtain ⟨d', rfl⟩ := ihBehind sameRest
    obtain rfl := BlockClass.eq_of_ofPart .ifThen (by decide) is
    obtain rfl := BlockClass.eq_of_ofPart .endBody (by decide) isEnd
    exact ⟨.ifThen d d', rfl⟩
  | ifElse body other behind ihBody ihOther ihBehind =>
    obtain ⟨part, more, rfl, is, sameMore⟩ := List.map_eq_cons_iff.mp same
    obtain ⟨first, middle, more, rfl, sameFirst, isElse, sameMore⟩ := exists_of_map_eq sameMore
    obtain ⟨second, last, rest, rfl, sameSecond, isEnd, sameRest⟩ := exists_of_map_eq sameMore
    obtain ⟨d, rfl⟩ := ihBody sameFirst
    obtain ⟨d', rfl⟩ := ihOther sameSecond
    obtain ⟨d'', rfl⟩ := ihBehind sameRest
    obtain rfl := BlockClass.eq_of_ofPart .ifThen (by decide) is
    obtain rfl := BlockClass.eq_of_ofPart .otherwise (by decide) isElse
    obtain rfl := BlockClass.eq_of_ofPart .endBody (by decide) isEnd
    exact ⟨.ifElse d d' d'', rfl⟩

theorem exists_iff_row {parts : List (Option Flow)} :
    (∃ d : Derivation, d.parts = parts) ↔ BlockClass.Row (parts.map BlockClass.ofPart) := by
  constructor
  · rintro ⟨d, rfl⟩
    exact d.row
  · exact fun h => exists_of_row h rfl

/-! ## A row has one derivation -/

/-- The class of the first block, if it can begin a row. -/
def beginning : List (Option Flow) → Option BlockClass
  | [] => none
  | part :: _ =>
    match BlockClass.ofPart part with
    | .otherwise | .endBody => none
    | is => some is

/-- Blocks that cannot go on with a row: there are none, or the first is an else or an end. -/
def Stops (after : List (Option Flow)) : Prop := beginning after = none

theorem stops_nil : Stops [] := rfl

theorem stops_end (rest : List (Option Flow)) : Stops (some .endBody :: rest) := rfl

theorem stops_otherwise (rest : List (Option Flow)) : Stops (some .otherwise :: rest) := rfl

/-- The class of the first block of the row. -/
def first? : Derivation → Option BlockClass
  | empty => none
  | plain .. => some .plain
  | loop .. => some .loop
  | ifThen .. | ifElse .. => some .ifThen

theorem beginning_append (d : Derivation) {after : List (Option Flow)} (stops : Stops after) :
    beginning (d.parts ++ after) = d.first? := by
  cases d with
  | empty => exact stops
  | plain part is rest => simp only [parts, List.cons_append, beginning, is, first?]
  | loop flow is inner rest => simp only [parts, List.cons_append, beginning, is, first?]
  | ifThen inner rest => rfl
  | ifElse first second rest => rfl

/-- **A row is derived in one way, and it is known where it ends.** -/
theorem eq_of_append {d d' : Derivation} {after after' : List (Option Flow)}
    (same : d.parts ++ after = d'.parts ++ after') (stops : Stops after) (stops' : Stops after') :
    d = d' ∧ after = after' := by
  have first (d d' : Derivation) {after after' : List (Option Flow)}
      (same : d.parts ++ after = d'.parts ++ after') (stops : Stops after)
      (stops' : Stops after') : d.first? = d'.first? := by
    rw [← beginning_append d stops, same, beginning_append d' stops']
  -- both begin with a block of the same class; only an if leaves open how it goes on
  induction d generalizing d' after after' with
  | empty =>
    cases d' with
    | empty => exact ⟨rfl, same⟩
    | _ => cases first _ _ same stops stops'
  | plain part is rest ih =>
    cases d' with
    | plain part' is' rest' =>
      obtain ⟨rfl, tails⟩ := List.cons.inj same
      obtain ⟨rfl, rfl⟩ := ih tails stops stops'
      exact ⟨rfl, rfl⟩
    | _ => cases first _ _ same stops stops'
  | loop flow is inner rest ihInner ihRest =>
    cases d' with
    | loop flow' is' inner' rest' =>
      simp only [parts, List.cons_append, List.append_assoc] at same
      obtain ⟨flows, tails⟩ := List.cons.inj same
      obtain rfl := Option.some.inj flows
      obtain ⟨rfl, ends⟩ := ihInner tails (stops_end _) (stops_end _)
      obtain ⟨rfl, rfl⟩ := ihRest (List.cons.inj ends).2 stops stops'
      exact ⟨rfl, rfl⟩
    | _ => cases first _ _ same stops stops'
  | ifThen inner rest ihInner ihRest =>
    cases d' with
    | ifThen inner' rest' =>
      simp only [parts, List.cons_append, List.append_assoc] at same
      obtain ⟨rfl, ends⟩ := ihInner (List.cons.inj same).2 (stops_end _) (stops_end _)
      obtain ⟨rfl, rfl⟩ := ihRest (List.cons.inj ends).2 stops stops'
      exact ⟨rfl, rfl⟩
    | ifElse first' second' rest' =>
      -- the row behind the if is followed by an end, or by an else
      simp only [parts, List.cons_append, List.append_assoc] at same
      obtain ⟨-, ends⟩ := ihInner (List.cons.inj same).2 (stops_end _) (stops_otherwise _)
      cases (List.cons.inj ends).1
    | _ => cases first _ _ same stops stops'
  | ifElse first' second' rest ihFirst ihSecond ihRest =>
    cases d' with
    | ifThen inner rest' =>
      simp only [parts, List.cons_append, List.append_assoc] at same
      obtain ⟨-, ends⟩ := ihFirst (List.cons.inj same).2 (stops_otherwise _) (stops_end _)
      cases (List.cons.inj ends).1
    | ifElse first₂ second₂ rest' =>
      simp only [parts, List.cons_append, List.append_assoc] at same
      obtain ⟨rfl, middles⟩ :=
        ihFirst (List.cons.inj same).2 (stops_otherwise _) (stops_otherwise _)
      obtain ⟨rfl, ends⟩ := ihSecond (List.cons.inj middles).2 (stops_end _) (stops_end _)
      obtain ⟨rfl, rfl⟩ := ihRest (List.cons.inj ends).2 stops stops'
      exact ⟨rfl, rfl⟩
    | _ => cases first _ _ same stops stops'

theorem eq_of_parts {d d' : Derivation} (same : d.parts = d'.parts) : d = d' :=
  (eq_of_append (by rw [same]) stops_nil stops_nil).1

end Derivation

/-! ## The pass over a derived row -/

namespace Body

/-- The pass goes over a row, and leaves the bodies open that are listed after it. -/
def Passes (index : Nat) (stack : List OpenBody) (row : List (Option Flow))
    (after : List OpenBody) : Prop :=
  ∃ bodies, ∀ rest, scan index stack (row ++ rest) =
    (bodies ++ ·) <$> scan (index + row.length) after rest

section

variable {index : Nat} {stack between after : List OpenBody} {part : Option Flow}
  {closed : Option Body} {row row' : List (Option Flow)}

theorem Passes.nil : Passes index stack [] stack := by
  refine ⟨[], fun rest => ?_⟩
  show scan index stack rest = _ <$> scan index stack rest
  cases scan index stack rest <;> rfl

theorem Passes.append (h : Passes index stack row between)
    (next : Passes (index + row.length) between row' after) :
    Passes index stack (row ++ row') after := by
  obtain ⟨first, here⟩ := h
  obtain ⟨second, there⟩ := next
  refine ⟨first ++ second, fun rest => ?_⟩
  rw [List.append_assoc, here, there, List.length_append, ← Nat.add_assoc]
  cases scan (index + row.length + row'.length) after rest with
  | error e => rfl
  | ok bodies => exact congrArg Except.ok (List.append_assoc ..).symm

/-- A block that is admitted is passed over. -/
theorem passes_of_meet (met : meet index part stack = .ok (after, closed)) :
    Passes index stack [part] after := by
  refine ⟨closed.toList, fun rest => ?_⟩
  rw [List.singleton_append, scan, met]
  show (scan (index + 1) after rest >>= fun later => pure (closed.toList ++ later)) = _
  rw [List.length_singleton]
  cases scan (index + 1) after rest <;> rfl

theorem meet_plain (is : BlockClass.ofPart part = .plain) :
    meet index part stack = .ok (stack, none) := by
  cases part with
  | none => rfl
  | some flow => cases flow <;> first | rfl | cases is

theorem meet_opener {flow : Flow} (opens : flow.opensBody) :
    meet index (some flow) stack = .ok (⟨index, flow, none⟩ :: stack, none) := by
  cases flow <;> first | rfl | cases opens

/-- What is between an opener and its end is passed over with one more body open. -/
theorem Passes.body {flow : Flow} (opens : flow.opensBody) {otherwise : Option Nat}
    (inner : Passes (index + 1) (⟨index, flow, none⟩ :: stack) row
      (⟨index, flow, otherwise⟩ :: stack))
    (behind : Passes (index + 1 + row.length + 1) stack row' stack) :
    Passes index stack (some flow :: (row ++ some .endBody :: row')) stack :=
  (passes_of_meet (meet_opener opens)).append (inner.append ((passes_of_meet rfl).append behind))

end

/-- **A derived row is passed over,** and leaves open what was open before it. -/
theorem passes_derivation (d : Derivation) (index : Nat) (stack : List OpenBody) :
    Passes index stack d.parts stack := by
  induction d generalizing index stack with
  | empty => exact .nil
  | plain part is rest ih => exact (passes_of_meet (meet_plain is)).append (ih _ _)
  | loop flow is inner rest ihInner ihRest =>
    exact .body (Flow.opensBody_of_class is) (ihInner _ _) (ihRest _ _)
  | ifThen inner rest ihInner ihRest => exact .body rfl (ihInner _ _) (ihRest _ _)
  | ifElse first second rest ihFirst ihSecond ihRest =>
    let middle := index + 1 + first.length
    have split : Passes middle (⟨index, .ifThen, none⟩ :: stack) [some .otherwise]
        (⟨index, .ifThen, some middle⟩ :: stack) := passes_of_meet rfl
    have whole := (ihFirst (index + 1) _).append (split.append (ihSecond _ _))
    have passed := Passes.body rfl whole (ihRest _ stack)
    rwa [List.append_assoc] at passed

end Body

/-- A derived row has shapes. -/
theorem exists_shapes (d : Derivation) : ∃ shapes, shapesOfFlows d.parts = .ok shapes := by
  obtain ⟨bodies, passed⟩ := Body.passes_derivation d 0 []
  have all := passed []
  rw [List.append_nil] at all
  unfold shapesOfFlows
  rw [all]
  exact ⟨_, rfl⟩

/-! ## The derivation of a row that has shapes -/

/-- A closed row is derived, and its derivation gives its shapes. -/
theorem Closed.exists_derivation {parts : List (Option Flow)} {shapes : List Shape} {i j : Nat}
    (length : shapes.length = parts.length)
    (suits : ∀ (k : Nat) (part : Option Flow), parts[k]? = some part →
      ∃ shape : Shape, shapes[k]? = some shape ∧ shape.Suits part)
    (h : Closed shapes i j) :
    ∃ d : Derivation, i + d.length = j ∧ parts.drop i = d.parts ++ parts.drop j ∧
      shapes.drop i = d.shapes i ++ shapes.drop j := by
  have here {k : Nat} {shape : Shape} (is : shapes[k]? = some shape) :
      ∃ part, shape.Suits part ∧ parts.drop k = part :: parts.drop (k + 1) ∧
        shapes.drop k = shape :: shapes.drop (k + 1) := by
    obtain ⟨lt, rfl⟩ := List.getElem?_eq_some_iff.mp is
    obtain ⟨shape, same, suit⟩ := suits k parts[k] (List.getElem?_eq_getElem (length ▸ lt))
    obtain rfl := Option.some.inj (is.symm.trans same)
    exact ⟨_, suit, List.drop_eq_getElem_cons _, List.drop_eq_getElem_cons lt⟩
  induction h with
  | nil i => exact ⟨.empty, rfl, rfl, rfl⟩
  | @plain i j is rest ih =>
    obtain ⟨d, size, row, shaped⟩ := ih
    obtain ⟨part, suit, part_row, shape_row⟩ := here is
    refine ⟨.plain part (BlockClass.ofPart_eq_plain_iff.mpr suit) d, ?_, ?_, ?_⟩
    · simp only [Derivation.length_plain]
      omega
    · rw [part_row, row]
      rfl
    · rw [shape_row, shaped]
      rfl
  | @body i c j flow is inner close rest ihInner ihRest =>
    obtain ⟨d, rfl, row, shaped⟩ := ihInner
    obtain ⟨d', size', row', shaped'⟩ := ihRest
    obtain ⟨part, ⟨rfl, opens, -⟩, part_row, shape_row⟩ := here is
    obtain ⟨part', rfl, part_row', shape_row'⟩ := here close
    rw [part_row, row, part_row', row', shape_row, shaped, shape_row', shaped']
    rcases Flow.class_of_opensBody opens with isLoop | rfl
    · refine ⟨.loop flow isLoop d d', ?_, ?_, ?_⟩
      · rw [Derivation.length_loop]
        omega
      · simp only [Derivation.parts, List.cons_append, List.append_assoc]
      · simp only [Derivation.shapes, List.cons_append, List.append_assoc]
    · refine ⟨.ifThen d d', ?_, ?_, ?_⟩
      · rw [Derivation.length_ifThen]
        omega
      · simp only [Derivation.parts, List.cons_append, List.append_assoc]
      · simp only [Derivation.shapes, List.cons_append, List.append_assoc]
  | @split i s c j is first otherwise second close rest ihFirst ihSecond ihRest =>
    obtain ⟨d, rfl, row, shaped⟩ := ihFirst
    obtain ⟨d', rfl, row', shaped'⟩ := ihSecond
    obtain ⟨d'', size, row'', shaped''⟩ := ihRest
    obtain ⟨part, ⟨rfl, opens, -⟩, part_row, shape_row⟩ := here is
    obtain ⟨part', rfl, part_row', shape_row'⟩ := here otherwise
    obtain ⟨part'', rfl, part_row'', shape_row''⟩ := here close
    rw [part_row, row, part_row', row', part_row'', row'', shape_row, shaped, shape_row', shaped',
      shape_row'', shaped'']
    refine ⟨.ifElse d d' d'', ?_, ?_, ?_⟩
    · rw [Derivation.length_ifElse]
      omega
    · simp only [Derivation.parts, List.cons_append, List.append_assoc]
    · simp only [Derivation.shapes, List.cons_append, List.append_assoc]

/-- **The shapes of a row are those of its derivation,** and a row without one has none. -/
theorem shapesOfFlows_eq_ok_iff {flows : List (Option Flow)} {shapes : List Shape} :
    shapesOfFlows flows = .ok shapes ↔ ∃ d : Derivation, d.parts = flows ∧ d.shapes 0 = shapes := by
  have derived {flows : List (Option Flow)} {shapes : List Shape}
      (h : shapesOfFlows flows = .ok shapes) :
      ∃ d : Derivation, d.parts = flows ∧ d.shapes 0 = shapes := by
    obtain ⟨length, closed, suits⟩ := shapes_closed h
    obtain ⟨d, -, row, shaped⟩ := closed.exists_derivation length suits
    rw [length, List.drop_length, List.append_nil] at row
    rw [List.drop_length, List.append_nil] at shaped
    exact ⟨d, row.symm, shaped.symm⟩
  refine ⟨derived, ?_⟩
  rintro ⟨d, rfl, rfl⟩
  -- the row has shapes, and they come from a derivation that can only be this one
  obtain ⟨shapes, has⟩ := exists_shapes d
  obtain ⟨d', same, rfl⟩ := derived has
  obtain rfl := Derivation.eq_of_parts same
  exact has

example : shapesOfFlows [some .forever, some .ifThen, none, some .otherwise, some .endBody,
      some .endBody] =
    .ok [.opener .forever none 5, .opener .ifThen (some 3) 4, .plain, .otherwise 1 4, .close 1,
      .close 0] := rfl

/-! ## How bodies lie -/

/-- A block opens no body and ends none, or belongs to a body that is closed before an index. -/
inductive Belongs (shapes : List Shape) (k j : Nat) : Prop where
  | plain (shape : shapes[k]? = some .plain)
  | body {i : Nat} {flow : Flow} {middle : Option Nat} {c : Nat}
      (opener : shapes[i]? = some (.opener flow middle c)) (order : i < c)
      (closed : Closed shapes i (c + 1)) (before : c < j) (mark : k = i ∨ middle = some k ∨ k = c)

/-- Where the bodies of a chain lie. -/
structure BodiesNest (shapes : List Shape) : Prop where
  close {i : Nat} {flow : Flow} {middle : Option Nat} {c : Nat}
    (opener : shapes[i]? = some (.opener flow middle c)) : i < c ∧ shapes[c]? = some (.close i)
  otherwise {i : Nat} {flow : Flow} {s c : Nat}
    (opener : shapes[i]? = some (.opener flow (some s) c)) :
    flow = .ifThen ∧ i < s ∧ s < c ∧ shapes[s]? = some (.otherwise i c)
  opener_of_close {i c : Nat} (close : shapes[c]? = some (.close i)) :
    ∃ flow middle, shapes[i]? = some (.opener flow middle c)
  opener_of_otherwise {i s c : Nat} (otherwise : shapes[s]? = some (.otherwise i c)) :
    shapes[i]? = some (.opener .ifThen (some s) c)
  /-- What two openers open and end is disjoint, or the later body lies within the earlier one. -/
  disjoint_or_nested {i i' : Nat} {flow flow' : Flow} {middle middle' : Option Nat} {c c' : Nat}
    (opener : shapes[i]? = some (.opener flow middle c))
    (opener' : shapes[i']? = some (.opener flow' middle' c')) (later : i < i') : c < i' ∨ c' < c
  /-- No body that begins before an else, within the if, goes beyond the else. -/
  shallow {i i' : Nat} {flow flow' : Flow} {middle' : Option Nat} {s c c' : Nat}
    (opener : shapes[i]? = some (.opener flow (some s) c))
    (opener' : shapes[i']? = some (.opener flow' middle' c')) (later : i < i') (before : i' < s) :
    c' < s

section

variable {shapes : List Shape} {i j j' k c : Nat} {flow : Flow} {middle : Option Nat}

theorem Belongs.mono (h : Belongs shapes k j) (le : j ≤ j') : Belongs shapes k j' := by
  cases h with
  | plain shape => exact .plain shape
  | body opener order closed before mark =>
    exact .body opener order closed (Nat.lt_of_lt_of_le before le) mark

/-- **A block of a row belongs to a body of the row,** if to any. -/
theorem Closed.belongs (h : Closed shapes i j) (le : i ≤ k) (lt : k < j) : Belongs shapes k j := by
  induction h with
  | nil i => omega
  | plain shape rest ih =>
    rcases Nat.eq_or_lt_of_le le with rfl | later
    · exact .plain shape
    · exact ih later lt
  | @body i c j flow opener inner close rest ihInner ihRest =>
    have behind := rest.le
    have here := Belongs.body (k := k) opener inner.le
      (.body opener inner close (.nil _)) behind
    rcases Nat.lt_trichotomy k c with before | at_end | after
    · rcases Nat.eq_or_lt_of_le le with first | later
      · exact here (.inl first.symm)
      · exact (ihInner later before).mono (Nat.le_of_lt behind)
    · exact here (.inr (.inr at_end))
    · exact ihRest after lt
  | @split i s c j opener first otherwise second close rest ihFirst ihSecond ihRest =>
    have half := first.le
    have half' := second.le
    have behind := rest.le
    have here := Belongs.body (k := k) opener (by omega)
      (.split opener first otherwise second close (.nil _)) behind
    rcases Nat.lt_trichotomy k c with before | at_end | after
    · rcases Nat.lt_trichotomy k s with before' | at_else | after'
      · rcases Nat.eq_or_lt_of_le le with isFirst | later
        · exact here (.inl isFirst.symm)
        · exact (ihFirst later before').mono (by omega)
      · exact here (.inr (.inl (congrArg some at_else.symm)))
      · exact (ihSecond after' before).mono (Nat.le_of_lt behind)
    · exact here (.inr (.inr at_end))
    · exact ihRest after lt

/-- What belongs to the body that a first block opens. -/
theorem Closed.marks (h : Closed shapes i j) (lt : i < j)
    (opener : shapes[i]? = some (.opener flow middle c)) :
    i < c ∧ shapes[c]? = some (.close i) ∧
      ∀ s, middle = some s → flow = .ifThen ∧ i < s ∧ s < c ∧
        shapes[s]? = some (.otherwise i c) := by
  obtain ⟨order, -, -, -⟩ := h.of_opener lt opener
  cases middle with
  | none =>
    obtain ⟨-, close, -⟩ := h.of_body lt opener
    exact ⟨order, close, by rintro s ⟨⟩⟩
  | some s =>
    obtain ⟨rfl, first, otherwise, second, close, -⟩ := h.of_split lt opener
    refine ⟨order, close, ?_⟩
    rintro _ ⟨⟩
    exact ⟨rfl, first.le, second.le, otherwise⟩

/-- An opener of a row is closed within it. -/
theorem Closed.of_mem_opener (h : Closed shapes i j) (le : i ≤ k) (lt : k < j)
    (opener : shapes[k]? = some (.opener flow middle c)) :
    k < c ∧ Closed shapes k (c + 1) ∧ c < j := by
  cases h.belongs le lt with
  | plain shape => rw [opener] at shape; cases shape
  | body opener' order closed before mark =>
    obtain ⟨-, close, otherwise⟩ := closed.marks (Nat.lt_succ_of_lt order) opener'
    rcases mark with rfl | rfl | rfl
    · rw [opener] at opener'
      cases opener'
      exact ⟨order, closed, before⟩
    · obtain ⟨-, -, -, otherwise⟩ := otherwise k rfl
      rw [opener] at otherwise
      cases otherwise
    · rw [opener] at close
      cases close

/-- An end of a row is that of an opener. -/
theorem Closed.of_mem_close (h : Closed shapes i j) (le : i ≤ k) (lt : k < j) {o : Nat}
    (close : shapes[k]? = some (.close o)) :
    ∃ flow middle, shapes[o]? = some (.opener flow middle k) := by
  cases h.belongs le lt with
  | plain shape => rw [close] at shape; cases shape
  | body opener order closed _ mark =>
    obtain ⟨-, close', otherwise⟩ := closed.marks (Nat.lt_succ_of_lt order) opener
    rcases mark with rfl | rfl | rfl
    · rw [close] at opener
      cases opener
    · obtain ⟨-, -, -, otherwise⟩ := otherwise k rfl
      rw [close] at otherwise
      cases otherwise
    · rw [close] at close'
      cases close'
      exact ⟨_, _, opener⟩

/-- An else of a row is that of an if. -/
theorem Closed.of_mem_otherwise (h : Closed shapes i j) (le : i ≤ k) (lt : k < j) {o : Nat}
    (otherwise : shapes[k]? = some (.otherwise o c)) :
    shapes[o]? = some (.opener .ifThen (some k) c) := by
  cases h.belongs le lt with
  | plain shape => rw [otherwise] at shape; cases shape
  | body opener order closed _ mark =>
    obtain ⟨-, close, otherwise'⟩ := closed.marks (Nat.lt_succ_of_lt order) opener
    rcases mark with rfl | rfl | rfl
    · rw [otherwise] at opener
      cases opener
    · obtain ⟨rfl, -, -, otherwise'⟩ := otherwise' k rfl
      rw [otherwise] at otherwise'
      cases otherwise'
      exact opener
    · rw [otherwise] at close
      cases close

/-- What is opened between an opener and its end is closed there. -/
theorem Closed.within (h : Closed shapes i (c + 1)) (order : i < c)
    (opener : shapes[i]? = some (.opener flow middle c)) {i' c' : Nat} {flow' : Flow}
    {middle' : Option Nat} (opener' : shapes[i']? = some (.opener flow' middle' c'))
    (later : i < i') (before : i' < c) : c' < c := by
  cases middle with
  | none =>
    obtain ⟨inner, -, -⟩ := h.of_body (Nat.lt_succ_of_lt order) opener
    exact (inner.of_mem_opener later before opener').2.2
  | some s =>
    obtain ⟨-, first, otherwise, second, -, -⟩ := h.of_split (Nat.lt_succ_of_lt order) opener
    rcases Nat.lt_trichotomy i' s with before' | rfl | after
    · have half := (first.of_mem_opener later before' opener').2.2
      exact Nat.lt_trans half second.le
    · rw [opener'] at otherwise
      cases otherwise
    · exact (second.of_mem_opener after before opener').2.2

/-- **The bodies of closed blocks nest.** -/
theorem Closed.bodiesNest (h : Closed shapes 0 shapes.length) : BodiesNest shapes := by
  have inside {k : Nat} {shape : Shape} (is : shapes[k]? = some shape) : k < shapes.length :=
    (List.getElem?_eq_some_iff.mp is).1
  have whole {i : Nat} {flow : Flow} {middle : Option Nat} {c : Nat}
      (opener : shapes[i]? = some (.opener flow middle c)) : i < c ∧ Closed shapes i (c + 1) :=
    have ⟨order, closed, _⟩ := h.of_mem_opener (Nat.zero_le _) (inside opener) opener
    ⟨order, closed⟩
  have marks {i : Nat} {flow : Flow} {middle : Option Nat} {c : Nat}
      (opener : shapes[i]? = some (.opener flow middle c)) :=
    (whole opener).2.marks (Nat.lt_succ_of_lt (whole opener).1) opener
  constructor
  case close =>
    intro i flow middle c opener
    obtain ⟨order, close, -⟩ := marks opener
    exact ⟨order, close⟩
  case otherwise =>
    intro i flow s c opener
    exact (marks opener).2.2 s rfl
  case opener_of_close =>
    intro i c close
    exact h.of_mem_close (Nat.zero_le _) (inside close) close
  case opener_of_otherwise =>
    intro i s c otherwise
    exact h.of_mem_otherwise (Nat.zero_le _) (inside otherwise) otherwise
  case disjoint_or_nested =>
    intro i i' flow flow' middle middle' c c' opener opener' later
    rcases Nat.lt_trichotomy i' c with within | rfl | behind
    · obtain ⟨order, closed⟩ := whole opener
      exact .inr (closed.within order opener opener' later within)
    · have close := (marks opener).2.1
      rw [opener'] at close
      cases close
    · exact .inl behind
  case shallow =>
    intro i i' flow flow' middle' s c c' opener opener' later before
    obtain ⟨order, closed⟩ := whole opener
    obtain ⟨-, first, -⟩ := closed.of_split (Nat.lt_succ_of_lt order) opener
    exact (first.of_mem_opener later before opener').2.2

end

/-! ## Chains -/

namespace Chain

/-- The parts that the blocks of a chain play. A block whose definition is not known plays none. -/
def parts (c : Chain) (r : Registry) : List (Option Flow) :=
  c.blocks.map fun b => r.flow? b.definition

/-- What the blocks of a chain are to the grammar. -/
def classes (c : Chain) (r : Registry) : List BlockClass := (c.parts r).map BlockClass.ofPart

/-- **A chain has shapes when its classes are a row of the grammar, and it has the shapes that its
derivation gives.** There is one derivation, and so the bodies nest: each opener has its own end and
its own else, if any, and these have it. -/
theorem shapes_derived (c : Chain) (r : Registry) :
    ((∃ shapes, c.shapes r = .ok shapes) ↔ BlockClass.Row (c.classes r)) ∧
      (∀ shapes, c.shapes r = .ok shapes ↔
        ∃ d : Derivation, d.parts = c.parts r ∧ d.shapes 0 = shapes) ∧
      (∀ d d' : Derivation, d.parts = c.parts r → d'.parts = c.parts r → d = d') ∧
      ∀ shapes, c.shapes r = .ok shapes → BodiesNest shapes := by
  refine ⟨?_, fun shapes => shapesOfFlows_eq_ok_iff, ?_, ?_⟩
  · rw [classes, ← Derivation.exists_iff_row]
    constructor
    · rintro ⟨shapes, h⟩
      obtain ⟨d, same, -⟩ := shapesOfFlows_eq_ok_iff.mp h
      exact ⟨d, same⟩
    · rintro ⟨d, same⟩
      exact ⟨d.shapes 0, shapesOfFlows_eq_ok_iff.mpr ⟨d, same, rfl⟩⟩
  · intro d d' same same'
    exact Derivation.eq_of_parts (same.trans same'.symm)
  · intro shapes h
    exact (shapes_closed h).2.1.bodiesNest

/-- A chain with an if that has two bodies, the second of which is a loop. -/
def choosing : Chain :=
  ⟨0, origin, [⟨"on_start", []⟩, ⟨"if", []⟩, ⟨"return", []⟩, ⟨"else", []⟩, ⟨"forever", []⟩,
    ⟨"end", []⟩, ⟨"end", []⟩]⟩

set_option maxRecDepth 20000 in
/-- The bodies of the if and of the loop. -/
theorem shapes_derived_choosing :
    ∃ shapes, choosing.shapes (.ofList Builtins.directing) = .ok shapes ∧
      shapes[1]? = some (.opener .ifThen (some 3) 6) ∧
      shapes[4]? = some (.opener .forever none 5) ∧
      (∃ d : Derivation, d.parts = choosing.parts (.ofList Builtins.directing) ∧
        d.shapes 0 = shapes ∧
          ∀ d' : Derivation, d'.parts = choosing.parts (.ofList Builtins.directing) → d' = d) ∧
      BodiesNest shapes := by
  obtain ⟨-, derived, unique, nest⟩ := shapes_derived choosing (.ofList Builtins.directing)
  have ok : choosing.shapes (.ofList Builtins.directing) =
      .ok [.plain, .opener .ifThen (some 3) 6, .plain, .otherwise 1 6, .opener .forever none 5,
        .close 4, .close 1] := rfl
  obtain ⟨d, parts, shapes⟩ := (derived _).mp ok
  exact ⟨_, ok, rfl, rfl, ⟨d, parts, shapes, fun d' parts' => unique d' d parts' parts⟩, nest _ ok⟩

end Chain

end Blockwork
