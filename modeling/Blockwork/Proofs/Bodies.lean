import Blockwork.Chain.Structure

/-!
# Bodies are nested like brackets

The shapes of a chain are found in one pass over its blocks. Here they are read as brackets: the
blocks from one index to another are *closed* when every body that is opened among them is also
closed among them, at the index that its opener names.

## Main statements

* `shapes_closed`: the blocks of a chain that has shapes are closed, and the shape of each block
  suits the part that the block plays.

The pass keeps a stack of open bodies, so the invariant is about a pass that is under way: the
blocks that are left close the innermost open body, then the next one, and so on (`Finishes`).
-/

namespace Blockwork

/-! ## Closed rows of blocks -/

/-- The blocks from one index to another form whole bodies. -/
inductive Closed (shapes : List Shape) : Nat → Nat → Prop where
  | nil (i : Nat) : Closed shapes i i
  | plain {i j : Nat} (shape : shapes[i]? = some .plain) (rest : Closed shapes (i + 1) j) :
      Closed shapes i j
  | body {i c j : Nat} {flow : Flow} (opener : shapes[i]? = some (.opener flow none c))
      (inner : Closed shapes (i + 1) c) (close : shapes[c]? = some (.close i))
      (rest : Closed shapes (c + 1) j) : Closed shapes i j
  | split {i s c j : Nat} (opener : shapes[i]? = some (.opener .ifThen (some s) c))
      (first : Closed shapes (i + 1) s) (otherwise : shapes[s]? = some (.otherwise i c))
      (second : Closed shapes (s + 1) c) (close : shapes[c]? = some (.close i))
      (rest : Closed shapes (c + 1) j) : Closed shapes i j

namespace Closed

variable {shapes : List Shape} {i j k : Nat}

theorem le (h : Closed shapes i j) : i ≤ j := by
  induction h with
  | nil => exact Nat.le_refl _
  | plain _ _ ih => omega
  | body _ _ _ _ inner rest => omega
  | split _ _ _ _ _ _ first second rest => omega

/-- Rows that follow each other form one row. -/
theorem append (h : Closed shapes i j) (next : Closed shapes j k) : Closed shapes i k := by
  induction h with
  | nil => exact next
  | plain shape _ ih => exact .plain shape (ih next)
  | body opener inner close _ _ ih => exact .body opener inner close (ih next)
  | split opener first otherwise second close _ _ _ ih =>
    exact .split opener first otherwise second close (ih next)

/-- One block that opens no body is a row. -/
theorem single (shape : shapes[i]? = some .plain) : Closed shapes i (i + 1) :=
  .plain shape (.nil _)

/-- A row begins with a block that opens no body, or with an opener. -/
theorem first_shape (h : Closed shapes i j) (lt : i < j) :
    shapes[i]? = some .plain ∨
      ∃ flow otherwise c, shapes[i]? = some (.opener flow otherwise c) := by
  cases h with
  | nil => exact absurd lt (Nat.lt_irrefl _)
  | plain shape _ => exact Or.inl shape
  | body opener _ _ _ => exact Or.inr ⟨_, _, _, opener⟩
  | split opener _ _ _ _ _ => exact Or.inr ⟨_, _, _, opener⟩

/-- What follows a first block that opens no body. -/
theorem of_plain (h : Closed shapes i j) (lt : i < j) (shape : shapes[i]? = some .plain) :
    Closed shapes (i + 1) j := by
  cases h with
  | nil => exact absurd lt (Nat.lt_irrefl _)
  | plain _ rest => exact rest
  | body opener _ _ _ => rw [shape] at opener; cases opener
  | split opener _ _ _ _ _ => rw [shape] at opener; cases opener

/-- The body of a first block that opens one without an else, and what follows it. -/
theorem of_body {flow : Flow} {c : Nat} (h : Closed shapes i j) (lt : i < j)
    (shape : shapes[i]? = some (.opener flow none c)) :
    Closed shapes (i + 1) c ∧ shapes[c]? = some (.close i) ∧ Closed shapes (c + 1) j := by
  cases h with
  | nil => exact absurd lt (Nat.lt_irrefl _)
  | plain plain _ => rw [shape] at plain; cases plain
  | body opener inner close rest =>
    rw [shape] at opener
    cases opener
    exact ⟨inner, close, rest⟩
  | split opener _ _ _ _ _ => rw [shape] at opener; cases opener

/-- The bodies of a first block that opens one with an else, and what follows them. -/
theorem of_split {flow : Flow} {s c : Nat} (h : Closed shapes i j) (lt : i < j)
    (shape : shapes[i]? = some (.opener flow (some s) c)) :
    flow = .ifThen ∧ Closed shapes (i + 1) s ∧ shapes[s]? = some (.otherwise i c) ∧
      Closed shapes (s + 1) c ∧ shapes[c]? = some (.close i) ∧ Closed shapes (c + 1) j := by
  cases h with
  | nil => exact absurd lt (Nat.lt_irrefl _)
  | plain plain _ => rw [shape] at plain; cases plain
  | body opener _ _ _ => rw [shape] at opener; cases opener
  | split opener first otherwise second close rest =>
    rw [shape] at opener
    cases opener
    exact ⟨rfl, first, otherwise, second, close, rest⟩

/-- A first opener is closed within its row; behind its end the row goes on. -/
theorem of_opener {flow : Flow} {otherwise : Option Nat} {c : Nat} (h : Closed shapes i j)
    (lt : i < j) (shape : shapes[i]? = some (.opener flow otherwise c)) :
    i < c ∧ c < j ∧ Closed shapes i (c + 1) ∧ Closed shapes (c + 1) j := by
  cases otherwise with
  | none =>
    obtain ⟨inner, close, rest⟩ := h.of_body lt shape
    exact ⟨inner.le, rest.le, .body shape inner close (.nil _), rest⟩
  | some s =>
    obtain ⟨rfl, first, otherwise, second, close, rest⟩ := h.of_split lt shape
    have := first.le
    have := second.le
    exact ⟨by omega, rest.le, .split shape first otherwise second close (.nil _), rest⟩

end Closed

/-! ## One block of the pass -/

/-- Whether a part has nothing to do with bodies. -/
def Flow.isPlain (flow : Flow) : Bool :=
  !flow.opensBody && flow != .otherwise && flow != .endBody

namespace Body

/-- What one block does to the open bodies when they admit it. -/
inductive Meets (index : Nat) :
    Option Flow → List OpenBody → List OpenBody → Option Body → Prop where
  | plain {flow : Option Flow} {stack : List OpenBody} (plain : flow.all Flow.isPlain) :
      Meets index flow stack stack none
  | opener {flow : Flow} {stack : List OpenBody} (opens : flow.opensBody) :
      Meets index (some flow) stack (⟨index, flow, none⟩ :: stack) none
  | otherwise {opener : Nat} {outer : List OpenBody} :
      Meets index (some .otherwise) (⟨opener, .ifThen, none⟩ :: outer)
        (⟨opener, .ifThen, some index⟩ :: outer) none
  | close {b : OpenBody} {outer : List OpenBody} :
      Meets index (some .endBody) (b :: outer) outer (some ⟨b, index⟩)

theorem meets_of_meet {index : Nat} {flow : Option Flow} {stack after : List OpenBody}
    {closed : Option Body} (h : meet index flow stack = .ok (after, closed)) :
    Meets index flow stack after closed := by
  unfold meet at h
  split at h
  · split at h
    · cases h; exact .otherwise
    · cases h
    · cases h
  · split at h
    · cases h; exact .close
    · cases h
  · next flow other notEnd =>
    cases h
    split
    · next opens => exact .opener opens
    · next closes =>
      refine .plain ?_
      cases flow <;> simp_all [Flow.isPlain, Flow.opensBody]
  · cases h; exact .plain rfl

/-- The pass goes block by block. -/
theorem scan_cons {index : Nat} {stack : List OpenBody} {flow : Option Flow}
    {rest : List (Option Flow)} {bodies : List Body}
    (h : scan index stack (flow :: rest) = .ok bodies) :
    ∃ after closed later, Meets index flow stack after closed ∧
      scan (index + 1) after rest = .ok later ∧ bodies = closed.toList ++ later := by
  unfold scan at h
  cases hm : meet index flow stack with
  | error e => rw [hm] at h; cases h
  | ok r =>
    obtain ⟨after, closed⟩ := r
    rw [hm] at h
    simp only [bind, Except.bind] at h
    cases hs : scan (index + 1) after rest with
    | error e => rw [hs] at h; cases h
    | ok later =>
      rw [hs] at h
      cases h
      exact ⟨after, closed, later, meets_of_meet hm, hs, rfl⟩

/-- A pass that is over leaves no body open. -/
theorem scan_nil {index : Nat} {stack : List OpenBody} {bodies : List Body}
    (h : scan index stack [] = .ok bodies) : stack = [] ∧ bodies = [] := by
  unfold scan at h
  split at h
  · cases h
  · next none =>
    cases h
    exact ⟨List.getLast?_eq_none_iff.mp none, rfl⟩

/-! ## Marks -/

/-- The blocks that a body gives a shape to. -/
def marks (b : Body) : List Nat := b.opener :: (b.otherwise.toList ++ [b.close])

theorem shape?_eq_none {b : Body} {x : Nat} (h : x ∉ b.marks) : b.shape? x = none := by
  simp only [marks, List.mem_cons, List.mem_append, Option.mem_toList,
    List.not_mem_nil, or_false, not_or] at h
  obtain ⟨opener, otherwise, close⟩ := h
  simp [shape?, opener, otherwise, close]

end Body

theorem Body.shape?_isSome {b : Body} {x : Nat} (h : x ∈ b.marks) : (b.shape? x).isSome := by
  simp only [marks, List.mem_cons, List.mem_append, Option.mem_toList, List.not_mem_nil,
    or_false] at h
  unfold shape?
  split
  · rfl
  · split
    · rfl
    · split
      · rfl
      · next opener otherwise close =>
        rcases h with h | h | h
        · exact absurd h opener
        · exact absurd h otherwise
        · exact absurd h close

/-- The blocks that an open body gives a shape to. -/
def OpenBody.marks (b : OpenBody) : List Nat := b.opener :: b.otherwise.toList

namespace Body

/-- A block that is met adds at most its own mark; the marks of a body that it closes go with the
body. -/
theorem Meets.marks_perm {index : Nat} {flow : Option Flow} {stack after : List OpenBody}
    {closed : Option Body} (h : Meets index flow stack after closed) :
    ∃ fresh, (fresh = [] ∨ fresh = [index]) ∧
      (closed.toList.flatMap marks ++ after.flatMap OpenBody.marks).Perm
        (fresh ++ stack.flatMap OpenBody.marks) := by
  cases h with
  | plain _ => exact ⟨[], Or.inl rfl, .refl _⟩
  | opener _ => exact ⟨[index], Or.inr rfl, .refl _⟩
  | otherwise => exact ⟨[index], Or.inr rfl, .swap _ _ _⟩
  | @close b =>
    refine ⟨[index], Or.inr rfl, ?_⟩
    have moved : (OpenBody.marks b ++ [index]).Perm ([index] ++ OpenBody.marks b) :=
      List.perm_append_comm
    simpa [marks, OpenBody.marks] using moved.append_right (after.flatMap OpenBody.marks)

/-- So marks stay distinct, and none of them lies behind the block that is met. -/
theorem Meets.marks_distinct {index : Nat} {flow : Option Flow} {stack after : List OpenBody}
    {closed : Option Body} (h : Meets index flow stack after closed)
    (distinct : (stack.flatMap OpenBody.marks).Nodup)
    (before : ∀ x ∈ stack.flatMap OpenBody.marks, x < index) :
    (closed.toList.flatMap marks ++ after.flatMap OpenBody.marks).Nodup ∧
      ∀ x ∈ closed.toList.flatMap marks ++ after.flatMap OpenBody.marks,
        x ∈ stack.flatMap OpenBody.marks ∨ x = index := by
  obtain ⟨fresh, hfresh, moved⟩ := h.marks_perm
  have fresh_eq : ∀ x ∈ fresh, x = index := by
    rcases hfresh with rfl | rfl <;> simp
  constructor
  · refine moved.nodup_iff.mpr (List.nodup_append.mpr ⟨?_, distinct, ?_⟩)
    · rcases hfresh with rfl | rfl <;> simp
    · rintro x hx y hy rfl
      exact absurd (before x hy) (by rw [fresh_eq x hx]; exact Nat.lt_irrefl _)
  · intro x hx
    rcases List.mem_append.mp (moved.mem_iff.mp hx) with h | h
    · exact Or.inr (fresh_eq x h)
    · exact Or.inl h

theorem Meets.after_before {index : Nat} {flow : Option Flow} {stack after : List OpenBody}
    {closed : Option Body} (h : Meets index flow stack after closed)
    (distinct : (stack.flatMap OpenBody.marks).Nodup)
    (before : ∀ x ∈ stack.flatMap OpenBody.marks, x < index) :
    (after.flatMap OpenBody.marks).Nodup ∧
      ∀ x ∈ after.flatMap OpenBody.marks, x < index + 1 := by
  obtain ⟨nodup, old⟩ := h.marks_distinct distinct before
  refine ⟨(List.nodup_append.mp nodup).2.1, fun x hx => ?_⟩
  rcases old x (List.mem_append_right _ hx) with h | rfl
  · exact Nat.lt_succ_of_lt (before x h)
  · exact Nat.lt_succ_self _

/-- Every block is marked at most once, and only if it is met by the pass or marked by a body that
is open already. -/
theorem scan_marks {flows : List (Option Flow)} {index : Nat} {stack : List OpenBody}
    {bodies : List Body} (h : scan index stack flows = .ok bodies)
    (distinct : (stack.flatMap OpenBody.marks).Nodup)
    (before : ∀ x ∈ stack.flatMap OpenBody.marks, x < index) :
    (bodies.flatMap marks).Nodup ∧
      ∀ x ∈ bodies.flatMap marks,
        x ∈ stack.flatMap OpenBody.marks ∨ index ≤ x ∧ x < index + flows.length := by
  induction flows generalizing index stack bodies with
  | nil =>
    obtain ⟨rfl, rfl⟩ := scan_nil h
    simp
  | cons flow rest ih =>
    obtain ⟨after, closed, later, met, hs, rfl⟩ := scan_cons h
    obtain ⟨nodup, old⟩ := met.marks_distinct distinct before
    obtain ⟨nodup_after, lt⟩ := met.after_before distinct before
    obtain ⟨nodup_closed, -, disjoint⟩ := List.nodup_append.mp nodup
    obtain ⟨nodup_later, within⟩ := ih hs nodup_after lt
    rw [List.flatMap_append]
    constructor
    · -- a mark of a closed body is not made again: it was made before, or just now
      refine List.nodup_append.mpr ⟨nodup_closed, nodup_later, ?_⟩
      rintro x hx y hy rfl
      rcases within x hy with h | h
      · exact disjoint x hx x h rfl
      · rcases old x (List.mem_append_left _ hx) with h' | h'
        · have := before x h'
          omega
        · omega
    · intro x hx
      have known (h : x ∈ stack.flatMap OpenBody.marks ∨ x = index) :
          x ∈ stack.flatMap OpenBody.marks ∨ index ≤ x ∧ x < index + (flow :: rest).length :=
        h.imp_right fun h => by simp [h]
      rcases List.mem_append.mp hx with hx | hx
      · exact known (old x (List.mem_append_left _ hx))
      · rcases within x hx with h | h
        · exact known (old x (List.mem_append_right _ h))
        · exact Or.inr (by simp only [List.length_cons]; omega)

/-- Where every block is marked at most once, the body that marks a block decides its shape. -/
theorem findSome?_shape? {bodies : List Body} (distinct : (bodies.flatMap marks).Nodup) {b : Body}
    (mem : b ∈ bodies) {x : Nat} (marked : x ∈ b.marks) :
    bodies.findSome? (·.shape? x) = b.shape? x := by
  induction bodies with
  | nil => cases mem
  | cons c rest ih =>
    rw [List.flatMap_cons] at distinct
    obtain ⟨-, nodup, disjoint⟩ := List.nodup_append.mp distinct
    rcases List.mem_cons.mp mem with rfl | mem
    · obtain ⟨shape, hshape⟩ := Option.isSome_iff_exists.mp (shape?_isSome marked)
      rw [List.findSome?_cons, hshape]
    · have other : x ∉ c.marks := fun h =>
        disjoint x h x (List.mem_flatMap.mpr ⟨b, mem, marked⟩) rfl
      rw [List.findSome?_cons, shape?_eq_none other]
      exact ih nodup mem

theorem findSome?_shape?_eq_none {bodies : List Body} {x : Nat}
    (unmarked : x ∉ bodies.flatMap marks) : bodies.findSome? (·.shape? x) = none := by
  refine List.findSome?_eq_none_iff.mpr fun b mem => shape?_eq_none fun h => ?_
  exact unmarked (List.mem_flatMap.mpr ⟨b, mem, h⟩)

end Body

/-! ## The rest of a chain -/

/-- The blocks from an index on, up to another one, finish the body that is open. -/
inductive Closes (shapes : List Shape) (i : Nat) (b : OpenBody) (c : Nat) : Prop where
  | whole (opener : shapes[b.opener]? = some (.opener b.flow b.otherwise c))
      (otherwise : ∀ s, b.otherwise = some s → shapes[s]? = some (.otherwise b.opener c))
      (rest : Closed shapes i c) (close : shapes[c]? = some (.close b.opener))
  | split {s : Nat} (unsplit : b.otherwise = none) (isIf : b.flow = .ifThen)
      (opener : shapes[b.opener]? = some (.opener .ifThen (some s) c)) (first : Closed shapes i s)
      (otherwise : shapes[s]? = some (.otherwise b.opener c)) (second : Closed shapes (s + 1) c)
      (close : shapes[c]? = some (.close b.opener))

/-- The blocks from an index on finish all open bodies, innermost first. -/
def Finishes (shapes : List Shape) : Nat → List OpenBody → Prop
  | i, [] => Closed shapes i shapes.length
  | i, b :: outer => ∃ c, Closes shapes i b c ∧ Finishes shapes (c + 1) outer

variable {shapes : List Shape}

/-- Whole bodies may precede the blocks that finish the open ones. -/
theorem Finishes.prepend {i j : Nat} {stack : List OpenBody} (h : Finishes shapes j stack)
    (row : Closed shapes i j) : Finishes shapes i stack := by
  cases stack with
  | nil => exact row.append h
  | cons b outer =>
    obtain ⟨c, closes, rest⟩ := h
    refine ⟨c, ?_, rest⟩
    cases closes with
    | whole opener otherwise inner close => exact .whole opener otherwise (row.append inner) close
    | split unsplit isIf opener first otherwise second close =>
      exact .split unsplit isIf opener (row.append first) otherwise second close

/-- What the shape of a block says about the part that the block plays. -/
def Shape.Suits : Shape → Option Flow → Prop
  | .plain, flow => flow.all Flow.isPlain
  | .opener flow split _, part =>
    part = some flow ∧ flow.opensBody ∧ (split ≠ none → flow = .ifThen)
  | .otherwise _ _, part => part = some .otherwise
  | .close _, part => part = some .endBody

/-- A block that opens a body has the shape of an opener. -/
theorem Shape.Suits.opener {shape : Shape} {flow : Flow} (h : shape.Suits (some flow))
    (opens : flow.opensBody) : ∃ middle close, shape = .opener flow middle close := by
  cases shape with
  | plain => simp_all [Suits, Flow.isPlain]
  | opener flow' middle close =>
    obtain ⟨part, -, -⟩ := h
    cases part
    exact ⟨middle, close, rfl⟩
  | otherwise opener close => cases h; cases opens
  | close opener => cases h; cases opens

/-- Shapes are those that bodies give, from an index on. -/
structure GivenBy (shapes : List Shape) (bodies : List Body) (index : Nat) : Prop where
  marked : ∀ b ∈ bodies, ∀ x ∈ b.marks, x < shapes.length → shapes[x]? = b.shape? x
  unmarked : ∀ x, index ≤ x → x < shapes.length → x ∉ bodies.flatMap Body.marks →
    shapes[x]? = some .plain

/-- The three marks of a body have the shapes that belong to them. -/
theorem GivenBy.body {bodies : List Body} {index : Nat} (given : GivenBy shapes bodies index)
    {b : Body} (mem : b ∈ bodies) (distinct : b.marks.Nodup)
    (within : ∀ x ∈ b.marks, x < shapes.length) :
    shapes[b.opener]? = some (.opener b.flow b.otherwise b.close) ∧
      (∀ s, b.otherwise = some s → shapes[s]? = some (.otherwise b.opener b.close)) ∧
      shapes[b.close]? = some (.close b.opener) := by
  have shape (x : Nat) (h : x ∈ b.marks) : shapes[x]? = b.shape? x :=
    given.marked b mem x h (within x h)
  simp only [Body.marks, List.nodup_cons, List.mem_append, Option.mem_toList, List.mem_singleton,
    not_or, List.nodup_append] at distinct
  obtain ⟨⟨opener_ne, opener_lt⟩, -, -, apart⟩ := distinct
  refine ⟨?_, fun s hs => ?_, ?_⟩
  · rw [shape _ (by simp [Body.marks])]
    simp [Body.shape?]
  · rw [shape s (by simp [Body.marks, hs])]
    have : s ≠ b.opener := fun h => opener_ne (h ▸ hs)
    simp [Body.shape?, this, hs]
  · rw [shape _ (by simp [Body.marks])]
    have no : b.otherwise ≠ some b.close := fun h =>
      apart b.close h b.close rfl rfl
    simp [Body.shape?, Ne.symm opener_lt, no]

/-- What marks no block behind an index has no part in the shapes there. -/
theorem GivenBy.later {closed : Option Body} {later : List Body} {index : Nat}
    (given : GivenBy shapes (closed.toList ++ later) index)
    (past : ∀ x ∈ closed.toList.flatMap Body.marks, x ≤ index) :
    GivenBy shapes later (index + 1) := by
  refine ⟨fun b mem => given.marked b (List.mem_append_right _ mem), fun x le hx free => ?_⟩
  refine given.unmarked x (by omega) hx ?_
  rw [List.flatMap_append, List.mem_append]
  rintro (h | h)
  · have := past x h
    omega
  · exact free h

/-- The block that is met takes its place before the blocks that finish the bodies it leaves
open. -/
theorem Body.Meets.finishes {index : Nat} {flow : Option Flow} {stack after : List OpenBody}
    {closed : Option Body} {later : List Body} (met : Meets index flow stack after closed)
    (given : GivenBy shapes (closed.toList ++ later) index) (inside : index < shapes.length)
    (before : ∀ x ∈ stack.flatMap OpenBody.marks, x < index)
    (nodup : (closed.toList.flatMap marks).Nodup)
    (past : ∀ x ∈ closed.toList.flatMap marks, x ≤ index)
    (within : ∀ x ∈ later.flatMap marks, x ∈ after.flatMap OpenBody.marks ∨ index + 1 ≤ x)
    (finishes : Finishes shapes (index + 1) after) :
    Finishes shapes index stack ∧ ∃ shape, shapes[index]? = some shape ∧ shape.Suits flow := by
  cases met with
  | plain plain =>
    -- no body marks the block, for those that are open were opened before it
    have shape : shapes[index]? = some .plain := by
      refine given.unmarked index (Nat.le_refl _) inside fun h => ?_
      rcases within index (by simpa using h) with h | h
      · exact Nat.lt_irrefl _ (before _ h)
      · omega
    exact ⟨finishes.prepend (.single shape), .plain, shape, plain⟩
  | @opener flow _ opens =>
    obtain ⟨c, closes, outer⟩ := finishes
    cases closes with
    | whole opener _ inner close =>
      exact ⟨outer.prepend (.body opener inner close (.nil _)), _, opener, rfl, opens,
        fun h => absurd rfl h⟩
    | split _ isIf opener first otherwise second close =>
      obtain rfl : flow = .ifThen := isIf
      exact ⟨outer.prepend (.split opener first otherwise second close (.nil _)), _, opener, rfl,
        opens, fun _ => rfl⟩
  | @otherwise o outer =>
    obtain ⟨c, closes, finishes⟩ := finishes
    cases closes with
    | whole opener otherwise inner close =>
      have shape := otherwise index rfl
      exact ⟨⟨c, .split rfl rfl opener (.nil _) shape inner close, finishes⟩, _, shape, rfl⟩
    | split unsplit _ _ _ _ _ _ => cases unsplit
  | @close b =>
    obtain ⟨opener, otherwise, close⟩ := given.body (b := ⟨b, index⟩) (by simp)
      (by simpa using nodup) fun x hx => Nat.lt_of_le_of_lt (past x (by simpa using hx)) inside
    exact ⟨⟨index, .whole opener otherwise (.nil _) close, finishes⟩, _, close, rfl⟩

/-- **What is left of a chain finishes the bodies that are open.** -/
theorem Body.finishes_of_scan {flows : List (Option Flow)} {index : Nat} {stack : List OpenBody}
    {bodies : List Body} (h : scan index stack flows = .ok bodies)
    (length : shapes.length = index + flows.length)
    (distinct : (stack.flatMap OpenBody.marks).Nodup)
    (before : ∀ x ∈ stack.flatMap OpenBody.marks, x < index)
    (given : GivenBy shapes bodies index) :
    Finishes shapes index stack ∧
      ∀ k part, flows[k]? = some part →
        ∃ shape, shapes[index + k]? = some shape ∧ shape.Suits part := by
  induction flows generalizing index stack bodies with
  | nil =>
    obtain ⟨rfl, rfl⟩ := scan_nil h
    refine ⟨?_, fun k part hk => by cases hk⟩
    show Closed shapes index shapes.length
    rw [length]
    exact .nil index
  | cons flow rest ih =>
    obtain ⟨after, closed, later, met, hs, rfl⟩ := scan_cons h
    obtain ⟨nodup, old⟩ := met.marks_distinct distinct before
    obtain ⟨nodup_after, lt⟩ := met.after_before distinct before
    obtain ⟨-, within⟩ := scan_marks hs nodup_after lt
    rw [List.length_cons] at length
    have past (x : Nat) (hx : x ∈ closed.toList.flatMap marks) : x ≤ index := by
      rcases old x (List.mem_append_left _ hx) with h | h
      · exact Nat.le_of_lt (before x h)
      · exact Nat.le_of_eq h
    obtain ⟨finishes, suits⟩ := ih hs (by omega) nodup_after lt (given.later past)
    obtain ⟨here, placed⟩ :=
      met.finishes given (by omega) before (List.nodup_append.mp nodup).1 past
      (fun x hx => (within x hx).imp_right And.left) finishes
    refine ⟨here, fun k part hk => ?_⟩
    cases k with
    | zero =>
      obtain rfl : flow = part := by simpa using hk
      exact placed
    | succ k =>
      obtain ⟨shape, hshape, hsuits⟩ := suits k part (by simpa using hk)
      exact ⟨shape, by rw [← hshape]; congr 1; omega, hsuits⟩

/-! ## Chains -/

/-- The bodies of a chain give the shapes of its blocks. -/
theorem givenBy_of_shapesOfFlows {flows : List (Option Flow)}
    (h : shapesOfFlows flows = .ok shapes) :
    ∃ bodies, Body.scan 0 [] flows = .ok bodies ∧ shapes.length = flows.length ∧
      GivenBy shapes bodies 0 := by
  unfold shapesOfFlows at h
  cases hs : Body.scan 0 [] flows with
  | error e => rw [hs] at h; cases h
  | ok bodies =>
    rw [hs] at h
    cases h
    have distinct := (Body.scan_marks hs (by simp) (by simp)).1
    refine ⟨bodies, rfl, by simp, ⟨fun b mem x hx lt => ?_, fun x _ lt free => ?_⟩⟩
    · simp only [List.length_map, List.length_range] at lt
      rw [List.getElem?_map, List.getElem?_range lt, Option.map_some,
        Body.findSome?_shape? distinct mem hx]
      obtain ⟨shape, hshape⟩ := Option.isSome_iff_exists.mp (Body.shape?_isSome hx)
      rw [hshape]
      rfl
    · simp only [List.length_map, List.length_range] at lt
      simp [Body.findSome?_shape?_eq_none free, lt]

/-- **The blocks of a chain that has shapes are closed,** and every shape suits the part that its
block plays. -/
theorem shapes_closed {flows : List (Option Flow)} (h : shapesOfFlows flows = .ok shapes) :
    shapes.length = flows.length ∧ Closed shapes 0 shapes.length ∧
      ∀ (k : Nat) (part : Option Flow), flows[k]? = some part →
        ∃ shape : Shape, shapes[k]? = some shape ∧ shape.Suits part := by
  obtain ⟨bodies, hs, length, given⟩ := givenBy_of_shapesOfFlows h
  obtain ⟨closed, suits⟩ := Body.finishes_of_scan hs (by omega) (by simp) (by simp) given
  exact ⟨length, closed, fun k part hk => by simpa using suits k part hk⟩

end Blockwork
