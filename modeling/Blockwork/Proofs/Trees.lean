import Blockwork.Proofs.Bodies
import Blockwork.Program

/-!
# Chains as trees

A chain that has shapes is read as a tree: an opener with its body, or with the two bodies around
its else, and between bodies the blocks that open none. The reading follows the shapes alone, from
an opener to the indices that the shape names.

## Main statements

* `Tree.blocks_read`: the reading of a closed row has each block of the row once, in order.
* `Tree.read_append`: rows that follow each other are read one after the other.
* `Tree.rowReads_read`: what the reading of a closed row is made of.
-/

namespace Blockwork

/-- A block of a chain with the bodies that it opens. -/
inductive Tree where
  | plain (index : Nat)
  | body (opener : Nat) (inner : List Tree) (close : Nat)
  | split (opener : Nat) (first : List Tree) (otherwise : Nat) (second : List Tree) (close : Nat)

namespace Tree

/-- The block itself. -/
def index : Tree → Nat
  | plain index => index
  | body opener _ _ => opener
  | split opener _ _ _ _ => opener

mutual

/-- How deep bodies are nested in a block. -/
def height : Tree → Nat
  | plain _ => 0
  | body _ inner _ => 1 + depth inner
  | split _ first _ second _ => 1 + max (depth first) (depth second)

/-- How deep bodies are nested in a row. -/
def depth : List Tree → Nat
  | [] => 0
  | t :: rest => max t.height (depth rest)

end

mutual

/-- A block and those of its bodies, in the order of the chain. -/
def parts : Tree → List Nat
  | plain index => [index]
  | body opener inner close => opener :: (blocks inner ++ [close])
  | split opener first otherwise second close =>
    opener :: (blocks first ++ otherwise :: (blocks second ++ [close]))

/-- The blocks of a row, in the order of the chain. -/
def blocks : List Tree → List Nat
  | [] => []
  | t :: rest => t.parts ++ blocks rest

end

/-- Reads the blocks from one index to another. -/
def read (shapes : List Shape) (first stop : Nat) : List Tree :=
  if first < stop then
    match shapes[first]? with
    | some (.opener _ none close) =>
      if first < close ∧ close < stop then
        .body first (read shapes (first + 1) close) close :: read shapes (close + 1) stop
      else []
    | some (.opener _ (some middle) close) =>
      if first < middle ∧ middle < close ∧ close < stop then
        .split first (read shapes (first + 1) middle) middle (read shapes (middle + 1) close)
            close ::
          read shapes (close + 1) stop
      else []
    | _ => .plain first :: read shapes (first + 1) stop
  else []
termination_by stop - first

end Tree

/-- A chain as trees. A chain without shapes has none. -/
def Chain.trees (c : Chain) (r : Registry) : List Tree :=
  match c.shapes r with
  | .ok shapes => Tree.read shapes 0 shapes.length
  | .error _ => []

/-- How deep bodies are nested in the chains of a program. -/
def Program.nesting (p : Program) : Nat :=
  (p.chains.map fun c => Tree.depth (c.trees p.definitions)).foldr max 0

namespace Tree

/-! ## Reading a closed row -/

variable {shapes : List Shape} {i j k c s : Nat} {flow : Flow}

theorem read_self : read shapes i i = [] := by
  rw [read, if_neg (Nat.lt_irrefl _)]

theorem read_plain (shape : shapes[i]? = some .plain) (lt : i < j) :
    read shapes i j = .plain i :: read shapes (i + 1) j := by
  rw [read, if_pos lt, shape]

theorem read_body (shape : shapes[i]? = some (.opener flow none c)) (lt : i < c) (inside : c < j) :
    read shapes i j = .body i (read shapes (i + 1) c) c :: read shapes (c + 1) j := by
  rw [read, if_pos (by omega), shape]
  exact if_pos ⟨lt, inside⟩

theorem read_split (shape : shapes[i]? = some (.opener flow (some s) c)) (lt : i < s) (le : s < c)
    (inside : c < j) :
    read shapes i j = .split i (read shapes (i + 1) s) s (read shapes (s + 1) c) c ::
      read shapes (c + 1) j := by
  rw [read, if_pos (by omega), shape]
  exact if_pos ⟨lt, le, inside⟩

theorem depth_append (t u : List Tree) : depth (t ++ u) = max (depth t) (depth u) := by
  induction t with
  | nil => simp [depth]
  | cons _ _ ih => simp only [List.cons_append, depth, ih, Nat.max_assoc]

/-- **The reading of a closed row has each of its blocks once, in order.** -/
theorem blocks_read (h : Closed shapes i j) : blocks (read shapes i j) = List.range' i (j - i) := by
  induction h with
  | nil => rw [read_self, Nat.sub_self]; rfl
  | @plain i j shape rest ih =>
    have := rest.le
    rw [read_plain shape (by omega), blocks, parts, ih, show j - i = j - (i + 1) + 1 by omega,
      List.range'_succ]
    rfl
  | @body i c j _ shape inner _ rest ih ih' =>
    have := inner.le
    have := rest.le
    rw [read_body shape (by omega) (by omega), blocks, parts, ih, ih',
      show j - i = (c - (i + 1)) + (j - (c + 1) + 1) + 1 by omega, List.range'_succ,
      ← List.range'_append_1, show i + 1 + (c - (i + 1)) = c by omega, List.range'_succ]
    simp
  | @split i s c j shape first _ second _ rest ih₁ ih₂ ih₃ =>
    have := first.le
    have := second.le
    have := rest.le
    rw [read_split shape (by omega) (by omega) (by omega), blocks, parts, ih₁, ih₂, ih₃,
      show j - i = (s - (i + 1)) + ((c - (s + 1)) + (j - (c + 1) + 1) + 1) + 1 by omega,
      List.range'_succ, ← List.range'_append_1, show i + 1 + (s - (i + 1)) = s by omega,
      List.range'_succ, ← List.range'_append_1, show s + 1 + (c - (s + 1)) = c by omega,
      List.range'_succ]
    simp

/-- Rows that follow each other are read one after the other. -/
theorem read_append (h : Closed shapes i j) (next : Closed shapes j k) :
    read shapes i k = read shapes i j ++ read shapes j k := by
  induction h with
  | nil => rw [read_self, List.nil_append]
  | plain shape rest ih =>
    have := rest.le
    have := next.le
    rw [read_plain shape (by omega), read_plain shape (by omega), ih next, List.cons_append]
  | body shape inner _ rest _ ih =>
    have := inner.le
    have := rest.le
    have := next.le
    rw [read_body shape (by omega) (by omega), read_body shape (by omega) (by omega), ih next,
      List.cons_append]
  | split shape first _ second _ rest _ _ ih =>
    have := first.le
    have := second.le
    have := rest.le
    have := next.le
    rw [read_split shape (by omega) (by omega) (by omega),
      read_split shape (by omega) (by omega) (by omega), ih next, List.cons_append]

/-! ## Trees of closed rows -/

mutual

/-- A tree is what the blocks from one index to another are read as. -/
inductive Reads (shapes : List Shape) : Tree → Nat → Nat → Prop where
  | plain {i : Nat} (shape : shapes[i]? = some .plain) : Reads shapes (.plain i) i (i + 1)
  | body {i c : Nat} {flow : Flow} {inner : List Tree}
      (opener : shapes[i]? = some (.opener flow none c))
      (inside : RowReads shapes inner (i + 1) c) :
      Reads shapes (.body i inner c) i (c + 1)
  | split {i s c : Nat} {first second : List Tree}
      (opener : shapes[i]? = some (.opener .ifThen (some s) c))
      (inFirst : RowReads shapes first (i + 1) s) (inSecond : RowReads shapes second (s + 1) c) :
      Reads shapes (.split i first s second c) i (c + 1)

/-- Trees are what the blocks from one index to another are read as. -/
inductive RowReads (shapes : List Shape) : List Tree → Nat → Nat → Prop where
  | nil {i : Nat} : RowReads shapes [] i i
  | cons {t : Tree} {rest : List Tree} {i k j : Nat} (lt : i < j) (head : Reads shapes t i k)
      (tail : RowReads shapes rest k j) : RowReads shapes (t :: rest) i j

end

/-- **A closed row is read as its trees.** -/
theorem rowReads_read (h : Closed shapes i j) : RowReads shapes (read shapes i j) i j := by
  induction h with
  | nil => rw [read_self]; exact .nil
  | plain shape rest ih =>
    have := rest.le
    rw [read_plain shape (by omega)]
    exact .cons (by omega) (.plain shape) ih
  | body shape inner _ rest ih ih' =>
    have := inner.le
    have := rest.le
    rw [read_body shape (by omega) (by omega)]
    exact .cons (by omega) (.body shape ih) ih'
  | split shape first _ second _ rest ih₁ ih₂ ih₃ =>
    have := first.le
    have := second.le
    have := rest.le
    rw [read_split shape (by omega) (by omega) (by omega)]
    exact .cons (by omega) (.split shape ih₁ ih₂) ih₃

end Tree

end Blockwork
