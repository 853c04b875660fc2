import Blockwork.Block

/-!
# Chains

A chain is a row of blocks, run from first to last. It has a number and a place on the canvas.
-/

namespace Blockwork

/-- A place on the canvas. -/
structure Position where
  x : Float32
  y : Float32

/-- A row of blocks. -/
structure Chain where
  id : ChainId
  position : Position
  blocks : List Block

/-- The text that shows the number of a chain. -/
def ChainId.display (id : ChainId) : String := "chain " ++ toString id.toNat

namespace Chain

/-- Where a chain is put that is not put anywhere else. -/
def origin : Position := ⟨0, 0⟩

/-- The first block. -/
def head? (c : Chain) : Option Block := c.blocks.head?

/-- Puts a block at the end. -/
def push (c : Chain) (b : Block) : Chain := { c with blocks := c.blocks ++ [b] }

/-- Puts a block at an index, or at the end if the chain is shorter. -/
def insert (c : Chain) (index : Nat) (b : Block) : Chain :=
  { c with blocks := c.blocks.insertIdx (min index c.blocks.length) b }

/-- Takes out the block at an index. -/
def remove (c : Chain) (index : Nat) : Option (Block × Chain) :=
  (c.blocks[index]?).map fun b => (b, { c with blocks := c.blocks.eraseIdx index })

/-- The block at a path. -/
def at? (c : Chain) (path : BlockPath) : Option Block :=
  (c.blocks[path.index]?).bind (Block.descend path.slots)

/-- Changes the block at a path. -/
def edit {α : Type} (c : Chain) (path : BlockPath) (change : Block → α × Block) :
    Option (α × Chain) := do
  let (a, b) ← Block.edit change path.slots (← c.blocks[path.index]?)
  return (a, { c with blocks := c.blocks.set path.index b })

end Chain

end Blockwork
