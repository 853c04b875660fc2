import Blockwork.Block.Format
import Blockwork.Chain

/-!
# Chains in JSON

The coordinates of a chain are 32-bit numbers; a number of the text is rounded to the nearest one.
-/

namespace Blockwork

namespace Position

/-- A place in JSON. -/
def toJson (p : Position) : Json :=
  .record [("x", .number (.single p.x)), ("y", .number (.single p.y))]

/-- Reads a place. -/
def ofJson : Json → Except Fault Position :=
  Json.readRecord ["x", "y"] fun m =>
    Position.mk <$> m.required "x" Json.asSingle <*> m.required "y" Json.asSingle

end Position

namespace Chain

/-- A chain in JSON. -/
def toJson (c : Chain) : Json :=
  .record [("id", .nat c.id.toNat), ("position", c.position.toJson),
    ("blocks", .list (c.blocks.map Block.toJson))]

/-- Reads a chain. -/
def ofJson : Json → Except Fault Chain :=
  Json.readRecord ["id", "position", "blocks"] fun m =>
    Chain.mk <$> m.required "id" Behavior.chainId <*>
      m.field "position" origin Position.ofJson <*>
      m.required "blocks" (Json.asList Block.ofJson)

end Chain

end Blockwork
