import Blockwork.Definition
import Blockwork.Json.Record

/-!
# Definitions in JSON

Slots and behaviors are records of several kinds; the kind of a slot is told by its member `kind`,
that of a behavior by its member `type`. Everything is written, also what could be left out.
-/

namespace Blockwork

namespace Color

/-- A color in JSON. -/
def toJson (c : Color) : Json :=
  .record [("r", .nat c.red.toNat), ("g", .nat c.green.toNat), ("b", .nat c.blue.toNat),
    ("a", .nat c.alpha.toNat)]

/-- A component of a color. -/
def component (j : Json) : Except Fault UInt8 := (j.asNat 256).map UInt8.ofNat

/-- Reads a color, which is not transparent unless it says so. -/
def ofJson : Json → Except Fault Color :=
  Json.readRecord ["r", "g", "b", "a"] fun m =>
    Color.mk <$> m.required "r" component <*> m.required "g" component <*>
      m.required "b" component <*> m.field "a" 255 component

end Color

namespace Slot

/-- A slot in JSON. -/
def toJson : Slot → Json
  | .text label => .record [("kind", .text "text"), ("text", .text label)]
  | .image asset => .record [("kind", .text "image"), ("image", .text asset)]
  | .argument name => .record [("kind", .text "argument"), ("name", .text name)]
  | .dropdown name choices =>
    .record [("kind", .text "dropdown"), ("name", .text name),
      ("choices", .list (choices.map .text))]
  | .definitionEditor => .record [("kind", .text "definition_editor")]

/-- The kinds of slots. -/
def kinds : List (Json.Kind Slot) :=
  [⟨"text", ["text"], fun m => .text <$> m.required "text" Json.asText⟩,
    ⟨"image", ["image"], fun m => .image <$> m.required "image" Json.asText⟩,
    ⟨"argument", ["name"], fun m => .argument <$> m.required "name" Json.asText⟩,
    ⟨"dropdown", ["name", "choices"], fun m =>
      .dropdown <$> m.required "name" Json.asText <*>
        m.required "choices" (Json.asList Json.asText)⟩,
    ⟨"definition_editor", [], fun _ => pure .definitionEditor⟩]

/-- Reads a slot. -/
def ofJson : Json → Except Fault Slot := Json.readTagged "kind" kinds

end Slot

namespace Flow

/-- The part with a name, as its fault says when there is none. -/
def named (name : String) : Except Fault Flow :=
  match ofName? name with
  | some flow => .ok flow
  | none => .error .mismatch

/-- Reads a part: its name, or an object with its name alone, over nothing. -/
def ofJson : Json → Except Fault Flow
  | .text name => named name
  | .record [(name, .null)] => named name
  | .record [(name, .record [])] => named name
  | j => .error j.unwanted

end Flow

namespace Behavior

/-- A behavior in JSON. -/
def toJson : Behavior → Json
  | .control flow => .record [("type", .text "control"), ("flow", .text flow.name)]
  | .native name => .record [("type", .text "native"), ("name", .text name)]
  | .procedure body =>
    .record [("type", .text "procedure"),
      ("body", (body.map fun id => Json.nat id.toNat).getD .null)]

/-- Reads the number of a chain. -/
def chainId (j : Json) : Except Fault ChainId := (j.asNat UInt32.size).map UInt32.ofNat

/-- The kinds of behaviors. -/
def kinds : List (Json.Kind Behavior) :=
  [⟨"control", ["flow"], fun m => .control <$> m.required "flow" Flow.ofJson⟩,
    ⟨"native", ["name"], fun m => .native <$> m.required "name" Json.asText⟩,
    ⟨"procedure", ["body"], fun m =>
      .procedure <$> m.field "body" none (Json.asOption chainId)⟩]

/-- Reads a behavior. -/
def ofJson : Json → Except Fault Behavior := Json.readTagged "type" kinds

end Behavior

namespace Definition

/-- A definition in JSON. -/
def toJson (d : Definition) : Json :=
  .record [("id", .text d.id), ("category", .text d.category), ("color", d.color.toJson),
    ("slots", .list (d.slots.map Slot.toJson)), ("behavior", d.behavior.toJson)]

/-- Reads a definition. -/
def ofJson : Json → Except Fault Definition :=
  Json.readRecord ["id", "category", "color", "slots", "behavior"] fun m =>
    Definition.mk <$> m.required "id" Json.asText <*> m.field "category" "" Json.asText <*>
      m.field "color" .gray Color.ofJson <*> m.required "slots" (Json.asList Slot.ofJson) <*>
      m.required "behavior" Behavior.ofJson

end Definition

end Blockwork
