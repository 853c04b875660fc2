/-!
# Definitions of blocks

A definition says how a block looks (its slots), what it is for (its category and color) and what
it does (its behavior). The slots that take an argument are the value slots; the arguments of a
block belong to the value slots in order.
-/

namespace Blockwork

/-- The number of a chain. -/
abbrev ChainId : Type := UInt32

/-- A color. -/
structure Color where
  red : UInt8
  green : UInt8
  blue : UInt8
  alpha : UInt8
deriving DecidableEq, Repr

namespace Color

/-- A color that is not transparent. -/
def solid (red green blue : UInt8) : Color := ⟨red, green, blue, 255⟩

/-- The color of a definition that names none. -/
def gray : Color := solid 0x88 0x88 0x88

end Color

/-- A part of the look of a block. -/
inductive Slot where
  /-- A label. -/
  | text (label : String)
  | image (asset : String)
  /-- A place for a value or for a block that gives one. -/
  | argument (name : String)
  /-- A place for one of the choices. -/
  | dropdown (name : String) (choices : List String)
  /-- A place for the definition of a procedure. -/
  | definitionEditor
deriving DecidableEq, Repr

namespace Slot

/-- Whether an argument belongs to the slot. -/
def isValueSlot : Slot → Bool
  | .argument _ | .dropdown .. | .definitionEditor => true
  | .text _ | .image _ => false

/-- The name of a slot that has one. -/
def name? : Slot → Option String
  | .argument name | .dropdown name _ => some name
  | _ => none

end Slot

/-- The part a control block plays in a chain. -/
inductive Flow where
  | onStart
  | defineProcedure
  | repeatTimes
  | repeatUntil
  | forever
  | ifThen
  | otherwise
  | endBody
  | giveBack
deriving DecidableEq, Repr

namespace Flow

/-- The name of a part. -/
def name : Flow → String
  | .onStart => "on_start"
  | .defineProcedure => "define_procedure"
  | .repeatTimes => "repeat"
  | .repeatUntil => "repeat_until"
  | .forever => "forever"
  | .ifThen => "if"
  | .otherwise => "else"
  | .endBody => "end"
  | .giveBack => "return"

/-- The part with a name. -/
def ofName? (name : String) : Option Flow :=
  [onStart, defineProcedure, repeatTimes, repeatUntil, forever, ifThen, otherwise, endBody,
    giveBack].find? fun f => f.name = name

/-- Whether the block opens a body that an end closes. -/
def opensBody : Flow → Bool
  | .repeatTimes | .repeatUntil | .forever | .ifThen => true
  | _ => false

/-- Whether the block can only begin a chain. -/
def isHat : Flow → Bool
  | .onStart | .defineProcedure => true
  | _ => false

end Flow

/-- What a block does. -/
inductive Behavior where
  | control (flow : Flow)
  /-- Done by a native function. -/
  | native (name : String)
  /-- Done by a chain, once it is recorded. -/
  | procedure (body : Option ChainId)
deriving DecidableEq, Repr

/-- The kinds of behavior. -/
inductive BehaviorKind where
  | control
  | native
  | procedure
deriving DecidableEq, Repr

/-- The name of a kind. -/
def BehaviorKind.name : BehaviorKind → String
  | .control => "control"
  | .native => "native"
  | .procedure => "procedure"

namespace Behavior

/-- The kind of a behavior. -/
def kind : Behavior → BehaviorKind
  | .control _ => .control
  | .native _ => .native
  | .procedure _ => .procedure

/-- The part of a control block. -/
def flow? : Behavior → Option Flow
  | .control flow => some flow
  | _ => none

/-- The body of a procedure that has one. -/
def body? : Behavior → Option ChainId
  | .procedure body => body
  | _ => none

end Behavior

/-- The definition of a block. -/
structure Definition where
  id : String
  category : String
  color : Color
  slots : List Slot
  behavior : Behavior
deriving DecidableEq, Repr

namespace Definition

/-- The slots that take an argument. -/
def valueSlots (d : Definition) : List Slot := d.slots.filter Slot.isValueSlot

/-- How many arguments a block takes. -/
def arity (d : Definition) : Nat := d.valueSlots.length

/-- The names of the value slots that have one. -/
def parameterNames (d : Definition) : List String := d.valueSlots.filterMap Slot.name?

end Definition

end Blockwork
