import Blockwork.Definition

/-!
# The standard definitions

The blocks that every program starts with: those that direct a run, the operators, the variables
and the terminal.
-/

namespace Blockwork

namespace Builtins

/-- A block that directs a run. -/
def control (id : String) (flow : Flow) (slots : List Slot) : Definition :=
  ⟨id, "control", .solid 0xff 0x99 0x00, slots, .control flow⟩

/-- A block done by the native function of its own name. -/
def native (category : String) (color : Color) (id : String) (slots : List Slot) : Definition :=
  ⟨id, category, color, slots, .native id⟩

/-- A block that computes. -/
def operator : String → List Slot → Definition := native "operators" (.solid 0x59 0xc0 0x59)

/-- A block that computes from two arguments around a sign. -/
def binary (id sign : String) : Definition :=
  operator id [.argument "a", .text sign, .argument "b"]

/-- A block that uses variables. -/
def data : String → List Slot → Definition := native "data" (.solid 0xff 0x8c 0x1a)

/-- The blocks that direct a run. -/
def directing : List Definition :=
  [control "on_start" .onStart [.text "when run"],
    control "define" .defineProcedure [.text "define", .definitionEditor],
    control "repeat" .repeatTimes [.text "repeat", .argument "times"],
    control "repeat_until" .repeatUntil [.text "repeat until", .argument "condition"],
    control "forever" .forever [.text "forever"],
    control "if" .ifThen [.text "if", .argument "condition", .text "then"],
    control "else" .otherwise [.text "else"],
    control "end" .endBody [.text "end"],
    control "return" .giveBack [.text "return", .argument "value"]]

/-- The blocks that compute. -/
def operators : List Definition :=
  [binary "add" "+", binary "sub" "-", binary "mul" "*", binary "div" "/", binary "mod" "mod",
    binary "eq" "=", binary "lt" "<", binary "gt" ">", binary "and" "and", binary "or" "or",
    operator "not" [.text "not", .argument "value"],
    operator "join" [.text "join", .argument "a", .argument "b"],
    operator "length" [.text "length of", .argument "text"],
    operator "math"
      [.dropdown "operation" ["abs", "floor", "ceil", "round", "sqrt"], .text "of",
        .argument "value"]]

/-- The blocks that use variables. -/
def storing : List Definition :=
  [data "declare_var" [.text "local", .argument "name", .text "=", .argument "value"],
    data "set_var" [.text "set", .argument "name", .text "=", .argument "value"],
    data "change_var" [.text "change", .argument "name", .text "by", .argument "delta"],
    data "get_var" [.argument "name"]]

/-- The blocks that act on the world. -/
def acting : List Definition :=
  [native "terminal" (.solid 0xaa 0xaa 0xaa) "print" [.text "print", .argument "value"],
    native "control" (.solid 0xff 0x99 0x00) "wait" [.text "wait", .argument "seconds", .text "s"]]

/-- All standard definitions. -/
def all : List Definition := directing ++ operators ++ storing ++ acting

end Builtins

end Blockwork
