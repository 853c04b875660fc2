/-!
# Diagnostics

A diagnostic is a message about a text. It may mark a part of the text, and it may have notes.
-/

namespace Blockwork

/-- A marked part of a text: the bytes from `start` up to `stop`. -/
structure Label where
  start : Nat
  stop : Nat
  message : String
deriving DecidableEq, Repr

/-- A message about a text. -/
structure Diagnostic where
  message : String
  label : Option Label
  notes : List String
deriving DecidableEq, Repr

end Blockwork
