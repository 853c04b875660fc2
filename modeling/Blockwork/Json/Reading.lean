import Blockwork.Json.Token

/-!
# JSON texts as trees

The tokens of a text are put together by a machine with a stack of open containers, one token at a
time. Where a token cannot stand, or where the text ends too early, all open containers are closed
at once and the place is marked in the tree.
-/

namespace Blockwork

/-- How deep containers may be nested. -/
def Json.depthLimit : Nat := 127

/-- A container whose end has not been read. What it holds so far is in reverse. -/
inductive OpenJson where
  | array (items : List Json)
  /-- The key belongs to the member that is being read. -/
  | object (members : List (String × Json)) (key : String)

/-- What may come next. -/
inductive JsonPlace where
  /-- A value, or, right after the beginning of an array, its end. -/
  | value (orEnd : Bool)
  /-- A comma, or the end of the innermost container. -/
  | separator
  /-- A key, or, right after the beginning of an object, its end. -/
  | key (orEnd : Bool)
  | colon

/-- A text: its value, and whether anything follows the value. -/
structure JsonDocument where
  value : Json
  trailing : Bool

namespace JsonDocument

/-- A container as a value of the given nesting. -/
def nested (depth : Nat) (j : Json) : Json := if depth < Json.depthLimit then j else .tooDeep j

/-- Closes every open container around the last value. -/
def closeAll (fault : Fault) (value : Json) : List OpenJson → Json
  | [] => value
  | .array items :: outer =>
    closeAll fault (nested outer.length (.array (value :: items).reverse (some fault))) outer
  | .object members key :: outer =>
    closeAll fault (nested outer.length (.object ((key, value) :: members).reverse (some fault)))
      outer

/-- The tree of a text that goes wrong at the given place. After a comma the fault stands for the
next item or member. -/
def cutShort (fault : Fault) (place : JsonPlace) : List OpenJson → JsonDocument
  | [] => ⟨.broken fault, false⟩
  | .array items :: outer =>
    let items :=
      match place with
      | .value false => Json.broken fault :: items
      | _ => items
    ⟨closeAll fault (nested outer.length (.array items.reverse (some fault))) outer, false⟩
  | .object members key :: outer =>
    let members :=
      match place with
      | .value _ | .colon => (key, Json.broken fault) :: members
      | .key false => ("", Json.broken fault) :: members
      | _ => members
    ⟨closeAll fault (nested outer.length (.object members.reverse (some fault))) outer, false⟩

/-- Puts a finished value where it belongs: the open containers that are left, or the value of the
whole text. -/
def place (value : Json) : List OpenJson → Json ⊕ List OpenJson
  | [] => .inl value
  | .array items :: outer => .inr (.array (value :: items) :: outer)
  | .object members key :: outer => .inr (.object ((key, value) :: members) key :: outer)

/-- The fault of a token at a place where it cannot stand. -/
def faultAt : JsonPlace → JsonToken → Fault
  | .value _, .bad fault => fault
  | .value _, .badText fault => fault
  | .key _, .badText fault => fault
  | _, _ => .malformed

/-- Where a text stands after a finished value: at its end, or before a separator. `more` says
whether anything follows. -/
def finish (value : Json) (stack : List OpenJson) (more : Bool) :
    JsonDocument ⊕ (List OpenJson × JsonPlace) :=
  match place value stack with
  | .inl value => .inl ⟨value, more⟩
  | .inr stack => .inr (stack, .separator)

/-- Where a text stands after a token. `more` says whether anything follows. -/
def take (stack : List OpenJson) (at_ : JsonPlace) (token : JsonToken) (more : Bool) :
    JsonDocument ⊕ (List OpenJson × JsonPlace) :=
  match at_, token, stack with
  | .value _, .scalar value, stack => finish value stack more
  | .value _, .text content, stack =>
    finish ((content.map Json.text).getD .meaningless) stack more
  | .value _, .beginArray, stack => .inr (.array [] :: stack, .value true)
  | .value _, .beginObject, stack => .inr (.object [] "" :: stack, .key true)
  | .value true, .endArray, .array items :: outer =>
    finish (nested outer.length (.list items.reverse)) outer more
  | .separator, .comma, .array items :: outer => .inr (.array items :: outer, .value false)
  | .separator, .endArray, .array items :: outer =>
    finish (nested outer.length (.list items.reverse)) outer more
  | .separator, .comma, .object members key :: outer =>
    .inr (.object members key :: outer, .key false)
  | .separator, .endObject, .object members _ :: outer =>
    finish (nested outer.length (.record members.reverse)) outer more
  | .key _, .text (some key), .object members _ :: outer =>
    .inr (.object members key :: outer, .colon)
  | .key true, .endObject, .object members _ :: outer =>
    finish (nested outer.length (.record members.reverse)) outer more
  | .colon, .colon, stack => .inr (stack, .value false)
  | at_, token, stack => .inl (cutShort (faultAt at_ token) at_ stack)

/-- Puts the tokens together. -/
def build (stack : List OpenJson) (at_ : JsonPlace) : List JsonToken → JsonDocument
  | [] => cutShort .truncated at_ stack
  | token :: rest =>
    match take stack at_ token !rest.isEmpty with
    | .inl document => document
    | .inr (stack, at_) => build stack at_ rest

end JsonDocument

/-- The tree of a text. -/
def Json.parse (text : String) : JsonDocument :=
  JsonDocument.build [] (.value false) (jsonTokens text)

/-- Reads a whole text: its value first, then nothing more. -/
def JsonDocument.read {α : Type} (d : JsonDocument) (f : Json → Except Fault α) : Except Fault α :=
  match f d.value with
  | .error fault => .error fault
  | .ok a => if d.trailing then .error .malformed else .ok a

end Blockwork
