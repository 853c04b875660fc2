import Blockwork.Native
import Blockwork.Number.Binary
import Blockwork.Value.Order

/-!
# The standard native functions

What the standard blocks do that direct no run: the operators, the variables, printing and waiting.
Arguments are looked at from left to right, and the first that is missing or of the wrong kind
decides how the function fails.
-/

namespace Blockwork

/-- The number a value stands for. -/
def Value.expectNumber (v : Value) : Except RunError Float :=
  match v.toNumber? with
  | some x => .ok x
  | none => .error (.typeMismatch "Number" (v.typeName ++ " '" ++ v.display ++ "'"))

namespace Native

/-! ## Kinds of functions -/

/-- An argument. -/
def argument (arguments : List Value) (index : Nat) : Except RunError Value :=
  match arguments[index]? with
  | some v => .ok v
  | none => .error (.missingArgument index)

/-- An argument as a number. -/
def numberArgument (arguments : List Value) (index : Nat) : Except RunError Float := do
  (← argument arguments index).expectNumber

/-- A function that leaves its surroundings alone. -/
def pure (f : List Value → Except RunError Value) : Native := fun s arguments =>
  match f arguments with
  | .ok v => (.returned (some v), s)
  | .error e => (.failed e, s)

/-- A function of two numbers. -/
def arithmetic (f : Float → Float → Except RunError Float) : Native := pure fun arguments => do
  let a ← numberArgument arguments 0
  let b ← numberArgument arguments 1
  return .number (← f a b)

/-- A comparison. -/
def comparison (f : Ordering → Bool) : Native := pure fun arguments => do
  let a ← argument arguments 0
  let b ← argument arguments 1
  return .boolean (f (a.compareLoosely b))

/-! ## Operators -/

/-- Division. -/
def divide (a b : Float) : Except RunError Float :=
  if b == 0 then .error (.arithmetic "division by zero") else .ok (a / b)

/-- The rest of a division, with the sign of the divisor. -/
def modulo (a b : Float) : Except RunError Float :=
  if b == 0 then .error (.arithmetic "modulo by zero")
  else .ok (a - b * (Binary.ofFloat (a / b)).floor.toFloat)

/-- Whether both arguments are true. The second is not looked at if the first is not. -/
def both (arguments : List Value) : Except RunError Value := do
  if (← argument arguments 0).isTruthy then
    return .boolean (← argument arguments 1).isTruthy
  else return .boolean false

/-- Whether one of the arguments is true. The second is not looked at if the first is. -/
def either (arguments : List Value) : Except RunError Value := do
  if (← argument arguments 0).isTruthy then return .boolean true
  else return .boolean (← argument arguments 1).isTruthy

/-- Whether the argument is not true. -/
def negation (arguments : List Value) : Except RunError Value := do
  return .boolean !(← argument arguments 0).isTruthy

/-- Both arguments as one text. -/
def join (arguments : List Value) : Except RunError Value := do
  let a ← argument arguments 0
  let b ← argument arguments 1
  return .text (a.display ++ b.display)

/-- How many characters show the argument. -/
def length (arguments : List Value) : Except RunError Value := do
  let a ← argument arguments 0
  return .number (Binary.ofNat a.display.length).toFloat

/-- The number without its sign. -/
def magnitude (x : Float) : Float := Float.ofBits (x.toBits &&& 0x7fffffffffffffff)

/-- The function of one number that has the given name. -/
def mathematics (name : String) (x : Float) : Except RunError Float :=
  match name with
  | "abs" => .ok (magnitude x)
  | "floor" => .ok (Binary.ofFloat x).floor.toFloat
  | "ceil" => .ok (Binary.ofFloat x).ceil.toFloat
  | "round" => .ok (Binary.ofFloat x).round.toFloat
  | "sqrt" =>
    if x < 0 then
      .error (.arithmetic ("square root of negative number " ++ (Value.number x).display))
    else .ok x.sqrt
  | name => .error (.arithmetic ("unknown math operation '" ++ name ++ "'"))

/-- A function of one number, named by the first argument. -/
def math (arguments : List Value) : Except RunError Value := do
  let name ← argument arguments 0
  let x ← numberArgument arguments 1
  return .number (← mathematics name.display x)

/-! ## Variables -/

/-- A function that gives a variable, named by the first argument, the second as its value. -/
def assignment (change : Environment → String → Value → Environment) : Native :=
  fun s arguments =>
    match argument arguments 0 with
    | .error e => (.failed e, s)
    | .ok name =>
      match argument arguments 1 with
      | .error e => (.failed e, s)
      | .ok value => (.returned none, { s with env := change s.env name.display value })

/-- Declares a variable. -/
def declareVariable : Native := assignment Environment.declare

/-- Sets a variable. -/
def setVariable : Native := assignment Environment.set

/-- Adds to a variable. -/
def changeVariable : Native := fun s arguments =>
  match argument arguments 0 with
  | .error e => (.failed e, s)
  | .ok name =>
    match s.env.get name.display with
    | .error e => (.failed e, s)
    | .ok value =>
      match value.expectNumber with
      | .error e => (.failed e, s)
      | .ok current =>
        match numberArgument arguments 1 with
        | .error e => (.failed e, s)
        | .ok delta =>
          (.returned none, { s with env := s.env.set name.display (.number (current + delta)) })

/-- The value of a variable. -/
def getVariable : Native := fun s arguments =>
  match argument arguments 0 with
  | .error e => (.failed e, s)
  | .ok name =>
    match s.env.get name.display with
    | .error e => (.failed e, s)
    | .ok value => (.returned (some value), s)

/-! ## Printing and waiting -/

/-- Prints a piece of text. -/
def printPiece (s : Surroundings) (piece : String) : Option RunError × Surroundings :=
  let (problem, output) := s.output.write piece
  (problem, { s with output := output })

/-- Prints a value and ends the line. What is printed before an error stays printed. -/
def print : Native := fun s arguments =>
  match argument arguments 0 with
  | .error e => (.failed e, s)
  | .ok value =>
    match printPiece s value.display with
    | (some e, s) => (.failed e, s)
    | (none, s) =>
      match printPiece s "\n" with
      | (some e, s) => (.failed e, s)
      | (none, s) => (.returned none, s)

/-- Waits some seconds, but not when a stop has been requested. -/
def pause : Native := fun s arguments =>
  match numberArgument arguments 0 with
  | .error e => (.failed e, s)
  | .ok seconds =>
    if 0 < seconds && !s.stop then (.waiting (.sleep seconds) none, s) else (.returned none, s)

/-- All standard functions. -/
def standard : NativeTable :=
  .ofList
    [("add", arithmetic fun a b => .ok (a + b)), ("sub", arithmetic fun a b => .ok (a - b)),
      ("mul", arithmetic fun a b => .ok (a * b)), ("div", arithmetic divide),
      ("mod", arithmetic modulo), ("eq", comparison fun o => o = .eq),
      ("lt", comparison fun o => o = .lt), ("gt", comparison fun o => o = .gt),
      ("and", pure both), ("or", pure either), ("not", pure negation), ("join", pure join),
      ("length", pure length), ("math", pure math), ("declare_var", declareVariable),
      ("set_var", setVariable), ("change_var", changeVariable), ("get_var", getVariable),
      ("print", print), ("wait", pause)]

end Native

end Blockwork
