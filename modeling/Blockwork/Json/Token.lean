import Blockwork.Json.Basic
import Blockwork.Number.Reading

/-!
# JSON tokens

A text is cut into tokens by an automaton that reads one character at a time, so the cutting is a
structural recursion on the text. The row of tokens ends at the first one that is not well formed.

## Numbers

The digits of a number are gathered into a significand as long as it fits 64 bits; what follows
only moves the exponent. A number without point or exponent that fits is a whole number. Any other
is the significand times a power of ten, each rounded once; a number beyond the range has no
meaning.
-/

namespace Blockwork

/-- A token of a JSON text. -/
inductive JsonToken where
  | beginArray
  | endArray
  | beginObject
  | endObject
  | comma
  | colon
  /-- A quoted text; `none` if it holds half a surrogate pair. -/
  | text (content : Option String)
  /-- A number, a truth value or null. -/
  | scalar (value : Json)
  /-- A quoted text that is not well formed. -/
  | badText (fault : Fault)
  /-- Anything else that is not well formed. -/
  | bad (fault : Fault)

namespace JsonNumber

/-- The digits that a 64-bit significand takes up, after those it holds already. -/
def absorb (significand : Nat) : List Char → Nat × List Char
  | [] => (significand, [])
  | c :: rest =>
    let next := 10 * significand + (c.toNat - '0'.toNat)
    if next < UInt64.size then absorb next rest else (significand, c :: rest)

/-- A power of ten, rounded once. -/
def tenTo (places : Nat) : Float := scaledFloat 1 places

/-- A division by a power of ten, in steps of at most 308 places. -/
def shrink (x : Float) (places : Nat) : Float :=
  if places ≤ 308 then x / tenTo places
  else if x == 0 then x
  else shrink (x / tenTo 308) (places - 308)
termination_by places

/-- `significand * 10 ^ exponent`, unless it is out of range. -/
def ofParts (significand : Nat) (exponent : Int) : Option Float :=
  let x := (Binary.ofNat significand).toFloat
  if exponent < 0 then some (shrink x exponent.natAbs)
  else if 308 < exponent then if x == 0 then some x else none
  else
    let y := x * tenTo exponent.natAbs
    if y.isInf then none else some y

/-- A number from its sign, its digits before and after the point, and its exponent. -/
def ofLexeme (negative : Bool) (whole : List Char) (fraction : Option (List Char))
    (exponent : Option Int) : Json :=
  let (significand, left) := absorb 0 whole
  if left.isEmpty && fraction.isNone && exponent.isNone then
    if !negative then .number (.integer significand)
    else if significand = 0 || Nat.pow 2 63 < significand then
      .number (.double (-(Binary.ofNat significand).toFloat))
    else .number (.integer (-significand))
  else
    let fraction := fraction.getD []
    let (significand, unread) := absorb significand fraction
    let places := exponent.getD 0 + left.length - (fraction.length - unread.length : Nat)
    match ofParts significand places with
    | some x => .number (.double (if negative then -x else x))
    | none => .meaningless

/-- The exponent after its mark. The error is what is left where a digit is wanted. -/
def readExponent (cs : List Char) : Except (List Char) (Int × List Char) :=
  let (negative, cs) := splitSign cs
  match splitDigits cs with
  | ([], rest) => .error rest
  | (digits, rest) =>
    .ok (if negative then -(digitsValue digits) else digitsValue digits, rest)

/-- What follows the digits before the point. -/
def readTail (negative : Bool) (whole cs : List Char) : Except (List Char) (Json × List Char) :=
  let withExponent (fraction : Option (List Char)) (cs : List Char) :=
    match cs with
    | c :: rest =>
      if c = 'e' || c = 'E' then
        (readExponent rest).map fun (e, rest) => (ofLexeme negative whole fraction (some e), rest)
      else .ok (ofLexeme negative whole fraction none, cs)
    | [] => .ok (ofLexeme negative whole fraction none, [])
  match cs with
  | '.' :: rest =>
    match splitDigits rest with
    | ([], rest) => .error rest
    | (fraction, rest) => withExponent (some fraction) rest
  | cs => withExponent none cs

/-- The number at the front of a row of characters, and what is left of the row.
The error is what is left where the number goes wrong. -/
def read (cs : List Char) : Except (List Char) (Json × List Char) :=
  let (negative, cs) :=
    match cs with
    | '-' :: rest => (true, rest)
    | cs => (false, cs)
  match cs with
  | '0' :: rest =>
    match rest with
    | c :: _ => if c.isDigit then .error rest else readTail negative ['0'] rest
    | [] => readTail negative ['0'] rest
  | cs =>
    match splitDigits cs with
    | ([], rest) => .error rest
    | (whole, rest) => readTail negative whole rest

end JsonNumber

/-- Where the reading of a quoted text stands. -/
inductive JsonEscape where
  | outside
  /-- After a backslash. -/
  | backslash
  /-- Inside `\uXXXX`: how many digits are missing, and the value of those read. -/
  | unicode (missing value : Nat)
deriving DecidableEq

/-- Where the automaton stands. -/
inductive JsonLexer where
  | ready
  /-- Inside a word, with the letters it still needs. -/
  | word (left : List Char) (value : Json)
  /-- Inside a number, its characters in reverse. -/
  | number (read : List Char)
  /-- Inside a quoted text: its characters in reverse, the first half of a surrogate pair that
  waits for the second, and whether the text has a meaning so far. -/
  | text (read : List Char) (escape : JsonEscape) (half : Option Nat) (sound : Bool)

namespace JsonLexer

/-- The tokens of a finished row of number characters, in reverse, and whether the row goes on.
`ended` says that the text ends with it. -/
def numberTokens (read : List Char) (ended : Bool) : List JsonToken × Bool :=
  match JsonNumber.read read.reverse with
  | .ok (value, []) => ([.scalar value], true)
  | .ok (value, _ :: _) => ([.bad .malformed, .scalar value], false)
  | .error rest =>
    ([.bad (if rest.isEmpty && ended then .truncated else .malformed)], false)

/-- Whether a character can be part of a number. -/
def inNumber (c : Char) : Bool :=
  c.isDigit || c = '-' || c = '+' || c = '.' || c = 'e' || c = 'E'

/-- What a character does between tokens: a token or none, and where the automaton stands. -/
def start (c : Char) : Option (List JsonToken × JsonLexer) :=
  match c with
  | ' ' | '\n' | '\t' | '\r' => some ([], .ready)
  | '[' => some ([.beginArray], .ready)
  | ']' => some ([.endArray], .ready)
  | '\x7b' => some ([.beginObject], .ready)
  | '\x7d' => some ([.endObject], .ready)
  | ',' => some ([.comma], .ready)
  | ':' => some ([.colon], .ready)
  | '"' => some ([], .text [] .outside none true)
  | 't' => some ([], .word "rue".toList (.boolean true))
  | 'f' => some ([], .word "alse".toList (.boolean false))
  | 'n' => some ([], .word "ull".toList .null)
  | c => if c.isDigit || c = '-' then some ([], .number [c]) else none

/-- The value of a hexadecimal digit. -/
def hexDigit? (c : Char) : Option Nat :=
  if c.isDigit then some (c.toNat - '0'.toNat)
  else if 'a' ≤ c && c ≤ 'f' then some (c.toNat - 'a'.toNat + 10)
  else if 'A' ≤ c && c ≤ 'F' then some (c.toNat - 'A'.toNat + 10)
  else none

/-- The character of a one-letter escape. -/
def escaped? : Char → Option Char
  | '"' => some '"'
  | '\\' => some '\\'
  | '/' => some '/'
  | 'b' => some '\x08'
  | 'f' => some '\x0c'
  | 'n' => some '\n'
  | 'r' => some '\r'
  | 't' => some '\t'
  | _ => none

/-- Takes in a finished `\uXXXX`. -/
def takeUnit (read : List Char) (half : Option Nat) (sound : Bool) (unit : Nat) : JsonLexer :=
  let low := 0xDC00 ≤ unit && unit < 0xE000
  match half with
  | some high =>
    if low then
      .text (Char.ofNat (0x10000 + (high - 0xD800) * 0x400 + (unit - 0xDC00)) :: read) .outside none
        sound
    else .text read .outside none false
  | none =>
    if low then .text read .outside none false
    else if 0xD800 ≤ unit && unit < 0xDC00 then .text read .outside (some unit) sound
    else .text (Char.ofNat unit :: read) .outside none sound

/-- What a character does inside a quoted text; the error is a token that is not well formed. -/
def insideText (read : List Char) (half : Option Nat) (sound : Bool) (c : Char) :
    JsonEscape → Except JsonToken (List JsonToken × JsonLexer)
  | .outside =>
    if c = '"' then
      .ok ([.text (if sound && half.isNone then some (String.ofList read.reverse) else none)],
        .ready)
    else if c = '\\' then .ok ([], .text read .backslash half sound)
    else if c.toNat < 0x20 then .error (.badText .malformed)
    else .ok ([], .text (c :: read) .outside none (sound && half.isNone))
  | .backslash =>
    if c = 'u' then .ok ([], .text read (.unicode 4 0) half sound)
    else
      match escaped? c with
      | some d => .ok ([], .text (d :: read) .outside none (sound && half.isNone))
      | none => .error (.badText .malformed)
  | .unicode missing value =>
    match hexDigit? c with
    | none => .error (.badText .malformed)
    | some d =>
      let value := 16 * value + d
      if missing ≤ 1 then .ok ([], takeUnit read half sound value)
      else .ok ([], .text read (.unicode (missing - 1) value) half sound)

/-- What the end of the text does: the last tokens, in reverse. -/
def finish : JsonLexer → List JsonToken
  | .ready => []
  | .word _ _ => [.bad .truncated]
  | .number read => (numberTokens read true).1
  | .text _ _ _ sound => [.badText (if sound then .truncated else .malformed)]

/-- What a character does: the new tokens in reverse, and where the automaton stands. There is no
such place after a token that is not well formed. -/
def step (c : Char) : JsonLexer → List JsonToken × Option JsonLexer
  | .ready =>
    match start c with
    | some (tokens, next) => (tokens, some next)
    | none => ([.bad .malformed], none)
  | .word [] _ => ([.bad .malformed], none)
  | .word (d :: left) value =>
    if c ≠ d then ([.bad .malformed], none)
    else if left.isEmpty then ([.scalar value], some .ready)
    else ([], some (.word left value))
  | .number read =>
    if inNumber c then ([], some (.number (c :: read)))
    else
      match numberTokens read false with
      | (tokens, false) => (tokens, none)
      | (tokens, true) =>
        match start c with
        | some (more, next) => (more ++ tokens, some next)
        | none => (.bad .malformed :: tokens, none)
  | .text read escape half sound =>
    match insideText read half sound c escape with
    | .ok (tokens, next) => (tokens, some next)
    | .error token => ([token], none)

/-- The tokens of a text, after those cut already (in reverse). -/
def run (done : List JsonToken) (lexer : JsonLexer) : List Char → List JsonToken
  | [] => (lexer.finish ++ done).reverse
  | c :: rest =>
    match lexer.step c with
    | (tokens, some next) => run (tokens ++ done) next rest
    | (tokens, none) => (tokens ++ done).reverse

end JsonLexer

/-- The tokens of a text. -/
def jsonTokens (text : String) : List JsonToken := JsonLexer.run [] .ready text.toList

end Blockwork
