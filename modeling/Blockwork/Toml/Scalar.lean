import Blockwork.Number.Reading
import Blockwork.Toml

/-!
# Scalars in TOML

Numbers, truth values, dates and times are words: rows of letters, digits and a few signs. Texts
are quoted in one of four ways.
-/

namespace Blockwork

namespace Toml

/-! ## Texts -/

/-- The value of a hexadecimal digit. -/
def hexDigit? (c : Char) : Option Nat :=
  if c.isDigit then some (c.toNat - '0'.toNat)
  else if 'a' ≤ c && c ≤ 'f' then some (c.toNat - 'a'.toNat + 10)
  else if 'A' ≤ c && c ≤ 'F' then some (c.toNat - 'A'.toNat + 10)
  else none

/-- The character with a number. -/
def charOf? (n : Nat) : Option Char := if n.isValidChar then some (Char.ofNat n) else none

/-- The character of a one-letter escape. -/
def escaped? : Char → Option Char
  | '"' => some '"'
  | '\\' => some '\\'
  | 'b' => some '\x08'
  | 'f' => some '\x0c'
  | 'n' => some '\n'
  | 'r' => some '\r'
  | 't' => some '\t'
  | _ => none

/-- A kind of quotes. -/
structure Quotes where
  mark : Char
  /-- Whether three marks stand at either end, and the text may have several lines. -/
  triple : Bool
deriving DecidableEq

/-- Where the reading of a text stands. -/
inductive QuoteState where
  | plain
  | backslash
  /-- Inside an escape by number: the digits that are missing, and the value of those read. -/
  | number (missing value : Nat)
  /-- Behind a backslash at the end of a line; `ended` says that the line has ended. -/
  | gap (ended : Bool)

/-- Takes up to two more marks that stand right before the closing ones. -/
def closeTriple (mark : Char) (read : List Char) : List Char → List Char × List Char
  | a :: b :: rest =>
    if a = mark && b = mark then (b :: a :: read, rest)
    else if a = mark then (a :: read, b :: rest)
    else (read, a :: b :: rest)
  | [a] => if a = mark then ([a] ++ read, []) else (read, [a])
  | [] => (read, [])

/-- Reads up to the closing marks. The characters read so far are in reverse. -/
def readQuoted (q : Quotes) (read : List Char) (state : QuoteState) :
    List Char → Option (List Char × List Char)
  | [] => none
  | c :: rest =>
    let plain : Option (List Char × List Char) :=
      if c = q.mark then
        if !q.triple then some (read, rest)
        else
          match rest with
          | a :: b :: after =>
            if a = q.mark && b = q.mark then some (closeTriple q.mark read after)
            else readQuoted q (c :: read) .plain rest
          | _ => none
      else if c = '\\' && q.mark = '"' then readQuoted q read .backslash rest
      else if c = '\n' then if q.triple then readQuoted q (c :: read) .plain rest else none
      else if c = '\r' then
        if q.triple && rest.head? = some '\n' then readQuoted q read .plain rest else none
      else if isControl c then none
      else readQuoted q (c :: read) .plain rest
    match state with
    | .plain => plain
    | .backslash =>
      if c = 'u' then readQuoted q read (.number 4 0) rest
      else if c = 'U' then readQuoted q read (.number 8 0) rest
      else
        match escaped? c with
        | some d => readQuoted q (d :: read) .plain rest
        | none =>
          if !q.triple then none
          else if c = '\n' then readQuoted q read (.gap true) rest
          else if c = ' ' || c = '\t' || c = '\r' then readQuoted q read (.gap false) rest
          else none
    | .number missing value =>
      match hexDigit? c with
      | none => none
      | some d =>
        let value := 16 * value + d
        if missing ≤ 1 then
          match charOf? value with
          | some e => readQuoted q (e :: read) .plain rest
          | none => none
        else readQuoted q read (.number (missing - 1) value) rest
    | .gap ended =>
      if c = '\n' then readQuoted q read (.gap true) rest
      else if c = ' ' || c = '\t' then readQuoted q read (.gap ended) rest
      else if c = '\r' && rest.head? = some '\n' then readQuoted q read (.gap ended) rest
      else if ended then plain
      else none

/-- A line end right after the opening marks does not belong to the text. -/
def dropFirstLineEnd : List Char → List Char
  | '\n' :: rest => rest
  | '\r' :: '\n' :: rest => rest
  | cs => cs

/-- A text at the front of a row of characters. -/
def readText (cs : List Char) : Option (String × List Char) :=
  let result :=
    match cs with
    | '"' :: '"' :: '"' :: rest => readQuoted ⟨'"', true⟩ [] .plain (dropFirstLineEnd rest)
    | '\'' :: '\'' :: '\'' :: rest => readQuoted ⟨'\'', true⟩ [] .plain (dropFirstLineEnd rest)
    | '"' :: rest => readQuoted ⟨'"', false⟩ [] .plain rest
    | '\'' :: rest => readQuoted ⟨'\'', false⟩ [] .plain rest
    | _ => none
  result.map fun (read, rest) => (String.ofList read.reverse, rest)

/-! ## Numbers -/

/-- The digits of a row of digits in which single underscores may stand between two digits. -/
def plainDigits (isDigit : Char → Bool) : List Char → Option (List Char)
  | [] => none
  | [c] => if isDigit c then some [c] else none
  | c :: '_' :: rest => if isDigit c then (plainDigits isDigit rest).map (c :: ·) else none
  | c :: rest => if isDigit c then (plainDigits isDigit rest).map (c :: ·) else none

/-- The digits of a whole number: without a zero in front. -/
def wholeDigits (cs : List Char) : Option (List Char) :=
  (plainDigits Char.isDigit cs).filter fun ds => ds.length = 1 || ds.head? ≠ some '0'

/-- A whole number of 64 bits. -/
def bounded (n : Int) : Option Toml :=
  if Int64.minValue.toInt ≤ n ∧ n ≤ Int64.maxValue.toInt then some (.integer n) else none

/-- A whole number in a base other than ten. -/
def readBase (base : Nat) (cs : List Char) : Option Toml :=
  let isDigit (c : Char) : Bool := (hexDigit? c).any fun d => d < base
  (plainDigits isDigit cs).bind fun ds =>
    bounded (ds.foldl (fun n c => base * n + (hexDigit? c).getD 0) 0 : Nat)

/-- A number with a point or an exponent, without its sign. -/
def readFloat (cs : List Char) : Option Float := do
  let isMark (c : Char) : Bool := c = 'e' || c = 'E'
  let mantissa := cs.takeWhile fun c => !isMark c
  let exponent := cs.dropWhile fun c => !isMark c
  let whole := mantissa.takeWhile (· ≠ '.')
  let fraction := mantissa.dropWhile (· ≠ '.')
  let whole ← wholeDigits whole
  let fraction ←
    match fraction with
    | [] => some []
    | _ :: ds => plainDigits Char.isDigit ds
  let power ←
    match exponent with
    | [] => some 0
    | _ :: ds =>
      let (negative, ds) := splitSign ds
      (plainDigits Char.isDigit ds).map fun ds =>
        if negative then -(digitsValue ds : Int) else digitsValue ds
  let x := scaledFloat (digitsValue (whole ++ fraction)) (power - fraction.length)
  if x.isInf then none else some x

/-- A number without its sign, if it has none or one is allowed. -/
def readNumber (cs : List Char) : Option Toml :=
  let (negative, ds) := splitSign cs
  let signed (x : Float) : Toml := .float (if negative then -x else x)
  match cs, ds with
  | '0' :: 'x' :: ds, _ => readBase 16 ds
  | '0' :: 'o' :: ds, _ => readBase 8 ds
  | '0' :: 'b' :: ds, _ => readBase 2 ds
  | _, ['i', 'n', 'f'] => some (signed (Binary.infinite false).toFloat)
  | _, ['n', 'a', 'n'] => some (signed Binary.nan.toFloat)
  | _, ds =>
    match wholeDigits ds with
    | some ds => bounded (if negative then -(digitsValue ds : Int) else digitsValue ds)
    | none => (readFloat ds).map signed

/-! ## Dates and times -/

/-- A number of exactly so many digits. -/
def fixedDigits : Nat → List Char → Option (Nat × List Char)
  | 0, cs => some (0, cs)
  | count, cs =>
    let ds := cs.take count
    if ds.length = count && ds.all Char.isDigit then some (digitsValue ds, cs.drop count) else none

/-- A given character. -/
def expect (c : Char) : List Char → Option (List Char)
  | d :: rest => if d = c then some rest else none
  | [] => none

/-- The digits of a number, with zeros in front. -/
def padded (width n : Nat) : String :=
  let ds := decimalDigits n
  String.ofList (List.replicate (width - ds.length) '0' ++ ds)

/-- How many days a month has. -/
def daysOf (year month : Nat) : Nat :=
  if month = 2 then
    if year % 4 = 0 && (year % 100 ≠ 0 || year % 400 = 0) then 29 else 28
  else if month = 4 || month = 6 || month = 9 || month = 11 then 30
  else 31

/-- A date, as it is shown. -/
def readDate (cs : List Char) : Option (String × List Char) := do
  let (year, cs) ← fixedDigits 4 cs
  let (month, cs) ← fixedDigits 2 (← expect '-' cs)
  let (day, cs) ← fixedDigits 2 (← expect '-' cs)
  if month = 0 || 12 < month || day = 0 || daysOf year month < day then none
  else some (padded 4 year ++ "-" ++ padded 2 month ++ "-" ++ padded 2 day, cs)

/-- A part of a second, as it is shown: at most nine digits, and no zeros at the end. -/
def readFraction : List Char → Option (String × List Char)
  | '.' :: cs =>
    let ds := cs.takeWhile Char.isDigit
    if ds.isEmpty then none
    else
      let kept := ((ds.take 9).reverse.dropWhile (· = '0')).reverse
      some (if kept.isEmpty then "" else "." ++ String.ofList kept, cs.dropWhile Char.isDigit)
  | cs => some ("", cs)

/-- A time, as it is shown. -/
def readTime (cs : List Char) : Option (String × List Char) := do
  let (hour, cs) ← fixedDigits 2 cs
  let (minute, cs) ← fixedDigits 2 (← expect ':' cs)
  let (second, cs) ← fixedDigits 2 (← expect ':' cs)
  let (fraction, cs) ← readFraction cs
  if 23 < hour || 59 < minute || 60 < second then none
  else
    some (padded 2 hour ++ ":" ++ padded 2 minute ++ ":" ++ padded 2 second ++ fraction, cs)

/-- The offset of a time, as it is shown; the row must end with it. -/
def readOffset : List Char → Option String
  | [] => some ""
  | ['Z'] => some "Z"
  | ['z'] => some "Z"
  | sign :: cs => do
    if sign ≠ '+' && sign ≠ '-' then none
    let (hour, cs) ← fixedDigits 2 cs
    let (minute, cs) ← fixedDigits 2 (← expect ':' cs)
    if 23 < hour || 59 < minute || !cs.isEmpty then none
    else
      let sign := if sign = '-' && (hour ≠ 0 || minute ≠ 0) then "-" else "+"
      some (sign ++ padded 2 hour ++ ":" ++ padded 2 minute)

/-- A date, a time or both. -/
def readMoment (cs : List Char) : Option Toml :=
  match readDate cs with
  | some (date, []) => some (.moment date)
  | some (date, mark :: rest) => do
    if mark ≠ 'T' && mark ≠ 't' && mark ≠ ' ' then none
    let (time, rest) ← readTime rest
    let offset ← readOffset rest
    some (.moment (date ++ "T" ++ time ++ offset))
  | none =>
    match readTime cs with
    | some (time, []) => some (.moment time)
    | _ => none

/-! ## Words -/

/-- Whether a character can be part of a word. -/
def inWord (c : Char) : Bool := c.isAlphanum || c = '+' || c = '-' || c = '.' || c = ':' || c = '_'

/-- The value of a word. -/
def ofWord (cs : List Char) : Option Toml :=
  match String.ofList cs with
  | "true" => some (.boolean true)
  | "false" => some (.boolean false)
  | _ => (readMoment cs).or (readNumber cs)

/-- A word at the front of a row of characters. A date and a time may be separated by a space. -/
def readWord (cs : List Char) : Option (Toml × List Char) :=
  let word := cs.takeWhile inWord
  let rest := cs.dropWhile inWord
  match readDate word, rest with
  | some (_, []), ' ' :: d :: after =>
    if d.isDigit then
      let time := (d :: after).takeWhile inWord
      (ofWord (word ++ ' ' :: time)).map fun v => (v, (d :: after).dropWhile inWord)
    else (ofWord word).map fun v => (v, rest)
  | _, _ => (ofWord word).map fun v => (v, rest)

end Toml

end Blockwork
