import TypedSchema.Text.Property
import TypedSchema.Time.Timestamp

/-!
Reading timestamps by layouts. A layout is a list of items that are matched one after the other and
that must use up the whole text. The layouts are tried in a fixed order, and the first one that
gives an existing time decides. A text without an offset is in UTC, and a bare date is its midnight.
-/

namespace TypedSchema.Time

inductive Part where
  | year
  | month
  | day
  | hour
  | minute
  | second
deriving DecidableEq

/-- How many digits a part has at most, a year without a sign included. -/
def Part.width : Part → Nat
  | .year => 4
  | _ => 2

inductive Item where
  /-- One of these characters. -/
  | mark (choices : List Char)
  /-- Any amount of white space. -/
  | blanks
  /-- Exactly the width of the part. -/
  | fixed (part : Part)
  /-- At most the width of the part, behind any white space; a year may carry a sign and then has
  any number of digits. -/
  | number (part : Part)
  /-- Nothing, or a point and at least one digit. -/
  | fraction
  /-- A sign, hours and minutes, behind any white space and with any separators. -/
  | offset
  /-- `Z`, or a sign, hours, a colon and minutes. -/
  | zone

/-- What has been read so far; the offset is in minutes. -/
structure Reading where
  year : Int := 0
  month : Nat := 0
  day : Nat := 0
  hour : Nat := 0
  minute : Nat := 0
  second : Nat := 0
  nanos : Nat := 0
  offset : Int := 0

namespace Reading

def set (reading : Reading) (value : Nat) : Part → Reading
  | .year => { reading with year := value }
  | .month => { reading with month := value }
  | .day => { reading with day := value }
  | .hour => { reading with hour := value }
  | .minute => { reading with minute := value }
  | .second => { reading with second := value }

/-- The time that was read, if there is such a time. -/
def timestamp? (reading : Reading) : Option Timestamp :=
  let date : Date := ⟨reading.year, reading.month, reading.day⟩
  if date.isValid && reading.hour < 24 && reading.minute < 60 && reading.second ≤ 60 &&
      reading.offset.natAbs < 24 * 60 then
    let second := if reading.second = 60 then 59 else reading.second
    let nanos := if reading.second = 60 then reading.nanos + nanosPerSecond else reading.nanos
    let local_ := date.toDays * 86400 + (reading.hour * 3600 + reading.minute * 60 + second : Nat)
    (Timestamp.ofSecond? local_ 0).bind fun _ =>
      Timestamp.ofSecond? (local_ - reading.offset * 60) nanos
  else none

end Reading

def natOfDigits (digits : List Char) : Nat :=
  digits.foldl (fun sofar digit => 10 * sofar + (digit.toNat - '0'.toNat)) 0

/-- A number of one to `most` digits, and the rest. -/
def number? (most : Nat) (text : List Char) : Option (Nat × List Char) :=
  let digits := (text.take most).takeWhile Char.isDigit
  if digits.isEmpty then none else some (natOfDigits digits, text.drop digits.length)

/-- A number of exactly `width` digits, and the rest. -/
def fixed? (width : Nat) (text : List Char) : Option (Nat × List Char) :=
  let digits := (text.take width).takeWhile Char.isDigit
  if digits.length = width then some (natOfDigits digits, text.drop width) else none

/-- The nanoseconds behind a point; digits after the ninth are dropped. -/
def fraction? (text : List Char) : Option (Nat × List Char) :=
  let digits := text.takeWhile Char.isDigit
  if digits.isEmpty then none
  else
    let kept := digits.take 9
    some (natOfDigits kept * Nat.pow 10 (9 - kept.length), text.drop digits.length)

/-- Whether an offset is west; the minus sign proper counts as a hyphen. -/
def sign? : List Char → Option (Bool × List Char)
  | '+' :: rest => some (false, rest)
  | '-' :: rest => some (true, rest)
  | '−' :: rest => some (true, rest)
  | _ => none

/-- Minutes east, given what may stand between hours and minutes. -/
def offset? (separators : List Char → Option (List Char)) (text : List Char) :
    Option (Int × List Char) := do
  let (west, text) ← sign? text
  let (hours, text) ← fixed? 2 text
  let (minutes, text) ← fixed? 2 (← separators text)
  if minutes < 60 then
    let size : Int := (60 * hours + minutes : Nat)
    return (if west then -size else size, text)
  else none

def skipBlanks (text : List Char) : List Char :=
  text.dropWhile Text.isBlank

namespace Item

/-- Matches one item at the start of a text. -/
def read (reading : Reading) (text : List Char) : Item → Option (Reading × List Char)
  | .mark choices =>
    match text with
    | c :: rest => if choices.contains c then some (reading, rest) else none
    | [] => none
  | .blanks => some (reading, skipBlanks text)
  | .fixed part => (fixed? part.width text).map fun (value, rest) => (reading.set value part, rest)
  | .number .year =>
    match skipBlanks text with
    | '-' :: rest =>
      (number? rest.length rest).map fun (value, rest) =>
        ({ reading with year := -(value : Int) }, rest)
    | '+' :: rest =>
      (number? rest.length rest).map fun (value, rest) => (reading.set value .year, rest)
    | unsigned =>
      (number? 4 unsigned).map fun (value, rest) => (reading.set value .year, rest)
  | .number part =>
    (number? part.width (skipBlanks text)).map fun (value, rest) => (reading.set value part, rest)
  | .fraction =>
    match text with
    | '.' :: rest => (fraction? rest).map fun (nanos, rest) => ({ reading with nanos }, rest)
    | _ => some (reading, text)
  | .offset =>
    (offset? (fun rest => some (rest.dropWhile fun c => c = ':' || Text.isBlank c))
      (skipBlanks text)).map fun (east, rest) => ({ reading with offset := east }, rest)
  | .zone =>
    match text with
    | 'Z' :: rest | 'z' :: rest => some (reading, rest)
    | _ =>
      (offset? (fun rest => if rest.head? = some ':' then some rest.tail else none) text).map
        fun (east, rest) => ({ reading with offset := east }, rest)

end Item

abbrev Layout := List Item

namespace Layout

/-- Matches all items and the end of the text. -/
def read : Layout → Reading → List Char → Option Reading
  | [], reading, text => if text.isEmpty then some reading else none
  | item :: rest, reading, text => do
    let (reading, text) ← item.read reading text
    read rest reading text

def timestamp? (layout : Layout) (text : List Char) : Option Timestamp :=
  (layout.read {} text).bind Reading.timestamp?

def date (separator : Char) : Layout :=
  [.number .year, .mark [separator], .number .month, .mark [separator], .number .day]

def hourMinute : Layout :=
  [.number .hour, .mark [':'], .number .minute]

def clock : Layout :=
  hourMinute ++ [.mark [':'], .number .second]

/-- The strict layout of the internet standard. -/
def standard : Layout :=
  [.fixed .year, .mark ['-'], .fixed .month, .mark ['-'], .fixed .day, .mark ['T', 't', ' '],
    .fixed .hour, .mark [':'], .fixed .minute, .mark [':'], .fixed .second, .fraction, .zone]

/-- With an offset, tried after the standard. -/
def withOffset : List Layout :=
  [date '-' ++ [.mark ['T']] ++ clock ++ [.fraction, .offset],
    date '-' ++ [.blanks] ++ clock ++ [.fraction, .offset],
    date '/' ++ [.blanks] ++ clock ++ [.fraction, .offset]]

/-- Without an offset. -/
def naive : List Layout :=
  [date '-' ++ [.mark ['T']] ++ clock ++ [.fraction],
    date '-' ++ [.blanks] ++ clock ++ [.fraction],
    date '-' ++ [.mark ['T']] ++ hourMinute,
    date '-' ++ [.blanks] ++ hourMinute,
    date '/' ++ [.blanks] ++ clock ++ [.fraction],
    date '-']

end Layout

/-- The text without one `Z` at its end. -/
def dropZulu (text : List Char) : List Char :=
  match text.reverse with
  | 'Z' :: rest | 'z' :: rest => rest.reverse
  | _ => text

/-- Reads a timestamp in any of the layouts, to the microsecond. -/
def Timestamp.ofText? (text : String) : Option Timestamp :=
  let trimmed := Text.trim text.toList
  let found :=
    (Layout.standard :: Layout.withOffset).findSome? (·.timestamp? trimmed) <|>
      Layout.naive.findSome? (·.timestamp? (dropZulu trimmed))
  found.map Timestamp.toMicros

end TypedSchema.Time
