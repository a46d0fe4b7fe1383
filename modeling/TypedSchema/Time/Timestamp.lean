import TypedSchema.Time.Calendar

/-!
Points in time, in UTC. A leap second is held as a second whole second inside the last second of its
minute. The output layout has microseconds and a trailing `Z`.
-/

namespace TypedSchema.Time

def nanosPerSecond : Nat := 1000000000

/-- The first second of the year -262143. -/
def earliestSecond : Int := (Date.toDays ⟨-262143, 1, 1⟩) * 86400

/-- The last second of the year 262142. -/
def latestSecond : Int := (Date.toDays ⟨262142, 12, 31⟩) * 86400 + 86399

structure Timestamp where
  /-- Whole seconds since 1970-01-01T00:00:00Z. -/
  second : Int
  /-- Nanoseconds into the second, two seconds' worth if a leap second follows it. -/
  nanos : Nat
  inRange : earliestSecond ≤ second ∧ second ≤ latestSecond
  nanosInRange : nanos < 2 * nanosPerSecond
  /-- A chrono time can have such nanoseconds at any second, if `with_nanosecond` sets them. No text
  is read as a time of that kind away from the end of a minute, and such times are left out here. -/
  leapAtMinuteEnd : nanosPerSecond ≤ nanos → second % 60 = 59
deriving DecidableEq

namespace Timestamp

def ofSecond? (second : Int) (nanos : Nat) : Option Timestamp :=
  if valid : (earliestSecond ≤ second ∧ second ≤ latestSecond) ∧ nanos < 2 * nanosPerSecond ∧
      (nanosPerSecond ≤ nanos → second % 60 = 59) then
    some ⟨second, nanos, valid.1, valid.2.1, valid.2.2⟩
  else none

/-- Within the leap second behind the last second that there is. -/
def isPastEnd (time : Timestamp) : Bool :=
  time.second = latestSecond && nanosPerSecond ≤ time.nanos

/-- The time cut to whole microseconds. -/
def cutToMicros (time : Timestamp) : Timestamp where
  second := time.second
  nanos := time.nanos / 1000 * 1000
  inRange := time.inRange
  nanosInRange := Nat.lt_of_le_of_lt (Nat.div_mul_le_self _ _) time.nanosInRange
  leapAtMinuteEnd := fun leap =>
    time.leapAtMinuteEnd (Nat.le_trans leap (Nat.div_mul_le_self _ _))

/-- The same time without what is finer than a microsecond. A time past the end of the last second
is kept as it is. -/
def toMicros (time : Timestamp) : Timestamp :=
  if time.isPastEnd then time else time.cutToMicros

def date (time : Timestamp) : Date :=
  .ofDays (time.second / 86400)

def secondOfDay (time : Timestamp) : Nat :=
  (time.second % 86400).toNat

/-- Decimal digits with leading zeros up to a width. -/
def padded (width value : Nat) : List Char :=
  let digits := Nat.toDigits 10 value
  List.replicate (width - digits.length) '0' ++ digits

/-- Four digits, or a sign and at least four digits outside the years from 0 to 9999. -/
def yearText (year : Int) : List Char :=
  if 0 ≤ year && year ≤ 9999 then padded 4 year.toNat
  else (if year < 0 then '-' else '+') :: padded 4 year.natAbs

/-- Date and time up to the second, in which a leap second has the number 60. -/
def upToSecond (time : Timestamp) : List Char :=
  let date := time.date
  let second := time.secondOfDay
  yearText date.year ++ '-' :: padded 2 date.month ++ '-' :: padded 2 date.day ++
    'T' :: padded 2 (second / 3600) ++ ':' :: padded 2 (second / 60 % 60) ++
    ':' :: padded 2 (second % 60 + time.nanos / nanosPerSecond)

/-- The output layout. -/
def text (time : Timestamp) : String :=
  String.ofList (time.upToSecond ++
    '.' :: padded 6 (time.nanos % nanosPerSecond / 1000) ++ ['Z'])

/-- With as many groups of three digits behind the point as are needed. -/
def fullText (time : Timestamp) : String :=
  let nanos := time.nanos % nanosPerSecond
  let fraction :=
    if nanos = 0 then []
    else if nanos % 1000000 = 0 then '.' :: padded 3 (nanos / 1000000)
    else if nanos % 1000 = 0 then '.' :: padded 6 (nanos / 1000)
    else '.' :: padded 9 nanos
  String.ofList (time.upToSecond ++ fraction ++ ['Z'])

end Timestamp

end TypedSchema.Time
