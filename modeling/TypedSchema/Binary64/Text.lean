import TypedSchema.Binary64.Shortest

/-!
Numbers as text. A writing style fixes where positional writing starts, whether a positive exponent
carries a sign, and which of two equally short and near decimals is taken. Reading accepts the usual
decimal grammar and the names of the values that have no digits.
-/

namespace TypedSchema.Binary64

structure Style where
  /-- The least power of ten of a leading digit that is still written positionally. -/
  leastPositional : Int
  signedExponent : Bool
  tie : Tie

/-- Numbers inside messages and listings. -/
def plainStyle : Style := ⟨-4, false, .larger⟩

/-- Numbers inside documents. -/
def documentStyle : Style := ⟨-5, true, .even⟩

def zeros (count : Nat) : List Char :=
  List.replicate count '0'

/-- Digits with the point at its place and at least one digit on either side of it. -/
def positional (digits : List Char) (leading : Int) : List Char :=
  match leading with
  | .negSucc gap => ['0', '.'] ++ zeros gap ++ digits
  | .ofNat leading =>
    if digits.length ≤ leading + 1 then
      digits ++ zeros (leading + 1 - digits.length) ++ ['.', '0']
    else digits.take (leading + 1) ++ '.' :: digits.drop (leading + 1)

def scientific (style : Style) (digits : List Char) (leading : Int) : List Char :=
  let significand :=
    match digits with
    | first :: second :: rest => first :: '.' :: second :: rest
    | short => short
  let sign := if leading < 0 then ['-'] else if style.signedExponent then ['+'] else []
  significand ++ 'e' :: sign ++ Nat.toDigits 10 leading.natAbs

def finiteText (style : Style) (x : Binary64) : List Char :=
  if x.isZero then ['0', '.', '0']
  else
    let decimal := shortest style.tie x
    let digits := Nat.toDigits 10 decimal.digits
    let leading := decimal.exponent + digits.length - 1
    if style.leastPositional ≤ leading && leading < 16 then positional digits leading
    else scientific style digits leading

/-- The text of a number; one that is not finite is written by name. -/
def text (style : Style) (x : Binary64) : String :=
  if x.isNaN then "NaN"
  else
    let size := if x.isInfinite then ['i', 'n', 'f'] else finiteText style x
    String.ofList (if x.isNegative then '-' :: size else size)

/-- The value of decimal digits. -/
def digitsValue (digits : List Char) : Nat :=
  digits.foldl (fun sofar digit => 10 * sofar + (digit.toNat - '0'.toNat)) 0

/-- A sign, and what follows it. -/
def splitSign : List Char → Bool × List Char
  | '-' :: rest => (true, rest)
  | '+' :: rest => (false, rest)
  | unsigned => (false, unsigned)

/-- An exponent, or nothing at all. -/
def exponent? : List Char → Option Int
  | [] => some 0
  | mark :: rest =>
    let (negative, digits) := splitSign rest
    if (mark = 'e' || mark = 'E') && !digits.isEmpty && digits.all Char.isDigit then
      some (if negative then -(digitsValue digits : Int) else digitsValue digits)
    else none

/-- Digits with a point anywhere among them, at least one of them, and an optional exponent. -/
def unsigned? (negative : Bool) (text : List Char) : Option Binary64 :=
  let whole := text.takeWhile Char.isDigit
  let (fraction, rest) :=
    match text.dropWhile Char.isDigit with
    | '.' :: rest => (rest.takeWhile Char.isDigit, rest.dropWhile Char.isDigit)
    | rest => ([], rest)
  if whole.isEmpty && fraction.isEmpty then none
  else
    (exponent? rest).map fun exponent =>
      ofDecimal negative (digitsValue (whole ++ fraction)) (exponent - fraction.length)

/-- Reads a number, `inf`, `infinity` or `nan`, the names in any case. -/
def ofText? (text : String) : Option Binary64 :=
  let (negative, rest) := splitSign text.toList
  match String.ofList (rest.map Char.toLower) with
  | "inf" | "infinity" => some (infinity negative)
  | "nan" => some (nan negative)
  | _ => unsigned? negative rest

end TypedSchema.Binary64
