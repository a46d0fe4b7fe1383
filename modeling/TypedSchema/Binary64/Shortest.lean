import TypedSchema.Binary64.Basic

/-!
The shortest decimal of a number: of the decimals that read back to it those with the fewest digits,
and of these the nearest. Two of them can be equally near; which one is taken is the caller's
choice.
-/

namespace TypedSchema.Binary64

/-- Of two equally near decimals, the larger or the one with the even last digit. -/
inductive Tie where
  | larger
  | even
deriving DecidableEq

/-- `digits * 10 ^ exponent`. -/
structure Decimal where
  digits : Nat
  exponent : Int
deriving DecidableEq

/-- The power of ten of the leading digit of a positive ratio. -/
def leadingPower (numerator denominator : Nat) : Int :=
  if denominator ≤ numerator then digitCount (numerator / denominator) - 1
  else
    let places := digitCount (denominator / numerator)
    if denominator = numerator * Nat.pow 10 (places - 1) then 1 - (places : Int)
    else -(places : Int)

/-- The multiple of `10 ^ exponent` that is nearest to the number, if it or its neighbour on the
other side of the number reads back. -/
def nearestReadingBack (tie : Tie) (x : Binary64) (exponent : Int) : Option Decimal :=
  let (numerator, denominator) := x.ratio
  let (scaled, unit) : Nat × Nat :=
    match exponent with
    | .ofNat power => (numerator, denominator * Nat.pow 10 power)
    | .negSucc power => (numerator * Nat.pow 10 (power + 1), denominator)
  let below := scaled / unit
  let twice := 2 * (scaled % unit)
  let readsBack (digits : Nat) : Bool := ofDecimal x.isNegative digits exponent = x
  let upperNearer : Bool :=
    if twice = unit then
      match tie with
      | .larger => true
      | .even => below % 2 = 1
    else
      unit < twice
  match readsBack below, readsBack (below + 1) with
  | true, true => some ⟨if upperNearer then below + 1 else below, exponent⟩
  | true, false => some ⟨below, exponent⟩
  | false, true => some ⟨below + 1, exponent⟩
  | false, false => none

/-- Trailing zeros moved into the exponent. -/
def Decimal.trimmed (decimal : Decimal) : Nat → Decimal
  | 0 => decimal
  | steps + 1 =>
    if decimal.digits % 10 = 0 && decimal.digits ≠ 0 then
      Decimal.trimmed ⟨decimal.digits / 10, decimal.exponent + 1⟩ steps
    else decimal

/-- The shortest decimal of a finite number other than zero. Seventeen digits always read back. -/
def shortest (tie : Tie) (x : Binary64) : Decimal :=
  let (numerator, denominator) := x.ratio
  let leading := leadingPower numerator denominator
  let found := (List.range 17).findSome? fun (count : Nat) =>
    nearestReadingBack tie x (leading - count)
  (found.getD ⟨0, 0⟩).trimmed 18

end TypedSchema.Binary64
