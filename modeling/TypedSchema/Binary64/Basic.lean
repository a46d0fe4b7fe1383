/-!
Double precision numbers of IEEE 754, given by their bits. Everything here is exact integer
arithmetic on the significand and the scale, so a result that is rounded once is the value nearest
to the exact one, and of two equally near values the even one.
-/

namespace TypedSchema

structure Binary64 where
  bits : UInt64
deriving DecidableEq, Inhabited, Repr

namespace Binary64

/-- The bit of the sign. -/
def signBit : Nat := 0x8000000000000000

/-- The leading bit of a significand, which is not stored. -/
def leadingBit : Nat := 0x10000000000000

def isNegative (x : Binary64) : Bool :=
  signBit ≤ x.bits.toNat

/-- The bits without the sign. -/
def magnitude (x : Binary64) : Nat :=
  x.bits.toNat % signBit

/-- The magnitude of both infinities; what lies above is not a number. -/
def infiniteMagnitude : Nat := 0x7FF0000000000000

def isNaN (x : Binary64) : Bool :=
  infiniteMagnitude < x.magnitude

def isInfinite (x : Binary64) : Bool :=
  x.magnitude = infiniteMagnitude

def isFinite (x : Binary64) : Bool :=
  x.magnitude < infiniteMagnitude

def isZero (x : Binary64) : Bool :=
  x.magnitude = 0

def ofMagnitude (negative : Bool) (magnitude : Nat) : Binary64 :=
  ⟨UInt64.ofNat (if negative then magnitude + signBit else magnitude)⟩

def zero (negative : Bool) : Binary64 :=
  ofMagnitude negative 0

def infinity (negative : Bool) : Binary64 :=
  ofMagnitude negative infiniteMagnitude

def nan (negative : Bool) : Binary64 :=
  ofMagnitude negative 0x7FF8000000000000

/-- A finite number is `significand * 2 ^ scale` up to its sign. -/
def significand (x : Binary64) : Nat :=
  if x.magnitude < leadingBit then x.magnitude else x.magnitude % leadingBit + leadingBit

def scale (x : Binary64) : Int :=
  (max (x.magnitude / leadingBit) 1 : Nat) - 1075

/-- Equality of values: both zeros are one value, and what is not a number equals nothing. -/
def equal (x y : Binary64) : Bool :=
  !x.isNaN && !y.isNaN && (x.bits = y.bits || x.isZero && y.isZero)

/-- The quotient rounded to the nearest integer, a half to the even one. -/
def nearestEven (numerator denominator : Nat) : Nat :=
  let quotient := numerator / denominator
  let twice := 2 * (numerator % denominator)
  if twice < denominator then quotient
  else if denominator < twice then quotient + 1
  else quotient + quotient % 2

/-- Whether the ratio is at least `2 ^ exponent`. -/
def reaches (numerator denominator : Nat) : Int → Bool
  | .ofNat exponent => denominator * Nat.pow 2 exponent ≤ numerator
  | .negSucc exponent => denominator ≤ numerator * Nat.pow 2 (exponent + 1)

/-- The ratio divided by `2 ^ exponent`, rounded. -/
def nearestMultiple (numerator denominator : Nat) : Int → Nat
  | .ofNat exponent => nearestEven numerator (denominator * Nat.pow 2 exponent)
  | .negSucc exponent => nearestEven (numerator * Nat.pow 2 (exponent + 1)) denominator

/-- The number nearest to a ratio. The scale is the one at which the ratio has 53 binary digits, or
the least scale there is; a significand that rounds up to 54 digits carries into the exponent. -/
def ofRatio (negative : Bool) (numerator denominator : Nat) : Binary64 :=
  if numerator = 0 then zero negative
  else
    let guess : Int := (numerator.log2 : Int) - denominator.log2
    let top := if reaches numerator denominator guess then guess else guess - 1
    let scale := max (top - 52) (-1074)
    let rounded := nearestMultiple numerator denominator scale
    ofMagnitude negative (min ((scale + 1074).toNat * leadingBit + rounded) infiniteMagnitude)

def ofInt (value : Int) : Binary64 :=
  ofRatio (value < 0) value.natAbs 1

def digitCount (value : Nat) : Nat :=
  (Nat.toDigits 10 value).length

/-- The number nearest to `digits * 10 ^ exponent`. Far outside the range of finite numbers the
result is known without the power. -/
def ofDecimal (negative : Bool) (digits : Nat) (exponent : Int) : Binary64 :=
  if digits = 0 then zero negative
  else
    let places := digitCount digits + exponent
    if 310 < places then infinity negative
    else if places < -330 then zero negative
    else
      match exponent with
      | .ofNat power => ofRatio negative (digits * Nat.pow 10 power) 1
      | .negSucc power => ofRatio negative digits (Nat.pow 10 (power + 1))

/-- The finite magnitude as a ratio. -/
def ratio (x : Binary64) : Nat × Nat :=
  match x.scale with
  | .ofNat power => (x.significand * Nat.pow 2 power, 1)
  | .negSucc power => (x.significand, Nat.pow 2 (power + 1))

/-- The product of two magnitudes, rounded. -/
def times (x y : Binary64) : Binary64 :=
  ofRatio false (x.ratio.1 * y.ratio.1) (x.ratio.2 * y.ratio.2)

/-- The quotient of two magnitudes, rounded. -/
def dividedBy (x y : Binary64) : Binary64 :=
  ofRatio false (x.ratio.1 * y.ratio.2) (x.ratio.2 * y.ratio.1)

def powerOfTen (exponent : Nat) : Binary64 :=
  ofRatio false (Nat.pow 10 exponent) 1

/-- The exponent of the greatest finite power of ten. -/
def greatestPower : Nat := 308

/-- The magnitude over a power of ten, behind so many divisions by the greatest one. Nothing is left
to divide at zero. -/
def lowered (power : Nat) : Nat → Binary64 → Binary64
  | 0, x => x.dividedBy (powerOfTen power)
  | rounds + 1, x =>
    if x.isZero then x else lowered power rounds (x.dividedBy (powerOfTen greatestPower))

/-- `significand * 10 ^ exponent`, rounded at every step: first the significand, then each product
or quotient. This need not be the nearest number, which is what `ofDecimal` gives. -/
def ofParts (negative : Bool) (significand : Nat) (exponent : Int) : Binary64 :=
  let start := ofRatio false significand 1
  let scaled :=
    match exponent with
    | .ofNat power =>
      if power ≤ greatestPower then start.times (powerOfTen power)
      else if start.isZero then start
      else infinity false
    | .negSucc power => start.lowered (power % greatestPower + 1) (power / greatestPower)
  ofMagnitude negative scaled.magnitude

/-- The exact integer that a number is. -/
def toInt? (x : Binary64) : Option Int :=
  if x.isFinite then
    let sign (size : Nat) : Int := if x.isNegative then -(size : Int) else size
    match x.scale with
    | .ofNat power => some (sign (x.significand * Nat.pow 2 power))
    | .negSucc power =>
      if x.significand % Nat.pow 2 (power + 1) = 0 then
        some (sign (x.significand / Nat.pow 2 (power + 1)))
      else none
  else none

end Binary64

end TypedSchema
