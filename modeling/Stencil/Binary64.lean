import Stencil.Decimal.Integer
/-!
# Numbers of 64-bit binary floating point

A number is given by its 64 bits: a sign, 11 bits of exponent and 52 of fraction.  A finite number
is `± mantissa * 2 ^ scale`, and every operation is exact arithmetic on that form followed by one
rounding to the nearest number, ties to the even mantissa (`ofRatio`).
-/

namespace Stencil

/-- A double-precision number, bit for bit. -/
structure Binary64 where
  bits : UInt64
deriving DecidableEq, Inhabited

namespace Binary64

/-! ## Parts -/

/-- The bit of the sign, `2 ^ 63`. -/
def signBit : Nat := 0x8000000000000000

/-- The bit above the fraction, `2 ^ 52`; a mantissa that is not too small has it. -/
def topBit : Nat := 0x10000000000000

/-- The bits without the sign. -/
def magnitude (x : Binary64) : Nat := x.bits.toNat % signBit

def isNegative (x : Binary64) : Bool := signBit ≤ x.bits.toNat

/-- The magnitude of the infinities; above it come the NaNs. -/
def infinityMagnitude : Nat := 2047 * topBit

def isNaN (x : Binary64) : Bool := infinityMagnitude < x.magnitude

def isInfinite (x : Binary64) : Bool := x.magnitude == infinityMagnitude

def isFinite (x : Binary64) : Bool := x.magnitude < infinityMagnitude

def isZero (x : Binary64) : Bool := x.magnitude == 0

/-- A number from its sign and the bits without the sign. -/
def ofMagnitude (negative : Bool) (magnitude : Nat) : Binary64 :=
  ⟨UInt64.ofNat ((if negative then signBit else 0) + magnitude % signBit)⟩

def zero : Binary64 := ofMagnitude false 0

def infinity (negative : Bool) : Binary64 := ofMagnitude negative infinityMagnitude

def nan : Binary64 := ofMagnitude false (infinityMagnitude + topBit / 2)

/-- A finite number is `± mantissa * 2 ^ scale`. -/
def mantissa (x : Binary64) : Nat :=
  if x.magnitude < topBit then x.magnitude else x.magnitude % topBit + topBit

def scale (x : Binary64) : Int :=
  if x.magnitude < topBit then -1074 else (x.magnitude / topBit : Nat) - 1075

/-- Numerator, with the sign, and denominator of a finite number. -/
def ratio (x : Binary64) : Int × Nat :=
  let numerator : Nat := x.mantissa <<< x.scale.toNat
  (if x.isNegative then -(numerator : Int) else numerator, 1 <<< (-x.scale).toNat)

/-! ## Rounding -/

/-- The quotient rounded to the nearest integer, a half to the even one. -/
def roundDiv (num den : Nat) : Nat :=
  let q := num / den
  let r := num % den
  if 2 * r < den then q else if den < 2 * r then q + 1 else q + q % 2

/-- The number nearest to `± num / den`, a tie going to the even mantissa; past the largest number
comes infinity. -/
def ofRatio (negative : Bool) (num den : Nat) : Binary64 :=
  if num = 0 || den = 0 then ofMagnitude negative 0 else
    let top : Int := (Nat.log2 num : Int) - Nat.log2 den
    let guess : Int := if top < -1021 then -1074 else top - 53
    let part (s : Int) : Nat := (num <<< (-s).toNat) / (den <<< s.toNat)
    let s : Int := if part guess < 2 * topBit then guess else guess + 1
    let m := roundDiv (num <<< (-s).toNat) (den <<< s.toNat)
    let magnitude := (s + 1074).toNat * topBit + m
    ofMagnitude negative (if infinityMagnitude < magnitude then infinityMagnitude else magnitude)

def ofInt (n : Int) : Binary64 := ofRatio (n < 0) n.natAbs 1

/-- The number nearest to `± digits * 10 ^ exponent`. -/
def ofDecimal (negative : Bool) (digits : Nat) (exponent : Int) : Binary64 :=
  if digits = 0 then ofMagnitude negative 0
  else if 400 < exponent then infinity negative
  else if exponent < -400 - (Nat.log2 digits : Int) then ofMagnitude negative 0
  else ofRatio negative (digits * Nat.pow 10 exponent.toNat) (Nat.pow 10 (-exponent).toNat)

/-! ## Comparison -/

/-- Orders the numbers that are not NaN; both zeros have key 0. -/
def key (x : Binary64) : Int := if x.isNegative then -(x.magnitude : Int) else x.magnitude

/-- Equality of numbers: NaN equals nothing, the two zeros are equal. -/
def eq (x y : Binary64) : Bool := !x.isNaN && !y.isNaN && x.key == y.key

/-- Orders all numbers: `-0` before `0`, NaNs at the ends. -/
def totalKey (x : Binary64) : Int :=
  if x.isNegative then -(x.magnitude : Int) - 1 else x.magnitude

/-! ## Integers -/

/-- The integral part, toward zero, of a finite number. -/
def truncate (x : Binary64) : Int :=
  let (n, d) := x.ratio
  Int.tdiv n d

/-- The value of a finite number without fraction. -/
def toInt? (x : Binary64) : Option Int :=
  let (n, d) := x.ratio
  if x.isFinite && n % d == 0 then some (n / d) else none

/-- The 64-bit integer that a number equals. -/
def toInt64? (x : Binary64) : Option Int64 := x.toInt?.bind Decimal.narrow?

/-! ## Arithmetic -/

def neg (x : Binary64) : Binary64 := ofMagnitude (!x.isNegative) x.magnitude

def abs (x : Binary64) : Binary64 := ofMagnitude false x.magnitude

/-- A signed ratio as a number; `negativeZero` is the sign of an exact zero. -/
def ofSignedRatio (negativeZero : Bool) (num : Int) (den : Nat) : Binary64 :=
  ofRatio (if num = 0 then negativeZero else num < 0) num.natAbs den

def add (x y : Binary64) : Binary64 :=
  if x.isNaN || y.isNaN then nan
  else if x.isInfinite then
    if y.isInfinite && x.isNegative != y.isNegative then nan else x
  else if y.isInfinite then y
  else
    let (a, b) := x.ratio
    let (c, d) := y.ratio
    ofSignedRatio (x.isNegative && y.isNegative) (a * d + c * b) (b * d)

def sub (x y : Binary64) : Binary64 := if y.isNaN then nan else add x y.neg

def mul (x y : Binary64) : Binary64 :=
  let negative := x.isNegative != y.isNegative
  if x.isNaN || y.isNaN then nan
  else if x.isInfinite || y.isInfinite then
    if x.isZero || y.isZero then nan else infinity negative
  else
    let (a, b) := x.ratio
    let (c, d) := y.ratio
    ofRatio negative (a.natAbs * c.natAbs) (b * d)

def div (x y : Binary64) : Binary64 :=
  let negative := x.isNegative != y.isNegative
  if x.isNaN || y.isNaN then nan
  else if x.isInfinite then if y.isInfinite then nan else infinity negative
  else if y.isInfinite then ofMagnitude negative 0
  else if y.isZero then if x.isZero then nan else infinity negative
  else
    let (a, b) := x.ratio
    let (c, d) := y.ratio
    ofRatio negative (a.natAbs * d) (b * c.natAbs)

/-- What is left of `x` after the integral part of `x / y`, with the sign of `x`. -/
def rem (x y : Binary64) : Binary64 :=
  if x.isNaN || y.isNaN || x.isInfinite || y.isZero then nan
  else if y.isInfinite then x
  else
    let (a, b) := x.ratio
    let (c, d) := y.ratio
    ofSignedRatio x.isNegative (Int.tmod (a * d) (c * b)) (b * d)

/-- The number without its fraction. -/
def integralPart (x : Binary64) : Binary64 :=
  if x.isFinite then ofSignedRatio x.isNegative x.truncate 1 else x

def isBelowZero (x : Binary64) : Bool := !x.isNaN && x.key < 0

/-- The quotient whose remainder is not negative. -/
def divEuclid (x y : Binary64) : Binary64 :=
  let q := (div x y).integralPart
  if (rem x y).isBelowZero then
    if y.isBelowZero then add q (ofInt 1) else sub q (ofInt 1)
  else q

/-- The nearest integer, a half going away from zero. -/
def roundHalfAway (x : Binary64) : Binary64 :=
  if x.isFinite then
    let (n, d) := x.ratio
    ofSignedRatio x.isNegative (n.sign * ((2 * n.natAbs + d) / (2 * d) : Nat)) 1
  else x

end Binary64

end Stencil
