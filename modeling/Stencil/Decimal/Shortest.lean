import Stencil.Binary64
/-!
# The shortest decimal of a number

A number stands for every real that rounds to it: an interval around it whose ends belong to it
when the mantissa is even.  The shortest decimal is the one with the fewest digits inside the
interval, and among those the nearest to the number.

It is enough to look at the two neighbours of the number on the grid of decimals with `n` digits,
for `n = 1, 2, …`: if any point of the grid lies in the interval, one of the two does.
-/

namespace Stencil

/-- The decimal `digits * 10 ^ exponent`; only zero has digits that end in 0. -/
structure Decimal where
  digits : Nat
  exponent : Int
deriving DecidableEq

namespace Decimal

/-- `a * 2 ^ s * den` and `b * 10 ^ t * den` for a common denominator `den`, to compare the two. -/
def alignPowers (s t : Int) : Nat × Nat :=
  (Nat.pow 10 (-t).toNat <<< s.toNat, Nat.pow 10 t.toNat <<< (-s).toNat)

/-- Trailing zeros move into the exponent. -/
def dropZeros : Nat → Decimal → Decimal
  | 0, d => d
  | fuel + 1, d =>
    if d.digits ≠ 0 && d.digits % 10 = 0 then dropZeros fuel ⟨d.digits / 10, d.exponent + 1⟩ else d

/-- The place of the leading digit of `m * 2 ^ s`, counted up from a guess that is not too high. -/
def leadingPlace (m : Nat) (s : Int) : Nat → Int → Int
  | 0, e => e
  | fuel + 1, e =>
    let (a, b) := alignPowers s (e + 1)
    if b ≤ m * a then leadingPlace m s fuel (e + 1) else e

/-- The best decimal with `n` digits for `mid * 2 ^ s`, if one lies between `lo * 2 ^ s` and
`hi * 2 ^ s`; `place` is the place of the leading digit. -/
def onGrid (lo mid hi : Nat) (s : Int) (ends : Bool) (place : Int) (n : Nat) : Option Decimal :=
  let t : Int := place - n + 1
  let (a, b) := alignPowers s t
  let below := mid * a / b
  let inside (d : Nat) : Bool :=
    if ends then lo * a ≤ d * b && d * b ≤ hi * a else lo * a < d * b && d * b < hi * a
  let above := below + 1
  match inside below, inside above with
  | true, true =>
    some ⟨if above * b - mid * a < mid * a - below * b then above else below, t⟩
  | true, false => some ⟨below, t⟩
  | false, true => some ⟨above, t⟩
  | false, false => none

/-- The first grid, from `n` digits on, with a decimal in the interval. -/
def firstOnGrid (lo mid hi : Nat) (s : Int) (ends : Bool) (place : Int) : Nat → Nat → Decimal
  | 0, _ => ⟨mid, s⟩
  | fuel + 1, n =>
    match onGrid lo mid hi s ends place n with
    | some d => d
    | none => firstOnGrid lo mid hi s ends place fuel (n + 1)

/-- The shortest decimal of the magnitude of a finite number. -/
def shortest (x : Binary64) : Decimal :=
  if x.isZero then ⟨0, 0⟩ else
    let m := x.mantissa
    let s := x.scale - 2
    let lo := if m = Binary64.topBit && x.scale ≠ -1074 then 4 * m - 1 else 4 * m - 2
    let guess := ((Nat.log2 m : Int) + x.scale) * 30103 / 100000 - 1
    let place := leadingPlace (4 * m) s 4 guess
    dropZeros 20 (firstOnGrid lo (4 * m) (4 * m + 2) s (m % 2 == 0) place 18 1)

end Decimal

end Stencil
