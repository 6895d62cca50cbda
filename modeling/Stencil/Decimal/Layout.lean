import Stencil.Decimal.Shortest
/-!
# Layouts of floating-point numbers

The digits of a number are always those of its shortest decimal.  A layout says how they are set:
which numbers are written positionally, whether an integral number keeps `.0`, and how an exponent
is written.
-/

namespace Stencil.Decimal

/-- How the digits of a number are set. -/
structure Layout where
  /-- Numbers whose leading digit has a place from `positionalFrom` up to below `positionalTo` are
  written without exponent; `none` sets no bound. -/
  positionalFrom : Option Int
  positionalTo : Option Int
  /-- Integral numbers end in `.0`. -/
  pointZero : Bool
  /-- A positive exponent carries a sign. -/
  exponentPlus : Bool
deriving DecidableEq

/-- Plain text: never an exponent, no `.0`. -/
def Layout.plain : Layout := ⟨none, none, false, false⟩

/-- Template output: never an exponent, integral numbers with `.0`. -/
def Layout.printed : Layout := ⟨none, none, true, false⟩

/-- Inside a printed list or map: exponents below `1e-4` and from `1e16` on. -/
def Layout.nested : Layout := ⟨some (-4), some 16, true, false⟩

/-- JSON text: exponents below `1e-5` and from `1e16` on, with their sign. -/
def Layout.json : Layout := ⟨some (-5), some 16, true, true⟩

/-- The place of the leading digit. -/
def place (d : Decimal) : Int := d.exponent + (Nat.toDigits 10 d.digits).length - 1

def zeros (n : Nat) : List Char := List.replicate n '0'

/-- The digits around the decimal point. -/
def positional (layout : Layout) (d : Decimal) : List Char :=
  let ds := Nat.toDigits 10 d.digits
  let tail := if layout.pointZero then ['.', '0'] else []
  if 0 ≤ d.exponent then ds ++ zeros d.exponent.toNat ++ tail
  else
    let places := (-d.exponent).toNat
    if places < ds.length then ds.take (ds.length - places) ++ '.' :: ds.drop (ds.length - places)
    else '0' :: '.' :: (zeros (places - ds.length) ++ ds)

/-- One digit, the others after the point, and the exponent. -/
def scientific (layout : Layout) (d : Decimal) : List Char :=
  let e := d.place
  let sign := if layout.exponentPlus && 0 ≤ e then ['+'] else []
  let mantissa := match Nat.toDigits 10 d.digits with
    | [] => []
    | [c] => [c]
    | c :: cs => c :: '.' :: cs
  mantissa ++ 'e' :: (sign ++ writeInt e)

def isPositional (layout : Layout) (d : Decimal) : Bool :=
  d.digits = 0 ||
    (layout.positionalFrom.all (· ≤ d.place) && layout.positionalTo.all (d.place < ·))

/-- The text of a number; NaN and the infinities are words. -/
def write (layout : Layout) (x : Binary64) : List Char :=
  let sign := if x.isNegative then ['-'] else []
  if x.isNaN then "NaN".toList
  else if x.isInfinite then sign ++ "inf".toList
  else
    let d := shortest x
    sign ++ (if isPositional layout d then positional layout d else scientific layout d)

/-- The text of a number as a string. -/
def text (layout : Layout) (x : Binary64) : String := String.ofList (write layout x)

/-! ## Reading -/

/-- `inf`, `infinity` and `nan` in any case of letters. -/
def readWord? (negative : Bool) (cs : List Char) : Option Binary64 :=
  let word := String.ofList (cs.map Char.toLower)
  if word = "inf" || word = "infinity" then some (Binary64.infinity negative)
  else if word = "nan" then some (if negative then Binary64.nan.neg else Binary64.nan)
  else none

/-- Digits with an optional point and an optional exponent, rounded to the nearest number. -/
def readUnsigned? (negative : Bool) (cs : List Char) : Option Binary64 :=
  let whole := cs.takeWhile isDigit
  let rest := cs.dropWhile isDigit
  let (fraction, rest) := match rest with
    | '.' :: rest => (rest.takeWhile isDigit, rest.dropWhile isDigit)
    | rest => ([], rest)
  let exponent? : Option Int := match rest with
    | [] => some 0
    | e :: rest => if e = 'e' || e = 'E' then readInt? rest else none
  if whole.isEmpty && fraction.isEmpty then none
  else exponent?.map fun exponent =>
    Binary64.ofDecimal negative (Nat.ofDigitChars 10 (whole ++ fraction) 0)
      (exponent - fraction.length)

/-- The number that a text such as `1.5`, `-.5e3`, `inf` or `NaN` stands for. -/
def readBinary64? (cs : List Char) : Option Binary64 :=
  let (negative, cs) := match cs with
    | '-' :: cs => (true, cs)
    | '+' :: cs => (false, cs)
    | cs => (false, cs)
  (readUnsigned? negative cs).or (readWord? negative cs)

end Stencil.Decimal
