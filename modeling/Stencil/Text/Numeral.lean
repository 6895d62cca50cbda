/-!
# Numerals

Digits in bases up to 16, and the characters that code points name.  A numeral is a non-empty run of
digits of its base, letters in either case.
-/

namespace Stencil.Text

/-- The value of a digit of this base. -/
def digitValue? (base : Nat) (c : Char) : Option Nat :=
  let value? : Option Nat :=
    if '0' ≤ c && c ≤ '9' then some (c.toNat - '0'.toNat)
    else if 'a' ≤ c && c ≤ 'z' then some (c.toNat - 'a'.toNat + 10)
    else if 'A' ≤ c && c ≤ 'Z' then some (c.toNat - 'A'.toNat + 10)
    else none
  value?.filter (· < base)

/-- The number that digits stand for, after those that stand for `high`. -/
def readDigits? (base : Nat) : Nat → List Char → Option Nat
  | high, [] => some high
  | high, c :: cs =>
    match digitValue? base c with
    | some d => readDigits? base (high * base + d) cs
    | none => none

/-- The number that a numeral stands for. -/
def readNumeral? (base : Nat) (cs : List Char) : Option Nat :=
  if cs.isEmpty then none else readDigits? base 0 cs

/-- The number of exactly `width` hexadecimal digits at the front of a text. -/
def readHex? (width : Nat) (cs : List Char) : Option Nat :=
  let digits := cs.take width
  if digits.length < width then none else readDigits? 16 0 digits

/-- The character with this code point. -/
def charOf? (n : Nat) : Option Char := if n.isValidChar then some (Char.ofNat n) else none

end Stencil.Text
