/-!
# Decimal integers

Writing an integer in base ten, with or without zero padding, and reading one back.  Reading takes
an optional sign and at least one digit of ASCII, and refuses what does not fit into 64 bits.
-/

namespace Stencil.Decimal

/-! ## Algorithm -/

def isDigit (c : Char) : Bool := '0' ≤ c && c ≤ '9'

/-- The number that a non-empty run of digits stands for. -/
def readNat? (cs : List Char) : Option Nat :=
  if cs.isEmpty || !cs.all isDigit then none else some (Nat.ofDigitChars 10 cs 0)

/-- An optional sign, then digits. -/
def readInt? : List Char → Option Int
  | '+' :: cs => (readNat? cs).map Int.ofNat
  | '-' :: cs => (readNat? cs).map fun n => -(n : Int)
  | cs => (readNat? cs).map Int.ofNat

/-- The 64-bit integer with this value. -/
def narrow? (n : Int) : Option Int64 :=
  if Int64.minValue.toInt ≤ n ∧ n ≤ Int64.maxValue.toInt then some (Int64.ofInt n) else none

/-- An integer text within 64 bits. -/
def readInt64? (cs : List Char) : Option Int64 := (readInt? cs).bind narrow?

/-- The integer in base ten, a minus sign in front when it is negative. -/
def writeInt (n : Int) : List Char :=
  if n < 0 then '-' :: Nat.toDigits 10 n.natAbs else Nat.toDigits 10 n.natAbs

/-- Zeros between the sign and the digits fill the text up to `width` characters. -/
def writePadded (width : Nat) (n : Int) : List Char :=
  let digits := Nat.toDigits 10 n.natAbs
  if n < 0 then '-' :: (List.replicate (width - (digits.length + 1)) '0' ++ digits)
  else List.replicate (width - digits.length) '0' ++ digits

/-! ## Lemmas -/

theorem isDigit_iff (c : Char) : isDigit c = true ↔ c.isDigit = true := by
  simp [isDigit, Char.isDigit, Char.le_def]

end Stencil.Decimal
