/-!
# Blanks

A blank is a character with the Unicode property `White_Space`.  Trimming removes blanks from both
ends of a text and never touches its inside.

    (∀ c, cs.head? = some c → p c = false) → cs.dropWhile p = cs       (`dropWhile_eq_self`)
-/

namespace Stencil.Text

/-! ## Algorithm -/

/-- A character with the property `White_Space`: 25 characters in ten runs. -/
def isBlank (c : Char) : Bool :=
  let n := c.toNat
  (0x09 ≤ n && n ≤ 0x0D) || n == 0x20 || n == 0x85 || n == 0xA0 || n == 0x1680 ||
    (0x2000 ≤ n && n ≤ 0x200A) || n == 0x2028 || n == 0x2029 || n == 0x202F || n == 0x205F ||
    n == 0x3000

/-- Blanks of ASCII that separate the words of a template tag. -/
def isAsciiBlank (c : Char) : Bool :=
  c == ' ' || c == '\t' || c == '\n' || c == '\r' || c.toNat == 0x0C

def trimLeft (cs : List Char) : List Char := cs.dropWhile isBlank

def trimRight (cs : List Char) : List Char := (cs.reverse.dropWhile isBlank).reverse

def trim (cs : List Char) : List Char := trimRight (trimLeft cs)

/-- The text without the blanks at its two ends. -/
def strip (s : String) : String := String.ofList (trim s.toList)

/-! ## Lemmas -/

theorem dropWhile_eq_self {p : Char → Bool} {cs : List Char}
    (h : ∀ c, cs.head? = some c → p c = false) : cs.dropWhile p = cs := by
  cases cs with
  | nil => rfl
  | cons a cs => rw [List.dropWhile_cons, h a rfl]; simp

end Stencil.Text
