import Stencil.Decimal.Integer
import Stencil.Text.Blank
import Stencil.Text.Search
import Stencil.Value
/-!
# Range texts

A range is written `A..B` or `A..=B`, blanks allowed around either bound.  Both spellings include
the last integer.
-/

namespace Stencil

/-- The bounds of an inclusive range of integers. -/
structure Bounds where
  first : Int64
  last : Int64
deriving DecidableEq

namespace Bounds

/-- The text without a leading equals sign. -/
def dropEquals : List Char → List Char
  | '=' :: cs => cs
  | cs => cs

/-- The bounds of a range text. -/
def readChars? (cs : List Char) : Option Bounds :=
  match Text.splitAtFirst ['.', '.'] (Text.trim cs) with
  | none => none
  | some (first, last) =>
    match Decimal.readInt64? (Text.trim first), Decimal.readInt64? (Text.trim (dropEquals last)) with
    | some first, some last => some ⟨first, last⟩
    | _, _ => none

def read? (text : String) : Option Bounds := readChars? text.toList

def toValue (b : Bounds) : Value := .range b.first b.last

end Bounds

end Stencil
