import Stencil.Decimal.Integer
/-!
# Placeholders

A placeholder is written `%name%`.  A run of zeros before the name sets a width for zero padding
(`%0000count%`), and a second name after a point is an accessor of the bound value
(`%person.name%`).  Names are letters, digits and underscores of ASCII with a letter in front.

Scanning cuts a path into placeholders and the characters between them.
-/

namespace Stencil

/-- A placeholder.  `zeros` is the width of its padding; 0 is none. -/
structure Placeholder where
  name : String
  zeros : Nat
  accessor : Option String
deriving DecidableEq

namespace Placeholder

/-! ## Building and writing -/

/-- The placeholder of a name, without padding or accessor. -/
def ofName (name : String) : Placeholder := ⟨name, 0, none⟩

def withAccessor (p : Placeholder) (accessor : String) : Placeholder :=
  { p with accessor := some accessor }

/-- Width 0 takes the padding away. -/
def withWidth (p : Placeholder) (width : Nat) : Placeholder := { p with zeros := width }

def delimiter : Char := '%'

/-- The accessor with its point. -/
def accessorChars : Option String → List Char
  | none => []
  | some accessor => '.' :: accessor.toList

/-- The placeholder as it is written in a path. -/
def chars (p : Placeholder) : List Char :=
  delimiter :: (List.replicate p.zeros '0' ++ p.name.toList ++ accessorChars p.accessor ++ [delimiter])

def literal (p : Placeholder) : String := String.ofList p.chars

/-! ## Scanning -/

/-- A letter of ASCII. -/
def isLetter (c : Char) : Bool := ('a' ≤ c && c ≤ 'z') || ('A' ≤ c && c ≤ 'Z')

/-- A character of a name after its first. -/
def isNameChar (c : Char) : Bool := isLetter c || Decimal.isDigit c || c == '_'

/-- The longest name at the start of a text, and what follows it. -/
def readName? : List Char → Option (String × List Char)
  | [] => none
  | c :: cs =>
    if isLetter c then some (String.ofList (c :: cs.takeWhile isNameChar), cs.dropWhile isNameChar)
    else none

/-- The placeholder after its delimiter and zeros. -/
def readBody? (zeros : Nat) (cs : List Char) : Option Placeholder :=
  match readName? cs with
  | none => none
  | some (name, '%' :: _) => some ⟨name, zeros, none⟩
  | some (name, '.' :: cs) =>
    match readName? cs with
    | some (accessor, '%' :: _) => some ⟨name, zeros, some accessor⟩
    | _ => none
  | some _ => none

/-- The placeholder that starts at the first character. -/
def at? : List Char → Option Placeholder
  | '%' :: cs => readBody? (cs.takeWhile (· == '0')).length (cs.dropWhile (· == '0'))
  | _ => none

/-- A part of a path: a placeholder, or a character outside of all placeholders. -/
inductive Piece where
  | hole (p : Placeholder)
  | plain (c : Char)
deriving DecidableEq

/-- The pieces of a text, of which the first `skip` characters belong to the piece before. -/
def piecesFrom : Nat → List Char → List Piece
  | _, [] => []
  | skip + 1, _ :: cs => piecesFrom skip cs
  | 0, c :: cs =>
    match at? (c :: cs) with
    | some p => .hole p :: piecesFrom (p.chars.length - 1) cs
    | none => .plain c :: piecesFrom 0 cs

/-- The pieces of a path from left to right. -/
def pieces (path : String) : List Piece := piecesFrom 0 path.toList

def Piece.hole? : Piece → Option Placeholder
  | .hole p => some p
  | .plain _ => none

/-- Every placeholder of a path, from left to right. -/
def scan (path : String) : List Placeholder := (pieces path).filterMap Piece.hole?

end Placeholder

end Stencil
