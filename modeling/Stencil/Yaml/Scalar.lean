import Stencil.Decimal.Layout
import Stencil.Json.Basic
import Stencil.Text.Numeral
/-!
# What scalars mean

A quoted scalar is a string.  A plain one is null, a boolean, an integer or a number if it reads as
one, and a string otherwise; a tag of the standard set asks for one of them.  Decimal digits with a
zero in front are a string.
-/

namespace Stencil.Yaml.Scalar

/-! ## Readings -/

def isNull (s : String) : Bool := ["null", "Null", "NULL", "~"].contains s

def boolean? (s : String) : Option Bool :=
  if ["true", "True", "TRUE"].contains s then some true
  else if ["false", "False", "FALSE"].contains s then some false
  else none

/-- The text without a plus sign in front. -/
def dropPlus : List Char → List Char
  | '+' :: cs => cs
  | cs => cs

def dropSign : List Char → List Char
  | '+' :: cs => cs
  | '-' :: cs => cs
  | cs => cs

/-- Whether digits alone make up a text that a zero starts, apart from zero itself. -/
def isZeroPadded (cs : List Char) : Bool :=
  match dropSign cs with
  | '0' :: c :: cs => (c :: cs).all Decimal.isDigit
  | _ => false

/-- The number that digits of the base shown by their mark stand for. -/
def readBased? : List Char → Option Nat
  | '0' :: 'x' :: cs => Text.readNumeral? 16 cs
  | '0' :: 'o' :: cs => Text.readNumeral? 8 cs
  | '0' :: 'b' :: cs => Text.readNumeral? 2 cs
  | cs => if isZeroPadded cs then none else Text.readNumeral? 10 cs

/-- The integer that a text writes, of whatever size. -/
def integer? (cs : List Char) : Option Int :=
  match cs with
  | '-' :: cs => (readBased? cs).map fun n => -(n : Int)
  | cs => (readBased? (dropPlus cs)).map Int.ofNat

/-- Whether a variable's data can hold the integer. -/
def isNarrow (n : Int) : Bool := -0x8000000000000000 ≤ n && n < 0x10000000000000000

/-- Whether the integer is too large to be data and too small to be taken for a float. -/
def isWide (n : Int) : Bool :=
  -0x80000000000000000000000000000000 ≤ n && n < 0x100000000000000000000000000000000 && !isNarrow n

def infinityWords : List String := [".inf", ".Inf", ".INF"]

def nanWords : List String := [".nan", ".NaN", ".NAN"]

/-- The number that a text writes, infinities and NaN included. -/
def number? (cs : List Char) : Option Binary64 :=
  let word := String.ofList cs
  if infinityWords.contains (String.ofList (dropPlus cs)) then some (Binary64.infinity false)
  else if cs.head? = some '-' && infinityWords.contains (String.ofList (cs.drop 1)) then
    some (Binary64.infinity true)
  else if nanWords.contains word then some Binary64.nan
  else (Decimal.readBinary64? cs).filter Binary64.isFinite

/-- A number as data; only finite ones have a form of their own. -/
def dataOf (x : Binary64) : Json := if x.isFinite then .float x else .null

/-! ## Meaning -/

/-- The integer as data: `none` where the text writes no integer, an inner `none` where the integer
is refused. -/
def integerData? (cs : List Char) : Option (Option Json) :=
  match integer? cs with
  | none => none
  | some n => if isNarrow n then some (some (.integer n)) else if isWide n then some none else none

/-- The data that a plain scalar writes. -/
def ofPlain? (text : String) : Option Json :=
  let cs := text.toList
  if text = "" || isNull text then some .null
  else
    match boolean? text, integerData? cs with
    | some b, _ => some (.bool b)
    | none, some data => data
    | none, none =>
      match if isZeroPadded cs then none else number? cs with
      | some x => some (dataOf x)
      | none => some (.string text)

/-- The bytes that the tags of the standard set start with. -/
def standardTag : List UInt8 := "tag:yaml.org,2002:".toUTF8.toList

/-- The tag of the standard set with this name. -/
def standardNamed (name : String) : List UInt8 := standardTag ++ name.toUTF8.toList

/-- Whether a tag starts with the mark of those that are local to a document. -/
def hasLocalMark (tag : List UInt8) : Bool := tag.head? == some 0x21

/-- Whether a tag is a name local to a document; such names have no meaning here. -/
def isLocalTag (tag : List UInt8) : Bool :=
  hasLocalMark tag && (String.fromUTF8? ⟨(tag.drop 1).toArray⟩).isSome

/-- The data of a scalar. -/
def meaning? (tag : Option (List UInt8)) (plain : Bool) (text : String) : Option Json :=
  match tag with
  | none => if plain then ofPlain? text else some (.string text)
  | some tag =>
    if isLocalTag tag then none
    else if tag = standardNamed "bool" then (boolean? text).map .bool
    else if tag = standardNamed "int" then (integerData? text.toList).join
    else if tag = standardNamed "float" then (number? text.toList).map dataOf
    else if tag = standardNamed "null" then if isNull text then some .null else none
    else if plain && hasLocalMark tag then ofPlain? text
    else some (.string text)

end Stencil.Yaml.Scalar
