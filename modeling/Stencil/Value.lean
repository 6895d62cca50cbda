import Stencil.Binary64
import Stencil.Decimal.Layout
import Stencil.Text.Blank
/-!
# Values

What a variable can be bound to: a scalar, a map, something enumerable (a sequence or an inclusive
range of integers), or an opaque object with named operations.  Enumerable values are what makes a
file name fan out.

Equality (`Value.eq`) looks at maps without regard to the order of their keys, at numbers as numbers
(NaN equals nothing), and at objects by identity.
-/

namespace Stencil

/-- A bound value.  The names in a map are distinct: every reader of values puts them through
`KeyedList`. -/
inductive Value where
  | null
  | bool (b : Bool)
  | int (n : Int64)
  | float (x : Binary64)
  | str (s : String)
  | map (entries : List (String × Value))
  | seq (items : List Value)
  /-- The integers from `first` to `last`, both included; none when `last < first`. -/
  | range (first last : Int64)
  /-- An object known by its identity: the text it has in a path, if any, the text that describes
  it, and the value each of its operations gives. -/
  | object (identity : Nat) (pathText : Option String) (description : String)
      (invoke : String → Option Value)

instance : Inhabited Value := ⟨.null⟩

namespace Value

/-- The kinds of values. -/
inductive Kind where
  | null | boolean | integer | float | string | map | sequence | range | object
deriving DecidableEq

def Kind.name : Kind → String
  | null => "null"
  | boolean => "boolean"
  | integer => "integer"
  | float => "float"
  | string => "string"
  | map => "map"
  | sequence => "sequence"
  | range => "range"
  | object => "object"

def kind : Value → Kind
  | .null => .null
  | .bool _ => .boolean
  | .int _ => .integer
  | .float _ => .float
  | .str _ => .string
  | .map _ => .map
  | .seq _ => .sequence
  | .range _ _ => .range
  | .object .. => .object

def isNull : Value → Bool
  | .null => true
  | _ => false

/-- Whether a file name fans out over the value. -/
def isEnumerable : Value → Bool
  | .seq _ => true
  | .range _ _ => true
  | _ => false

/-- The integers from `first` to `last` in order. -/
def rangeElements (first last : Int64) : List Value :=
  (List.range (last.toInt - first.toInt + 1).toNat).map fun (i : Nat) =>
    .int (Int64.ofInt (first.toInt + i))

/-- The elements of an enumerable value in order. -/
def elements? : Value → Option (List Value)
  | .seq items => some items
  | .range first last => some (rangeElements first last)
  | _ => none

/-- The elements of an enumerable value; any other value is its own only choice. -/
def choices (v : Value) : List Value := v.elements?.getD [v]

/-- The integer that the value is or writes. -/
def asInteger? : Value → Option Int64
  | .int n => some n
  | .float x => x.toInt64?
  | .str s => Decimal.readInt64? (Text.trim s.toList)
  | _ => none

/-- The text of the value in a path.  Null, maps and enumerable values have none. -/
def pathText? : Value → Option String
  | .bool b => some (if b then "true" else "false")
  | .int n => some (String.ofList (Decimal.writeInt n.toInt))
  | .float x => some (Decimal.text .plain x)
  | .str s => some s
  | .object _ text _ _ => text
  | _ => none

/-- The text that stands for a range. -/
def rangeText (first last : Int64) : String :=
  String.ofList (Decimal.writeInt first.toInt ++ ['.', '.'] ++ Decimal.writeInt last.toInt)

mutual

/-- Equality of values. -/
def eq : Value → Value → Bool
  | .null, .null => true
  | .bool a, .bool b => a == b
  | .int a, .int b => a == b
  | .float a, .float b => a.eq b
  | .str a, .str b => a == b
  | .map a, .map b => a.length == b.length && eqEntries a b
  | .seq a, .seq b => eqItems a b
  | .range a b, .range c d => a == c && b == d
  | .object a _ _ _, .object b _ _ _ => a == b
  | _, _ => false

/-- Equality item by item. -/
def eqItems : List Value → List Value → Bool
  | [], [] => true
  | a :: as, b :: bs => eq a b && eqItems as bs
  | _, _ => false

/-- Each entry on the left is found on the right. -/
def eqEntries : List (String × Value) → List (String × Value) → Bool
  | [], _ => true
  | (name, a) :: as, bs =>
    (match bs.lookup name with
      | some b => eq a b
      | none => false) && eqEntries as bs

end

instance : BEq Value := ⟨eq⟩

mutual

/-- How deep enumerable values are nested in each other. -/
def nesting : Value → Nat
  | .seq items => nestingItems items + 1
  | .range _ _ => 1
  | _ => 0

/-- The deepest nesting among the items. -/
def nestingItems : List Value → Nat
  | [] => 0
  | v :: vs => max (nesting v) (nestingItems vs)

end

end Value

end Stencil
