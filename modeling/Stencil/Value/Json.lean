import Stencil.Bindings
import Stencil.Bindings.Range
import Stencil.Error
import Stencil.KeyedList
/-!
# Values and JSON data

A value is written as JSON data with its maps in order, a range as its text, an object as its text
in a path or else its description.  JSON data is read as a value of the same shape, except that an
object whose only key is `$range` is a range.  An integer too large for a variable, or a malformed
range, is refused.
-/

namespace Stencil.Value

/-! ## Writing -/

mutual

/-- The value as JSON data. -/
def toJson : Value → Json
  | .null => .null
  | .bool b => .bool b
  | .int n => .integer n.toInt
  | .float x => .float x
  | .str s => .string s
  | .map entries => .object (membersOf entries)
  | .seq items => .array (itemsOf items)
  | .range first last => .string (rangeText first last)
  | .object _ pathText description _ => .string (pathText.getD description)

/-- The items as JSON data. -/
def itemsOf : List Value → List Json
  | [] => []
  | v :: vs => toJson v :: itemsOf vs

/-- The entries as members, in order. -/
def membersOf : List (String × Value) → List (String × Json)
  | [] => []
  | (name, v) :: entries => (name, toJson v) :: membersOf entries

end

/-! ## Reading -/

/-- An integer of JSON data within 64 bits. -/
def boundOf? : Json → Option Int64
  | .integer n => Decimal.narrow? n
  | _ => none

/-- The bounds that the data under `$range` gives. -/
def boundsOf? : Json → Option Bounds
  | .string text => Bounds.read? text
  | .array [first, last] =>
    match boundOf? first, boundOf? last with
    | some first, some last => some ⟨first, last⟩
    | _, _ => none
  | _ => none

/-- The range that the data under `$range` gives. -/
def rangeOf (got : Json) : Except Error Value :=
  match boundsOf? got with
  | some bounds => .ok bounds.toValue
  | none => .error (.config (.badRange got))

mutual

/-- The value of JSON data. -/
def ofJson : Json → Except Error Value
  | .null => .ok .null
  | .bool b => .ok (.bool b)
  | .integer n =>
    match Decimal.narrow? n with
    | some n => .ok (.int n)
    | none => .error (.config (.integerTooLarge n))
  | .float x => .ok (.float x)
  | .string s => .ok (.str s)
  | .array items =>
    match ofItems items with
    | .ok vs => .ok (.seq vs)
    | .error e => .error e
  | .object [(key, value)] =>
    if key = rangeKey then rangeOf value
    else
      match ofJson value with
      | .ok v => .ok (.map [(key, v)])
      | .error e => .error e
  | .object members =>
    match ofMembers members with
    | .ok entries => .ok (.map (KeyedList.ofList entries).entries)
    | .error e => .error e

/-- The values of the items; the first error counts. -/
def ofItems : List Json → Except Error (List Value)
  | [] => .ok []
  | j :: js =>
    match ofJson j with
    | .error e => .error e
    | .ok v =>
      match ofItems js with
      | .error e => .error e
      | .ok vs => .ok (v :: vs)

/-- The entries of the members; the first error counts. -/
def ofMembers : List (String × Json) → Except Error (List (String × Value))
  | [] => .ok []
  | (key, j) :: members =>
    match ofJson j with
    | .error e => .error e
    | .ok v =>
      match ofMembers members with
      | .error e => .error e
      | .ok entries => .ok ((key, v) :: entries)

end

end Stencil.Value

namespace Stencil.Bindings

/-- The bindings as JSON data. -/
def toJson (bindings : Bindings) : Json := .object (Value.membersOf bindings.entries)

end Stencil.Bindings
