import Stencil.Bindings
import Stencil.Json.Reader
import Stencil.Value.Json
import Stencil.Yaml.Document
/-!
# Reading bindings

Bindings come from a file that is a JSON object or a YAML mapping, and from assignments
`KEY=VALUE`.  The value of an assignment is a range if it reads as one, JSON data if it reads as
that, and else the text as it stands.
-/

namespace Stencil.Bindings

/-- The bindings that data by name gives; a repeated name counts with its last data. -/
def ofMembers (members : List (String × Json)) : Except Error Bindings :=
  match Value.ofMembers (KeyedList.ofList members).entries with
  | .ok entries => .ok (KeyedList.ofList entries)
  | .error e => .error e

/-- The data by name of a bindings text: a JSON object, or else a YAML mapping. -/
def membersOf? (text : String) : Option (List (String × Json)) :=
  match Json.readObject? text with
  | some members => some members
  | none => Yaml.readMembers? text

/-- The bindings of the text of a bindings file. -/
def read (text : String) : Except Error Bindings :=
  match membersOf? text with
  | some members => ofMembers members
  | none => .error (.config .malformedBindings)

/-- The value of an assignment. -/
def readAssigned (raw : List Char) : Except Error Value :=
  match Bounds.readChars? raw with
  | some bounds => .ok bounds.toValue
  | none =>
    match Json.read? (String.ofList raw) with
    | some j => Value.ofJson j
    | none => .ok (.str (String.ofList raw))

/-- The name and the value of an assignment. -/
def readAssignment (text : String) : Except Error (String × Value) :=
  match Text.splitAtFirst ['='] text.toList with
  | none => .error (.config (.notAnAssignment text))
  | some (key, raw) =>
    let key := Text.trim key
    if key.isEmpty then .error (.config (.missingName text))
    else
      match readAssigned raw with
      | .ok value => .ok (String.ofList key, value)
      | .error e => .error e

end Stencil.Bindings
