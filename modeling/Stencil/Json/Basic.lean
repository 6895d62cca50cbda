import Stencil.Binary64
import Stencil.Sorted
/-!
# JSON data

The data model of JSON, with integers kept apart from other numbers.  An object is a list of pairs;
readers give it with its keys sorted and distinct (`Json.sortedObject`).
-/

namespace Stencil

/-- JSON data. -/
inductive Json where
  | null
  | bool (b : Bool)
  | integer (n : Int)
  | float (x : Binary64)
  | string (s : String)
  | array (items : List Json)
  | object (members : List (String × Json))

namespace Json

instance : Inhabited Json := ⟨.null⟩

/-- An object whose keys are sorted and distinct. -/
def sortedObject (members : List (String × Json)) : Json := .object (Sorted.ofList members)

end Json

end Stencil
