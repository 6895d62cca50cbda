import Stencil.Bindings
import Stencil.Placeholder
/-!
# Expansion

The placeholders of a path stand for axes: each distinct bound name with the choices that its value
gives.  A path with an enumerable axis fans out over the product of all axes, in nested-loop order
with the last name varying fastest.
-/

namespace Stencil

/-- One choice for each name of a path. -/
abbrev Overlay := Bindings

/-- What the placeholders of a path mean for the node that carries it. -/
inductive Expansion where
  /-- No bound name has an enumerable value: the node stays as it is. -/
  | leaf
  /-- One copy of the node for each overlay, in order. -/
  | fanOut (overlays : List Overlay)
  /-- Some axis has no choices: there is no copy at all. -/
  | empty

namespace Expansion

/-- The names in the order of their first appearance. -/
def distinctNames (placeholders : List Placeholder) : List String :=
  (placeholders.map (·.name)).eraseDups

/-- The distinct names that are bound, with their values. -/
def axes (placeholders : List Placeholder) (bindings : Bindings) : List (String × Value) :=
  (distinctNames placeholders).filterMap fun name =>
    (bindings.find? name).map fun value => (name, value)

/-- All ways to choose one value on each axis, the last axis varying fastest. -/
def product : List (String × Value) → List (List (String × Value))
  | [] => [[]]
  | (name, value) :: axes =>
    value.choices.flatMap fun choice => (product axes).map ((name, choice) :: ·)

/-- The expansion of a path with these placeholders. -/
def of (placeholders : List Placeholder) (bindings : Bindings) : Expansion :=
  let axes := axes placeholders bindings
  if axes.any fun axis => axis.2.isEnumerable then
    match product axes with
    | [] => .empty
    | overlays => .fanOut (overlays.map KeyedList.ofList)
  else .leaf

/-- The overlays of a path that fans out; none for any other. -/
def overlays : Expansion → List Overlay
  | .fanOut overlays => overlays
  | _ => []

end Expansion

end Stencil
