import Stencil.KeyedList
import Stencil.Value
/-!
# Bindings

The variables of a template tree and the values they are bound to, in the order in which they were
first bound.
-/

namespace Stencil

/-- Values by variable name. -/
abbrev Bindings := KeyedList Value

namespace Bindings

/-- The deepest nesting of enumerable values among the bindings. -/
def nesting (bindings : Bindings) : Nat :=
  Value.nestingItems (bindings.entries.map Prod.snd)

end Bindings

end Stencil
