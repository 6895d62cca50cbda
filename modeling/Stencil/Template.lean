import Stencil.Template.Evaluate
import Stencil.Template.Statement.Reader
/-!
# Templates

A template is read as a whole before any of it is rendered, so a fault of its grammar shows even where
it would never be reached.
-/

namespace Stencil.Template

/-- More than a template with this many tokens can need, whatever its loops. -/
def fuelFor (tokens : Nat) : Nat := 2 * (Eval.maxFrames + 2) * (tokens + 20)

/-- The text of a template with bound variables.  Where it is strict, undefined data is refused. -/
def render (strict : Bool) (template : String) (bindings : Bindings) : Except Fault String :=
  match read template with
  | .error fault => .error fault
  | .ok statements =>
    let setting : Setting := ⟨strict, bindings.entries.map fun (name, v) => (name, .ofValue v)⟩
    let scene : Scene := ⟨[⟨[], none⟩], "", false⟩
    let fuel := fuelFor (Token.scan template).tokens.length
    match (eachStatement (execute setting fuel) statements).run scene with
    | .error fault => .error fault
    | .ok (_, scene) => .ok scene.output

end Stencil.Template
