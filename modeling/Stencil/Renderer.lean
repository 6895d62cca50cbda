import Stencil.Error
import Stencil.Template
import Stencil.Value.Json
/-!
# Renderers

A renderer makes the content of a file from the text of a template and its bindings.  Where rendering
fails, the operation either stops or goes on with a diagnostic in place of the content.
-/

namespace Stencil

/-- Renders the text of a template, known by its label, with bound variables. -/
abbrev Renderer := String → String → Bindings → Except Error String

/-- The renderer of templates; a strict one refuses undefined variables. -/
def Renderer.standard (strict : Bool) : Renderer := fun label text bindings =>
  match Template.render strict text bindings with
  | .ok text => .ok text
  | .error fault => .error (.render label fault.message)

/-- What becomes of a template that cannot be rendered. -/
inductive FailurePolicy where
  /-- The operation stops. -/
  | abort
  /-- A diagnostic is written in place of the content. -/
  | embed
deriving DecidableEq

/-- The first line of every diagnostic. -/
def diagnosticHeader : String := "fanout: template render error"

/-- The cause of an error as a diagnostic states it. -/
def Error.diagnosis : Error → String
  | .render _ message => message
  | e => e.message

/-- The diagnostic of a template that cannot be rendered: where it comes from, the bindings and the
cause. -/
def diagnostic (label : String) (bindings : Bindings) (error : Error) : String :=
  "\n".intercalate [diagnosticHeader, "", "path: " ++ label, "",
    "bindings: " ++ bindings.toJson.indented, "", "error: " ++ error.diagnosis, ""]

end Stencil
