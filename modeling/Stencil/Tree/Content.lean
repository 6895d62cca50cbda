import Stencil.FileSystem
import Stencil.Renderer
import Stencil.Tree.Destination
import Stencil.Warning
/-!
# The content of files

A template is rendered, any other file is copied byte for byte.  A template that cannot be rendered
stops the operation or becomes a diagnostic, as the policy says.
-/

namespace Stencil

/-- The content of a file that is written. -/
inductive Output where
  | rendered (text : String)
  | copied (content : ByteArray)
  /-- The diagnostic of a template that could not be rendered. -/
  | failed (text : String)

def Output.bytes : Output → ByteArray
  | rendered text => text.toUTF8
  | copied content => content
  | failed text => text.toUTF8

namespace TemplateTree

/-- The rendered template of a node, and the warning if it becomes a diagnostic. -/
def renderTemplate (renderer : Renderer) (policy : FailurePolicy) (label text : String)
    (bindings : Bindings) : Except Error (Output × Option Warning) :=
  match renderer label text bindings, policy with
  | .ok text, _ => .ok (.rendered text, none)
  | .error e, .abort => .error e
  | .error e, .embed => .ok (.failed (diagnostic label bindings e), some (.notRendered label e))

/-- The content of a node, and the warning that goes with it.  Only files have content. -/
def content (t : TemplateTree) (files : FileSystem) (renderer : Renderer) (policy : FailurePolicy)
    (n : Node) : Except Error (Output × Option Warning) :=
  match n with
  | .file (.text text) bindings => renderTemplate renderer policy "<text>" text bindings
  | .file (.path p) bindings =>
    if t.isTemplate n then
      match files.readText p with
      | .error fault => .error (.io fault)
      | .ok text => renderTemplate renderer policy p.text text bindings
    else
      match files.read p with
      | .error fault => .error (.io fault)
      | .ok content => .ok (.copied content, none)
  | .directory p _ _ | .expanded p _ _ => .error (.render p.text "only files have content")

end TemplateTree

/-- A text rendered as a template. -/
def renderText (policy : FailurePolicy) (text : String) (bindings : Bindings) : Except Error String :=
  (TemplateTree.renderTemplate (Renderer.standard false) policy "<text>" text bindings).map fun
    | (.rendered text, _) => text
    | (.failed text, _) => text
    | (.copied _, _) => ""

end Stencil
