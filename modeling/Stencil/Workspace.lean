import Stencil.Error
import Stencil.FileSystem
import Stencil.Warning
/-!
# Workspaces

What operations on template trees change: files, and the warnings given so far.  An operation that
fails leaves behind what it had done before.
-/

namespace Stencil

/-- Files, and the warnings so far, the latest last. -/
structure Workspace where
  files : FileSystem
  warnings : List Warning

/-- What an operation leaves behind, and its result or the error that stopped it. -/
structure Outcome (α : Type) where
  workspace : Workspace
  result : Except Error α

namespace Workspace

def warn (w : Workspace) (warnings : List Warning) : Workspace :=
  { w with warnings := w.warnings ++ warnings }

/-- An operation that succeeds and changes no more. -/
def succeed {α : Type} (w : Workspace) (result : α) : Outcome α := ⟨w, .ok result⟩

/-- An operation that stops here. -/
def fail {α : Type} (w : Workspace) (error : Error) : Outcome α := ⟨w, .error error⟩

end Workspace

end Stencil
