import Stencil.Error
import Stencil.Placeholder
/-!
# Warnings

What is worth telling although an operation goes on.
-/

namespace Stencil

/-- A warning. -/
inductive Warning where
  /-- A placeholder names an unbound variable and stays in the path. -/
  | unbound (placeholder : Placeholder) (name : String)
  /-- A node is not written because a variable in its name is null. -/
  | noDestination (source : Path)
  /-- The same for the only node of a tree that is written to a given path. -/
  | noContent (source : Path)
  | writtenAgain (target : Path)
  | notRendered (label : String) (error : Error)

def Warning.message : Warning → String
  | unbound placeholder name =>
    "Placeholder " ++ placeholder.literal ++ " in '" ++ name ++ "' is not bound; it is kept as written"
  | noDestination source =>
    "node not written: missing destination for " ++ source.text ++ " (a filename variable is null)"
  | noContent source => "node not written: missing destination for " ++ source.text
  | writtenAgain target => target.text ++ " is written by more than one node; the later one wins"
  | notRendered label error => "Template " ++ label ++ " could not be rendered: " ++ error.message

end Stencil
