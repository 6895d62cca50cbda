import Stencil.Expansion
import Stencil.FileSystem
import Stencil.Placeholder.Fill
import Stencil.Tree
import Stencil.Warning
/-!
# Building template trees

A directory is listed and then built entry by entry in the order of the names.  Each entry is first
checked for unbound placeholders, then built once for each of the bindings that its name expands into.
Whether it is a directory is asked of its path: where that leads to no directory, the entry is built as a
file.  A file whose name still fans out, because a value was a sequence of sequences, is expanded further.

A build that fails keeps its warnings.
-/

namespace Stencil.TemplateTree

/-- A result or an error, with the warnings on the way to it, the latest last. -/
abbrev Build := EStateM Error (List Warning)

/-- Why a tree was not built, and the warnings before that. -/
structure Failure where
  error : Error
  warnings : List Warning

/-- What a build comes to without warnings before it. -/
def Build.settle {α : Type} (x : Build α) : Except Failure (α × List Warning) :=
  match x.run [] with
  | .ok a warnings => .ok (a, warnings)
  | .error e warnings => .error ⟨e, warnings⟩

def warn (w : Warning) : Build Unit := modify (· ++ [w])

/-- What is wrong with a name that holds an unbound placeholder. -/
def checkUnbound (policy : UnboundPolicy) (name : String) (bindings : Bindings) : Build Unit :=
  match Placeholder.unbound name bindings, policy with
  | [], _ => return ()
  | p :: _, .strict => throw (.unresolvedPlaceholder name p.literal)
  | p :: _, .literal => warn (.unbound p name)

/-- What a name means with these bindings. -/
def expansionOf (name : String) (bindings : Bindings) : Expansion :=
  Expansion.of (Placeholder.bound name bindings) bindings

/-- The bindings of each node that an entry of this name expands into. -/
def variants (name : String) (bindings : Bindings) : List Bindings :=
  match expansionOf name bindings with
  | .leaf => [bindings]
  | .fanOut overlays => overlays.map bindings.merge
  | .empty => []

/-- The node of a file, whose name fans out at most so many times over. -/
def fileNode (source : Path) : Nat → Bindings → Node
  | 0, bindings => .file (.path source) bindings
  | depth + 1, bindings =>
    match expansionOf source.fileName bindings with
    | .leaf => .file (.path source) bindings
    | .fanOut overlays =>
      .expanded source bindings (overlays.map fun o => fileNode source depth (bindings.merge o))
    | .empty => .expanded source bindings []

/-- The node of a file.  A name fans out no more often than values are nested. -/
def ofFile (source : Path) (bindings : Bindings) : Node :=
  fileNode source bindings.nesting bindings

/-- The entries of a directory are listed, or the build ends. -/
def checkListing (files : FileSystem) (directory : Path) : Build Unit :=
  match files.listingFault? directory with
  | none => return ()
  | some fault => throw (.io fault)

/-- Steps that belong to names, one after the other in the order of the names. -/
def inOrder (steps : List (String × Build (List Node))) : Build (List Node) := do
  return (← (Sorted.ofList steps).mapM Prod.snd).flatten

mutual

/-- The node of an entry with these bindings: a directory only if its path leads to one. -/
def ofEntry (files : FileSystem) (policy : UnboundPolicy) (source : Path) :
    Entry → Bindings → Build Node
  | .file _, bindings => return ofFile source bindings
  | .directory children, bindings =>
    if files.isDirectory source then do
      checkListing files source
      return .directory source bindings (← inOrder (ofEntries files policy source bindings children))
    else return ofFile source bindings

/-- For each entry of a directory its name and how its nodes are built. -/
def ofEntries (files : FileSystem) (policy : UnboundPolicy) (source : Path) (bindings : Bindings) :
    List (String × Entry) → List (String × Build (List Node))
  | [] => []
  | (name, entry) :: entries =>
    (name, do
      checkUnbound policy name bindings
      (variants name bindings).mapM (ofEntry files policy (source.join ⟨name⟩) entry)) ::
      ofEntries files policy source bindings entries

end

/-- The root node of a source. -/
def ofRoot (files : FileSystem) (policy : UnboundPolicy) (source : Path) (entry : Entry)
    (bindings : Bindings) : Build Node := do
  if !entry.isDirectory then checkUnbound policy source.fileName bindings
  ofEntry files policy source entry bindings

/-- The tree of a source in a file system, and the warnings. -/
def build (files : FileSystem) (source : Path) (bindings : Bindings) (options : TreeOptions) :
    Except Failure (TemplateTree × List Warning) :=
  match files.lookup source with
  | .error .notFound => .error ⟨.sourceNotFound source, []⟩
  | .error fault => .error ⟨.io fault, []⟩
  | .ok entry => Build.settle do
    return ⟨← ofRoot files options.unbound source entry bindings, options⟩

end Stencil.TemplateTree
