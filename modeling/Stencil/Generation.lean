import Stencil.Bindings.Reader
import Stencil.Tree.Build
import Stencil.Tree.Write
/-!
# Generation

A source is built into a tree, which is then written.  Whatever fails before the writing leaves
all files as they were.
-/

namespace Stencil

/-- What a generation depends on beside its source and its bindings. -/
structure GenerateOptions where
  tree : TreeOptions
  policy : FailurePolicy
deriving DecidableEq

/-- Where a tree is written. -/
inductive Target where
  | directory (p : Path)
  /-- A new directory, which is made once the tree is built. -/
  | fresh (p : Path)

namespace Workspace

/-- An operation on the tree of a source.  The warnings of the build stay where it fails. -/
def withTree {α : Type} (w : Workspace) (source : Path) (bindings : Bindings)
    (options : TreeOptions) (next : TemplateTree → Workspace → Outcome α) : Outcome α :=
  match TemplateTree.build w.files source bindings options with
  | .error failure => (w.warn failure.warnings).fail failure.error
  | .ok (tree, warnings) => next tree (w.warn warnings)

/-- The tree of a source is written under a directory. -/
def generate (w : Workspace) (source : Path) (target : Target) (bindings : Bindings)
    (options : GenerateOptions) : Outcome Report :=
  w.withTree source bindings options.tree fun tree w =>
    let pass : Pass := ⟨tree, .standard false, options.policy⟩
    match target with
    | .directory base => pass.writeTree base w
    | .fresh base =>
      match w.files.makeDirectory base with
      | .error fault => w.fail (.io fault)
      | .ok files => pass.writeTree base { w with files }

/-- A source is written into a directory if there is one of this path, else to this very path. -/
def renderFile (w : Workspace) (source target : Path) (bindings : Bindings)
    (options : GenerateOptions) : Outcome Report :=
  w.withTree source bindings options.tree fun tree w =>
    let pass : Pass := ⟨tree, .standard false, options.policy⟩
    if w.files.isDirectory target then pass.writeTree target w else pass.writeSingle target w

end Workspace

namespace FileSystem

/-- The output directory, which must not be there already unless that is forced. -/
def outputDirectory (files : FileSystem) (p : Path) (force : Bool) : Except Error Path :=
  if files.pathExists p && !force then .error (.outputDirectoryExists p) else .ok p

/-- The bindings of a bindings file. -/
def readBindings (files : FileSystem) (p : Path) : Except Error Bindings :=
  match files.readText p with
  | .error fault => .error (.config (.unreadableBindings p fault))
  | .ok text => Bindings.read text

end FileSystem

end Stencil
