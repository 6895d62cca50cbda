import Stencil.Path
import Stencil.Tree.Content
/-!
# Reports

What became of the nodes of a tree that was written: each list is in the order of the nodes.
-/

namespace Stencil

/-- What a tree was written to. -/
structure Report where
  outputDirectory : Path
  rendered : List Path
  copied : List Path
  directories : List Path
  /-- The sources of the nodes without a destination. -/
  skipped : List Path
  /-- The files that hold a diagnostic in place of their content. -/
  failed : List Path
  /-- The files that an earlier node had been written to already. -/
  overwritten : List Path
deriving DecidableEq

namespace Report

/-- The report of an output directory that nothing is written to yet. -/
def empty (outputDirectory : Path) : Report := ⟨outputDirectory, [], [], [], [], [], []⟩

/-- Every file that was written. -/
def files (r : Report) : List Path := r.rendered ++ r.copied ++ r.failed

def filesWritten (r : Report) : Nat := r.files.length

def addDirectory (r : Report) (target : Path) : Report :=
  { r with directories := r.directories ++ [target] }

def addSkipped (r : Report) (source : Path) : Report := { r with skipped := r.skipped ++ [source] }

def addOverwritten (r : Report) (target : Path) : Report :=
  { r with overwritten := r.overwritten ++ [target] }

/-- A file is listed by the kind of its content. -/
def addFile (r : Report) (target : Path) : Output → Report
  | .rendered _ => { r with rendered := r.rendered ++ [target] }
  | .copied _ => { r with copied := r.copied ++ [target] }
  | .failed _ => { r with failed := r.failed ++ [target] }

end Report

end Stencil
