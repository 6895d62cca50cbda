import Stencil.Report
import Stencil.Workspace
/-!
# Writing trees

The nodes of a tree are written one after another, parents before children: a directory is made if
it is missing, a file is written over what was there.  The first error stops the pass; what was
written before stays.
-/

namespace Stencil

/-- What the writing of a tree depends on. -/
structure Pass where
  tree : TemplateTree
  renderer : Renderer
  policy : FailurePolicy

/-- How far a pass has come. -/
structure Progress where
  workspace : Workspace
  report : Report

/-- Progress, and the error that stops the pass, if one does. -/
abbrev Step := Progress × Option Error

namespace Progress

def files (p : Progress) : FileSystem := p.workspace.files

def withFiles (p : Progress) (files : FileSystem) : Progress :=
  { p with workspace := { p.workspace with files } }

def warn (p : Progress) (warnings : List Warning) : Progress :=
  { p with workspace := p.workspace.warn warnings }

/-- A node has nothing written for it. -/
def skip (p : Progress) (source : Path) (warning : Warning) : Progress :=
  ⟨p.workspace.warn [warning], p.report.addSkipped source⟩

/-- A file is about to be written; a warning is given if an earlier one has the same destination. -/
def claim (p : Progress) (target : Path) : Progress :=
  if p.report.files.any target.same then
    ⟨p.workspace.warn [.writtenAgain target], p.report.addOverwritten target⟩
  else p

end Progress

/-- A file in a file system, with the directories above it. -/
def FileSystem.writeFile (files : FileSystem) (target : Path) (content : ByteArray) :
    FileSystem × Option Error :=
  let (files, fault) := files.makeDirectories (target.parent?.getD ⟨""⟩)
  match fault with
  | some fault => (files, some (.write (target.parent?.getD ⟨""⟩) fault))
  | none =>
    let (files, fault) := files.write target content
    (files, fault.map (.write target))

namespace Pass

/-- A directory is made with all that is missing above it. -/
def writeDirectory (target : Path) (p : Progress) : Step :=
  match p.files.makeDirectories target with
  | (files, some fault) => (p.withFiles files, some (.write target fault))
  | (files, none) =>
    ({ p.withFiles files with report := p.report.addDirectory target }, none)

/-- The content of a file is made, then written. -/
def writeFile (pass : Pass) (n : Node) (target : Path) (p : Progress) : Step :=
  match pass.tree.content p.files pass.renderer pass.policy n with
  | .error e => (p, some e)
  | .ok (output, warning) =>
    let p := p.warn warning.toList
    match p.files.writeFile target output.bytes with
    | (files, some e) => (p.withFiles files, some e)
    | (files, none) => ({ p.withFiles files with report := p.report.addFile target output }, none)

/-- A node is written under a directory. -/
def writeNode (pass : Pass) (base : Path) (n : Node) (p : Progress) : Step :=
  match n.kind with
  | .expanded => (p, none)
  | kind =>
    match pass.tree.destination n (some base) with
    | .error e => (p, some e)
    | .ok none => (p.skip n.source.label (.noDestination n.source.label), none)
    | .ok (some target) =>
      if kind = .directory then writeDirectory target p
      else pass.writeFile n target (p.claim target)

/-- Nodes are written one after another until an error. -/
def writeNodes (pass : Pass) (base : Path) : List Node → Progress → Step
  | [], p => (p, none)
  | n :: ns, p =>
    match pass.writeNode base n p with
    | (p, none) => writeNodes pass base ns p
    | (p, some e) => (p, some e)

/-- What a pass leaves behind. -/
def outcome : Step → Outcome Report
  | (p, none) => p.workspace.succeed p.report
  | (p, some e) => p.workspace.fail e

/-- Every node of the tree is written under a directory. -/
def writeTree (pass : Pass) (base : Path) (w : Workspace) : Outcome Report :=
  outcome (pass.writeNodes base pass.tree.nodes ⟨w, .empty base⟩)

/-- A tree that is one file is written to exactly this path. -/
def writeSingle (pass : Pass) (target : Path) (w : Workspace) : Outcome Report :=
  let start : Progress := ⟨w, .empty (target.parent?.getD ⟨""⟩)⟩
  match pass.tree.root with
  | .directory source _ _ => w.fail (.config (.isDirectory source))
  | .expanded source _ children => w.fail (.config (.expands source children.length))
  | .file source bindings =>
    match pass.tree.destination (.file source bindings) none with
    | .error e => w.fail e
    | .ok none => outcome (start.skip source.label (.noContent source.label), none)
    | .ok (some _) => outcome (pass.writeFile (.file source bindings) target start)

end Pass

end Stencil
