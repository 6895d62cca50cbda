import Stencil.CommandLine.Response
import Stencil.FileSystem.Changes
/-!
# The program

What a command line names is read from the disk, the response is worked out on that, and what it
changed is written back.
-/

namespace Stencil

/-- The fault that an error of the disk tells of. -/
def FileFault.ofError : IO.Error → FileFault
  | .permissionDenied .. => .permissionDenied
  | e => .other e.toString

/-- The directories on the way to a place, each with the name by which the way goes on. -/
def stepsTo (place : Place) : List (Place × FileName) :=
  place.zipIdx.filterMap fun (name, n) =>
    if hname : Path.Ordinary name then some (place.take n, ⟨name, hname⟩) else none

/-- The file system with what is on the disk under a name in a directory, and with entries down to a
depth.  What is there but cannot be read stays unreadable. -/
def load : Nat → FileSystem → Place → FileName → IO FileSystem
  | depth, files, outer, name => do
    let place := outer ++ [name.val]
    let p := (← IO.currentDir) / ("/" ++ Entry.pathOf place)
    let refused (files : FileSystem) (e : IO.Error) : FileSystem :=
      { files with disk := files.disk.refusing place (.ofError e) }
    match ← p.metadata.toBaseIO with
    | .error (.noFileOrDirectory ..) => return files
    | .error e => throw e
    | .ok found =>
      if found.type == .dir then
        let files := files.put outer name (.directory []) Entry.wellNamed_empty
        match depth with
        | 0 => return files
        | depth + 1 =>
          match ← p.readDir.toBaseIO with
          | .error e => return refused files e
          | .ok entries => entries.foldlM (fun files e =>
              if hname : Path.Ordinary e.fileName then load depth files place ⟨e.fileName, hname⟩
              else return files) files
      else
        match ← (IO.FS.readBinFile p).toBaseIO with
        | .ok content => return files.put outer name (.file content) (Entry.wellNamed_file content)
        | .error e => return refused (files.put outer name (.file .empty) (Entry.wellNamed_file .empty)) e

/-- The file system with what is on the disk at a place, and with the directories on the way to it. -/
def graft (files : FileSystem) (place : Place) : IO FileSystem := do
  let mut files := files
  for (outer, name) in stepsTo place do
    let depth := if outer.length + 1 = place.length then FileSystem.maxPathBytes else 0
    if (files.root.get? outer).any Entry.isDirectory then
      if depth ≠ 0 || (files.root.get? (outer ++ [name.val])).isNone then
        files ← load depth files outer name
  return files

/-- The file system of the disk, as far as it concerns these paths. -/
def loadFiles (paths : List Path) : IO FileSystem := do
  let current := FileSystem.empty.placeOf ⟨(← IO.currentDir).toString⟩
  let mut files : FileSystem := { FileSystem.empty with current }
  for (outer, name) in stepsTo current do
    files := files.put outer name (.directory []) Entry.wellNamed_empty
  for p in paths do
    files ← graft files (files.placeOf p)
  return files

/-- Writes a change to the disk. -/
def store (path : String) : Entry.Change → IO Unit
  | .madeDirectory => IO.FS.createDirAll path
  | .written content => IO.FS.writeBinFile path content
  | .removed => pure ()

end Stencil

open Stencil

/-- Answers a command line. -/
def main (words : List String) : IO UInt32 := do
  let paths := match Arguments.read words with
    | .ok a => a.paths
    | .error _ => []
  let files ← loadFiles paths
  let (w, response) := Workspace.run ⟨files, []⟩ words
  for (path, change) in Entry.changes files.root w.files.root do
    store ("/" ++ path) change
  for warning in w.warnings do
    IO.eprintln warning.message
  IO.print response.output
  IO.eprint response.errorOutput
  return response.code.toUInt32
