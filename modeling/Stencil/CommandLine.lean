import Stencil.Generation
/-!
# Command lines

What a command line asks for, and the bindings and options that follow from it.
-/

namespace Stencil

/-- What a command line asks for. -/
structure Arguments where
  /-- The source: a directory or a file. -/
  template : Path
  output : Path
  /-- Bindings files; later ones win. -/
  bindings : List Path
  /-- Assignments, which win over bindings files. -/
  data : List String
  /-- Whether an output directory that exists is written to. -/
  force : Bool
  verbose : Bool
  policy : FailurePolicy
  /-- Whether placeholders that name unbound variables are errors. -/
  strictPlaceholders : Bool
  /-- Endings of the names of templates, in place of the standard ones. -/
  suffixes : List String
deriving DecidableEq

/-- Why a command line is not carried out. -/
inductive Refusal where
  | helpWanted
  | versionWanted
  | missingArgument
  | unknownArgument
  /-- A value is missing or is none of those that are allowed. -/
  | invalidValue
  /-- What may be given once is given again. -/
  | repeated
  /-- A value is given to an option that takes none. -/
  | unwantedValue
deriving DecidableEq

namespace Arguments

/-- The paths that are read or written. -/
def paths (a : Arguments) : List Path := a.template :: a.output :: a.bindings

/-- The options of the generation. -/
def options (a : Arguments) : GenerateOptions where
  tree :=
    { suffixes := if a.suffixes.isEmpty then standardSuffixes else a.suffixes
      unbound := if a.strictPlaceholders then .strict else .literal }
  policy := a.policy

/-- Bindings with those of one more file put over them. -/
def addFile (files : FileSystem) (bindings : Bindings) (p : Path) : Except Error Bindings :=
  match files.readBindings p with
  | .ok more => .ok (bindings.merge more)
  | .error e => .error e

/-- Bindings with one more assignment. -/
def addAssignment (bindings : Bindings) (text : String) : Except Error Bindings :=
  match Bindings.readAssignment text with
  | .ok (name, value) => .ok (bindings.insert name value)
  | .error e => .error e

/-- The bindings of all files in turn, then those of the assignments. -/
def loadBindings (a : Arguments) (files : FileSystem) : Except Error Bindings :=
  match a.bindings.foldlM (addFile files) KeyedList.empty with
  | .ok bindings => a.data.foldlM addAssignment bindings
  | .error e => .error e

end Arguments

end Stencil
