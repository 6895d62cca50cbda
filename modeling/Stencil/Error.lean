import Stencil.FileSystem
import Stencil.Json.Writer
import Stencil.Value
/-!
# Errors

The causes for which an operation on a template tree fails, and their texts.
-/

namespace Stencil

/-- Why bindings, or a request, cannot be understood. -/
inductive ConfigFault where
  | integerTooLarge (n : Int)
  | badRange (got : Json)
  | malformedBindings
  | unreadableBindings (path : Path) (cause : FileFault)
  | notAnAssignment (text : String)
  | missingName (text : String)
  /-- A single output was asked for, but the file expands. -/
  | expands (source : Path) (count : Nat)
  /-- A single output was asked for, but the source is a directory. -/
  | isDirectory (source : Path)
  | other (message : String)

/-- Why a value cannot stand in a path. -/
inductive FormatFault where
  | needsInteger (kind : Value.Kind)
  | noPathText (kind : Value.Kind)
  | emptyFileName
  | other (reason : String)
deriving DecidableEq

/-- Why an operation on a template tree fails. -/
inductive Error where
  | io (cause : FileFault)
  | write (path : Path) (cause : FileFault)
  | render (path message : String)
  | format (placeholder : String) (cause : FormatFault)
  | unknownAccessor (name accessor : String)
  | unresolvedPlaceholder (path placeholder : String)
  | config (cause : ConfigFault)
  | outputDirectoryExists (path : Path)
  | sourceNotFound (path : Path)

/-- The key of an object that stands for a range. -/
def rangeKey : String := "$range"

/-- The largest integer that a variable can be bound to. -/
def maxInteger : Int := Int64.maxValue.toInt

def ConfigFault.message : ConfigFault → String
  | integerTooLarge n => s!"integer {n} is out of range (largest is {maxInteger})"
  | badRange got =>
    s!"'{rangeKey}' expects \"START..END\" or [START, END], got " ++ got.compact
  | malformedBindings => "Invalid bindings format: neither a JSON object nor a YAML mapping"
  | unreadableBindings path cause =>
    s!"cannot read bindings file '" ++ path.text ++ "': " ++ cause.message
  | notAnAssignment text => "expected KEY=VALUE, got '" ++ text ++ "'"
  | missingName text => "missing variable name in '" ++ text ++ "'"
  | expands source count =>
    "'" ++ source.text ++ s!"' expands into {count} files; the destination must be a directory"
  | isDirectory source => "'" ++ source.text ++ "' is a directory"
  | other message => message

def FormatFault.message : FormatFault → String
  | needsInteger kind => "zero padding requires an integer, got a " ++ kind.name
  | noPathText kind => "a " ++ kind.name ++ " cannot be written into a path"
  | emptyFileName => "the file name is empty once placeholders are filled"
  | other reason => reason

def Error.message : Error → String
  | io cause => "IO error: " ++ cause.message ++ "."
  | write path cause => "Failed to write '" ++ path.text ++ "': " ++ cause.message ++ "."
  | render path message => "Template error in '" ++ path ++ "': " ++ message ++ "."
  | format placeholder cause =>
    "Cannot format placeholder '" ++ placeholder ++ "': " ++ cause.message ++ "."
  | unknownAccessor name accessor =>
    "Value bound to '" ++ name ++ "' has no key or operation named '" ++ accessor ++ "'."
  | unresolvedPlaceholder path placeholder =>
    "Placeholder '" ++ placeholder ++ "' in '" ++ path ++ "' is not bound to any value."
  | config cause => "Configuration error: " ++ cause.message ++ "."
  | outputDirectoryExists path =>
    "Output directory '" ++ path.text ++ "' already exists. Use --force to overwrite it."
  | sourceNotFound path => "Template source '" ++ path.text ++ "' does not exist."

/-- The fault of the file system behind the error, if there is one. -/
def Error.cause? : Error → Option FileFault
  | io cause => some cause
  | write _ cause => some cause
  | _ => none

end Stencil
