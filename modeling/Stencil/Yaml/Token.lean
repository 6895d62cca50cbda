/-!
# Tokens of a YAML text

Brackets, commas, colons and quotes show the structure of flow collections; that of block
collections is given by indentation alone, so tokens of their own say where a block starts and ends.  Tags are bytes,
since what is written in them need not be text.
-/

namespace Stencil.Yaml

/-- A token. -/
inductive Token where
  | versionDirective (major minor : Nat)
  /-- A handle stands for bytes in front of a tag. -/
  | tagDirective (handle : String) (expansion : List UInt8)
  | documentStart
  | documentEnd
  | blockSequenceStart
  | blockMappingStart
  | blockEnd
  | flowSequenceStart
  | flowSequenceEnd
  | flowMappingStart
  | flowMappingEnd
  | blockEntry
  | flowEntry
  | key
  | value
  | alias (name : String)
  | anchor (name : String)
  | tag (handle : String) (suffix : List UInt8)
  | scalar (plain : Bool) (text : String)
  | streamEnd
deriving DecidableEq

end Stencil.Yaml
