import Stencil.Placeholder.Fill
import Stencil.Tree
/-!
# Destinations

Where a node is written: its path seen from the root of the tree, without the suffix that marks a
template, with its placeholders filled.  A node has no destination when a placeholder in its path
stands for null.
-/

namespace Stencil.TemplateTree

/-- The first suffix that is a proper ending of the name. -/
def suffixOf? (suffixes : List String) (name : String) : Option String :=
  suffixes.find? fun suffix => suffix != "" && name != suffix && suffix.toList.isSuffixOf name.toList

/-- The name without so many characters at its end. -/
def dropEnding (name suffix : String) : String :=
  String.ofList (name.toList.take (name.length - suffix.length))

/-- Whether the content of a source is rendered. -/
def isTemplate (t : TemplateTree) (n : Node) : Bool :=
  match n.source with
  | .text _ => true
  | .path p => (suffixOf? t.options.suffixes p.fileName).isSome

/-- The path of a node seen from the root; a root that is a file gives every node its own name. -/
def relativePath? (t : TemplateTree) (n : Node) : Option Path :=
  match n.source, t.root with
  | .path p, .directory root _ _ => p.stripPrefix? root
  | .path p, .expanded .. | .path p, .file (.path _) _ => p.fileName?.map fun name => ⟨name⟩
  | _, _ => none

/-- The path without the suffix that marks a template. -/
def dropSuffix (suffixes : List String) (p : Path) : Path :=
  match p.fileName? with
  | none => p
  | some name =>
    match suffixOf? suffixes name with
    | some suffix => p.withFileName (dropEnding name suffix)
    | none => p

/-- Whether a filled path names no file. -/
def lacksName (filled : String) : Bool :=
  filled = "" || filled.toList.getLast? = some Path.separator

/-- The text after the last separator. -/
def lastPiece (path : Path) : String := path.pieces.getLast?.getD ""

/-- A filled path seen from the directory that everything is written to. -/
def under (base : Option Path) (filled : String) : Path :=
  match base with
  | none => ⟨filled⟩
  | some root => if filled = "" then root else root.join ⟨filled⟩

/-- The destination of a node under a directory, or as a relative path. -/
def destination (t : TemplateTree) (n : Node) (base : Option Path) : Except Error (Option Path) :=
  match t.relativePath? n with
  | none => .ok none
  | some relative =>
    let relative := dropSuffix t.options.suffixes relative
    let placeholders := Placeholder.bound relative.text n.bindings
    match Placeholder.fillAll placeholders n.bindings relative.text with
    | .error e => .error e
    | .ok none => .ok none
    | .ok (some filled) =>
      if n.kind != .directory && lacksName filled then
        .error (.format (lastPiece relative) .emptyFileName)
      else .ok (some (under base filled))

end Stencil.TemplateTree
