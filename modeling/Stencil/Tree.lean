import Stencil.Bindings
import Stencil.Path
/-!
# Template trees

A template tree has the shape of a source directory, except that an entry whose name fans out stands
there once for each combination, with its bindings narrowed to that combination.
-/

namespace Stencil

/-- Where the content of a file comes from. -/
inductive Source where
  | path (p : Path)
  /-- The text of a template. -/
  | text (s : String)
deriving DecidableEq

def Source.path? : Source → Option Path
  | .path p => some p
  | .text _ => none

/-- How messages name the source. -/
def Source.label : Source → Path
  | .path p => p
  | .text _ => ⟨"<text>"⟩

/-- A node of a template tree. -/
inductive Node where
  | directory (source : Path) (bindings : Bindings) (children : List Node)
  | file (source : Source) (bindings : Bindings)
  /-- A file in place of which there is one child for each combination; it has no output itself. -/
  | expanded (source : Path) (bindings : Bindings) (children : List Node)

namespace Node

/-- The kinds of nodes. -/
inductive Kind where
  | directory | file | expanded
deriving DecidableEq

instance : Inhabited Node := ⟨.file (.text "") .empty⟩

def kind : Node → Kind
  | .directory .. => .directory
  | .file .. => .file
  | .expanded .. => .expanded

def source : Node → Source
  | .directory p _ _ => .path p
  | .file s _ => s
  | .expanded p _ _ => .path p

def bindings : Node → Bindings
  | .directory _ b _ => b
  | .file _ b => b
  | .expanded _ b _ => b

def children : Node → List Node
  | .directory _ _ children => children
  | .file .. => []
  | .expanded _ _ children => children

mutual

/-- The node and all below it, each before its children. -/
def preorder : Node → List Node
  | .directory p b children => .directory p b children :: preorderAll children
  | .file s b => [.file s b]
  | .expanded p b children => .expanded p b children :: preorderAll children

/-- The nodes of several subtrees in turn. -/
def preorderAll : List Node → List Node
  | [] => []
  | n :: ns => preorder n ++ preorderAll ns

end

end Node

/-- How placeholders that name unbound variables are treated. -/
inductive UnboundPolicy where
  /-- They stay in the path as they are written. -/
  | literal
  /-- They are errors. -/
  | strict
deriving DecidableEq

/-- What the building of a tree depends on. -/
structure TreeOptions where
  /-- Endings of the names of files that are rendered; they are left out of destinations. -/
  suffixes : List String
  unbound : UnboundPolicy
deriving DecidableEq

/-- The endings that mark templates if nothing else is said. -/
def standardSuffixes : List String := [".template", ".fwtemplate"]

def TreeOptions.standard : TreeOptions := ⟨standardSuffixes, .literal⟩

/-- A tree of nodes and the options that it was built with. -/
structure TemplateTree where
  root : Node
  options : TreeOptions

namespace TemplateTree

/-- Every node of the tree, parents before children. -/
def nodes (t : TemplateTree) : List Node := t.root.preorder

def size (t : TemplateTree) : Nat := t.nodes.length

/-- The tree of a single text. -/
def ofText (text : String) (bindings : Bindings) : TemplateTree :=
  ⟨.file (.text text) bindings, .standard⟩

end TemplateTree

end Stencil
