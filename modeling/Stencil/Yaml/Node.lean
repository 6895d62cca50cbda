/-!
# Nodes of a YAML document

A node is a scalar, a sequence, a mapping, or an alias.  An alias names its target by a number; of
the nodes with one number the last in the document counts.
-/

namespace Stencil.Yaml

/-- What may stand in front of a node: an anchor, known by its number, and a tag. -/
structure Properties where
  anchor : Option Nat
  tag : Option (List UInt8)
deriving DecidableEq

/-- A node of a document. -/
inductive Node where
  | alias (target : Nat)
  | scalar (properties : Properties) (plain : Bool) (text : String)
  | sequence (properties : Properties) (items : List Node)
  | mapping (properties : Properties) (entries : List (Node × Node))

/-- Neither anchor nor tag. -/
def Properties.none : Properties := ⟨.none, .none⟩

namespace Node

instance : Inhabited Node := ⟨.alias 0⟩

/-- The node of a place where nothing is written. -/
def absent (properties : Properties) : Node := .scalar properties true ""

def properties? : Node → Option Properties
  | .alias _ => .none
  | .scalar p _ _ => some p
  | .sequence p _ => some p
  | .mapping p _ => some p

mutual

/-- The node and all nodes inside it, each before what it holds. -/
def preorder (n : Node) : List Node :=
  n :: (match n with
    | .sequence _ items => preorderItems items
    | .mapping _ entries => preorderEntries entries
    | _ => [])

def preorderItems : List Node → List Node
  | [] => []
  | n :: ns => preorder n ++ preorderItems ns

def preorderEntries : List (Node × Node) → List Node
  | [] => []
  | (key, value) :: entries => preorder key ++ preorder value ++ preorderEntries entries

end

/-- Marks of a document: one for a scalar or an alias, two around a collection. -/
def marks : Node → Nat
  | .sequence .. => 2
  | .mapping .. => 2
  | _ => 1

/-- The marks of a node with all that it holds. -/
def size (n : Node) : Nat := n.preorder.foldl (fun total n => total + n.marks) 0

/-- The number of the anchor in front of a node. -/
def anchor? (n : Node) : Option Nat := n.properties?.bind (·.anchor)

/-- The node that an alias of this number stands for. -/
def target? (root : Node) (number : Nat) : Option Node :=
  root.preorder.reverse.find? fun n => n.anchor? == some number

end Node

end Stencil.Yaml
