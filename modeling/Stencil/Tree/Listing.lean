import Stencil.Tree
/-!
# Listings of trees

The nodes of a tree in order, each with its number's place in the tree: the numbers of its parent and
of its children.
-/

namespace Stencil.TemplateTree

/-- A node with the numbers of its parent and of its children. -/
structure Listed where
  node : Node
  parent : Option Nat
  children : List Nat

mutual

/-- How many nodes a subtree has. -/
def sizeOfNode : Node → Nat
  | .directory _ _ children => sizeOfAll children + 1
  | .file .. => 1
  | .expanded _ _ children => sizeOfAll children + 1

def sizeOfAll : List Node → Nat
  | [] => 0
  | n :: ns => sizeOfNode n + sizeOfAll ns

end

/-- The numbers of siblings, of which the first has number `first`. -/
def numbersFrom (first : Nat) : List Node → List Nat
  | [] => []
  | n :: ns => first :: numbersFrom (first + sizeOfNode n) ns

mutual

/-- A subtree whose first node has number `number`. -/
def listNode (parent : Option Nat) (number : Nat) : Node → List Listed
  | .directory p b children =>
    ⟨.directory p b children, parent, numbersFrom (number + 1) children⟩ ::
      listAll number (number + 1) children
  | .file s b => [⟨.file s b, parent, []⟩]
  | .expanded p b children =>
    ⟨.expanded p b children, parent, numbersFrom (number + 1) children⟩ ::
      listAll number (number + 1) children

/-- The subtrees of siblings, of which the first has number `first`. -/
def listAll (parent first : Nat) : List Node → List Listed
  | [] => []
  | n :: ns => listNode (some parent) first n ++ listAll parent (first + sizeOfNode n) ns

end

/-- Every node of the tree with its place; the root has number 0. -/
def listing (t : TemplateTree) : List Listed := listNode none 0 t.root

end Stencil.TemplateTree
