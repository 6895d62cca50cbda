import Stencil.Tree.Build
/-!
# Arenas

How a tree grows.  Its nodes stand in an arena in the order in which they are made, and refer to their
parent and to their children by number.  A file is made as a file; it becomes a node with children in
its place when its name turns out to fan out.

The walks over an arena are loops.  Here they are given so many turns, and come to nothing if they have
not ended by then or meet a number that is not in the arena.
-/

namespace Stencil

/-- A node in an arena. -/
structure Slot where
  source : Source
  kind : Node.Kind
  bindings : Bindings
  parent : Option Nat
  children : List Nat

/-- Nodes, each known by its number. -/
structure Arena where
  slots : List Slot

namespace Arena

open TemplateTree

def empty : Arena := ⟨[]⟩

def size (a : Arena) : Nat := a.slots.length

/-- A number at the end of the children of a node. -/
def adopt (a : Arena) (parent child : Nat) : Arena :=
  ⟨a.slots.modify parent fun slot => { slot with children := slot.children ++ [child] }⟩

/-- A node at the end, as the last child of its parent. -/
def push (a : Arena) (slot : Slot) : Arena :=
  let grown : Arena := ⟨a.slots ++ [slot]⟩
  match slot.parent with
  | some parent => grown.adopt parent a.size
  | none => grown

def setKind (a : Arena) (number : Nat) (kind : Node.Kind) : Arena :=
  ⟨a.slots.modify number fun slot => { slot with kind }⟩

/-! ## Growing -/

/-- A build that puts its nodes into an arena. -/
abbrev Growth := StateT Arena Build

/-- A new node without children, and its number. -/
def make (source : Path) (kind : Node.Kind) (bindings : Bindings) (parent : Option Nat) :
    Growth Nat :=
  modifyGet fun a => (a.size, a.push ⟨.path source, kind, bindings, parent, []⟩)

/-- A file whose name fans out has its variants as children, and they theirs, so many times over. -/
def growFile (source : Path) : Nat → Bindings → Nat → Growth Unit
  | 0, _, _ => return ()
  | depth + 1, bindings, number =>
    match expansionOf source.fileName bindings with
    | .leaf => return ()
    | .fanOut overlays => do
      modify (·.setKind number .expanded)
      overlays.forM fun o => do
        let child ← make source .file (bindings.merge o) (some number)
        growFile source depth (bindings.merge o) child
    | .empty => modify (·.setKind number .expanded)

mutual

/-- The node of an entry and all that comes below it. -/
def growEntry (files : FileSystem) (policy : UnboundPolicy) (source : Path) (parent : Option Nat) :
    Entry → Bindings → Growth Unit
  | .file _, bindings => do
    let number ← make source .file bindings parent
    growFile source bindings.nesting bindings number
  | .directory children, bindings =>
    if files.isDirectory source then do
      let number ← make source .directory bindings parent
      checkListing files source
      (Sorted.ofList (growEntries files policy source bindings number children)).forM Prod.snd
    else do
      let number ← make source .file bindings parent
      growFile source bindings.nesting bindings number

/-- For each entry of a directory its name and how its nodes grow, as children of the directory. -/
def growEntries (files : FileSystem) (policy : UnboundPolicy) (source : Path) (bindings : Bindings)
    (number : Nat) : List (String × Entry) → List (String × Growth Unit)
  | [] => []
  | (name, entry) :: entries =>
    (name, do
      checkUnbound policy name bindings
      (variants name bindings).forM (growEntry files policy (source.join ⟨name⟩) (some number) entry)) ::
      growEntries files policy source bindings number entries

end

/-- The root and all that comes below it. -/
def growRoot (files : FileSystem) (policy : UnboundPolicy) (source : Path) (entry : Entry)
    (bindings : Bindings) : Growth Unit := do
  if !entry.isDirectory then checkUnbound policy source.fileName bindings
  growEntry files policy source none entry bindings

/-- The arena of a source in a file system, and the warnings. -/
def build (files : FileSystem) (source : Path) (bindings : Bindings) (options : TreeOptions) :
    Except Failure (Arena × List Warning) :=
  match files.lookup source with
  | .error .notFound => .error ⟨.sourceNotFound source, []⟩
  | .error fault => .error ⟨.io fault, []⟩
  | .ok entry => Build.settle do
    return (← (growRoot files options.unbound source entry bindings).run empty).2

/-- The arena of a single text. -/
def ofText (text : String) (bindings : Bindings) : Arena :=
  empty.push ⟨.text text, .file, bindings, none, []⟩

/-! ## Walks -/

/-- The node on top of the stack is visited, and its children are put on the stack, the first on top. -/
def visit (a : Arena) : Nat → List Nat → List Nat → Option (List Nat)
  | _, [], order => some order
  | 0, _ :: _, _ => none
  | turns + 1, number :: stack, order =>
    match a.slots[number]? with
    | some slot => visit a turns (slot.children ++ stack) (order ++ [number])
    | none => none

/-- All numbers from the root, parents before children. -/
def preorder? (a : Arena) : Option (List Nat) := a.visit a.size [0] []

/-- Upward to the node without a parent. -/
def climb (a : Arena) : Nat → Nat → Option Nat
  | 0, _ => none
  | turns + 1, number =>
    match a.slots[number]? with
    | none => none
    | some slot =>
      match slot.parent with
      | none => some number
      | some parent => climb a turns parent

/-- The number of the root above a node. -/
def rootOf? (a : Arena) (number : Nat) : Option Nat := a.climb a.size number

end Arena

end Stencil
