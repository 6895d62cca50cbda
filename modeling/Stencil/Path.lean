import Stencil.Text.Search
/-!
# Paths

A path is kept in the spelling in which it was composed.  What it names is the list of its
components: empty pieces between separators and `.` inside a path name nothing, a `.` in front and
every `..` are components of their own.

    (a.join b).text = b.text                           when b starts with the separator
    a.same b ↔ a and b have the same components
-/

namespace Stencil

/-- A path in its spelling. -/
structure Path where
  text : String
deriving DecidableEq, Inhabited

namespace Path

/-! ## Names -/

/-- A name that an entry of a directory can have. -/
structure Ordinary (name : String) : Prop where
  ne_empty : name ≠ ""
  ne_current : name ≠ "."
  ne_parent : name ≠ ".."
  separator_not_mem : '/' ∉ name.toList

instance (name : String) : Decidable (Ordinary name) :=
  decidable_of_iff (name ≠ "" ∧ name ≠ "." ∧ name ≠ ".." ∧ '/' ∉ name.toList)
    ⟨fun ⟨h₁, h₂, h₃, h₄⟩ => ⟨h₁, h₂, h₃, h₄⟩, fun ⟨h₁, h₂, h₃, h₄⟩ => ⟨h₁, h₂, h₃, h₄⟩⟩

/-! ## Components -/

/-- What a piece of a path names. -/
inductive Component where
  | root
  | current
  | parent
  | normal (name : String)
deriving DecidableEq

def separator : Char := '/'

def isAbsolute (p : Path) : Bool := p.text.toList.head? == some separator

/-- The texts between the separators. -/
def pieces (p : Path) : List String :=
  (Text.splitOnChar separator p.text.toList).map String.ofList

/-- What a piece names, if anything; `leading` tells the first piece of a relative path. -/
def componentOf? (leading : Bool) (piece : String) : Option Component :=
  if piece = "" then none
  else if piece = "." then if leading then some .current else none
  else if piece = ".." then some .parent
  else some (.normal piece)

/-- A piece and what it names. -/
abbrev Labelled := String × Option Component

/-- The pieces after the root, each with what it names. -/
def labelled (p : Path) : List Labelled :=
  match p.isAbsolute, p.pieces with
  | true, _ :: rest => rest.map fun piece => (piece, componentOf? false piece)
  | false, first :: rest =>
    (first, componentOf? true first) :: rest.map fun piece => (piece, componentOf? false piece)
  | _, [] => []

/-- What the path names, from left to right. -/
def components (p : Path) : List Component :=
  (if p.isAbsolute then [.root] else []) ++ p.labelled.filterMap Prod.snd

/-- Whether two paths have the same components. -/
def same (a b : Path) : Bool := a.components == b.components

/-- A path from its pieces. -/
def assemble (absolute : Bool) (pieces : List Labelled) : Path :=
  ⟨(if absolute then "/" else "") ++ String.intercalate "/" (pieces.map Prod.fst)⟩

/-- The pieces without those at the end that name nothing. -/
def trimEnd (pieces : List Labelled) : List Labelled :=
  (pieces.reverse.dropWhile fun piece => piece.2.isNone).reverse

/-- The path without its last component; the empty path and the root have none. -/
def parent? (p : Path) : Option Path :=
  match trimEnd p.labelled with
  | [] => none
  | pieces => some (assemble p.isAbsolute (trimEnd pieces.dropLast))

/-- The last component, if it is a name. -/
def fileName? (p : Path) : Option String :=
  match (trimEnd p.labelled).getLast? with
  | some (_, some (.normal name)) => some name
  | _ => none

/-- The file name, empty if there is none. -/
def fileName (p : Path) : String := p.fileName?.getD ""

/-- The second path seen from the first; an absolute one stands by itself. -/
def join (a b : Path) : Path :=
  if b.isAbsolute || a.text = "" then b
  else if a.text.toList.getLast? = some separator then ⟨a.text ++ b.text⟩
  else ⟨a.text ++ "/" ++ b.text⟩

/-- The path with another file name in place of its own. -/
def withFileName (p : Path) (name : String) : Path :=
  match p.fileName?, p.parent? with
  | some _, some parent => parent.join ⟨name⟩
  | _, _ => p.join ⟨name⟩

/-- The pieces that are left once the given components are taken from the front. -/
def dropComponents : List Component → List Labelled → Option (List Labelled)
  | [], pieces => some pieces
  | c :: cs, (_, none) :: pieces => dropComponents (c :: cs) pieces
  | c :: cs, (_, some c') :: pieces => if c = c' then dropComponents cs pieces else none
  | _ :: _, [] => none

/-- The path seen from `base`, if its components start with those of `base`. -/
def stripPrefix? (p base : Path) : Option Path :=
  let rest (absolute : Bool) (cs : List Component) : Option Path :=
    (dropComponents cs p.labelled).map fun pieces =>
      assemble absolute (trimEnd (pieces.dropWhile fun piece => piece.2.isNone))
  match base.components with
  | .root :: cs => if p.isAbsolute then rest false cs else none
  | [] => rest p.isAbsolute []
  | cs => if p.isAbsolute then none else rest false cs

/-- The path, its parent, the parent of that, and so on. -/
def ancestorsFrom : Nat → Path → List Path
  | 0, p => [p]
  | fuel + 1, p =>
    match p.parent? with
    | some parent => p :: ancestorsFrom fuel parent
    | none => [p]

/-- The path and all its parents, innermost first. -/
def ancestors (p : Path) : List Path := ancestorsFrom p.pieces.length p

end Path

end Stencil
