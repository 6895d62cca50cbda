import Stencil.Yaml.Node.Reader
import Stencil.Yaml.Scalar
import Stencil.Yaml.Token.Scan
/-!
# YAML documents

A text holds one document, with directives in front and markers around it as far as they are needed.
Read as data, each alias is replaced by its target.  Collections are nested at most 128 deep, and a
document follows at most a hundred aliases for each of its marks, so that a small text cannot stand
for a huge one.

The data of a document is the list of its members in the order in which they are written; mappings
inside are sorted.  A text without content is a mapping without members.
-/

namespace Stencil.Yaml

/-! ## Documents -/

/-- The handles that every document knows. -/
def standardHandles : List (String × List UInt8) := [("!", bareTag), ("!!", Scalar.standardTag)]

/-- What the directives in front of a document have said. -/
structure Directives where
  version : Bool
  handles : List (String × List UInt8)

/-- One directive more; a version other than 1.1 and 1.2, or a repetition, is refused. -/
def Directives.add? (d : Directives) : Token → Option Directives
  | .versionDirective major minor =>
    if d.version || !(major == 1 && (minor == 1 || minor == 2)) then none
    else some { d with version := true }
  | .tagDirective handle expansion =>
    if (d.handles.lookup handle).isSome then none
    else some { d with handles := (handle, expansion) :: d.handles }
  | _ => none

/-- The directives in front, and the tokens after them. -/
def readDirectives (d : Directives) : List Token → Option (Directives × List Token)
  | [] => some (d, [])
  | t :: ts =>
    match t with
    | .versionDirective .. | .tagDirective .. => (d.add? t).bind fun d => readDirectives d ts
    | _ => some (d, t :: ts)

/-- Whether a document without content ends before this token. -/
def endsDocument : Token → Bool
  | .versionDirective .. | .tagDirective .. | .documentStart | .documentEnd | .streamEnd => true
  | _ => false

/-- Whether nothing but markers follows the document. -/
def isLast (ts : List Token) : Bool := (ts.dropWhile (· = .documentEnd)).head? = some .streamEnd

/-- The document of some tokens; an inner `none` is a text without a document. -/
def readDocument (ts : List Token) : Option (Option Node) :=
  let root (handles : List (String × List UInt8)) (ts : List Token) : Option (Option Node) :=
    match (Node.readNode (4 * (ts.length + 4)) .block).run ⟨ts, [], handles⟩ with
    | some (node, reading) => if isLast reading.tokens then some (some node) else none
    | none => none
  if ts.head? = some .streamEnd then some none
  else
    match readDirectives ⟨false, []⟩ ts with
    | none => none
    | some (d, .documentStart :: ts) =>
      if ts.head?.any endsDocument then
        if isLast ts then some (some (Node.absent .none)) else none
      else root (d.handles ++ standardHandles) ts
    | some (d, ts) => if d.version || !d.handles.isEmpty then none else root standardHandles ts

/-! ## Data -/

/-- How deep collections may be nested. -/
def maxDepth : Nat := 128

/-- How many aliases may still be followed. -/
abbrev Budget := StateT Nat Option

/-- The node itself, or the target of an alias. -/
def follow (root : Node) : Node → Budget Node
  | .alias number => fun budget =>
    match budget, root.target? number with
    | budget + 1, some node => some (node, budget)
    | _, _ => none
  | node => pure node

/-- The name that a key writes. -/
def keyText (root : Node) (key : Node) : Budget String := do
  match ← follow root key with
  | .scalar _ _ text => return text
  | _ => fun _ => none

def isLocal (p : Properties) : Bool := p.tag.any Scalar.isLocalTag

/-- The data of a node with `depth` levels of nesting left. -/
def dataOf (root : Node) : Nat → Node → Budget Json
  | depth, node => do
    match ← follow root node, depth with
    | .scalar p plain text, _ => fun budget => (Scalar.meaning? p.tag plain text).map (·, budget)
    | .sequence p items, depth + 1 =>
      if isLocal p then fun _ => none else return .array (← items.mapM (dataOf root depth))
    | .mapping p entries, depth + 1 =>
      if isLocal p then fun _ => none
      else
        let members ← entries.mapM fun (key, value) => do
          return (← keyText root key, ← dataOf root depth value)
        return Json.sortedObject members
    | _, _ => fun _ => none

/-- The members of a document. -/
def membersOf (root : Node) : Budget (List (String × Json)) := do
  match ← follow root root with
  | .mapping _ entries =>
    entries.mapM fun (key, value) => do
      return (← keyText root key, ← dataOf root (maxDepth - 1) value)
  | .scalar _ true "" => return []
  | _ => fun _ => none

/-- The members of the mapping that a text writes. -/
def readMembers? (text : String) : Option (List (String × Json)) :=
  match (Token.scan? text.toList).bind readDocument with
  | none => none
  | some none => some []
  | some (some root) => ((membersOf root).run (100 * root.size)).map Prod.fst

end Stencil.Yaml
