import Stencil.Yaml.Node
import Stencil.Yaml.Tag
/-!
# From tokens to nodes

The grammar of YAML over tokens.  Block collections end with a token of their own, except for a
sequence at the column of its key, which ends where no further dash comes.  An entry may lack its
key, its value or both; what lacks is an absent node.
-/

namespace Stencil.Yaml.Node

/-- The tokens still to be read and the anchors named so far, with their numbers. -/
structure Reading where
  tokens : List Token
  anchors : List (String × Nat)
  /-- What each tag handle stands for. -/
  handles : List (String × List UInt8)

/-- A part of the grammar: it reads tokens or refuses them. -/
abbrev Grammar := StateT Reading Option

namespace Grammar

def refuse {α : Type} : Grammar α := fun _ => none

/-- The next token, which stays. -/
def peek : Grammar Token := fun r =>
  match r.tokens with
  | t :: _ => some (t, r)
  | [] => none

def skip : Grammar Unit := fun r => some ((), { r with tokens := r.tokens.drop 1 })

/-- Takes the next token if it is this one. -/
def takes (t : Token) : Grammar Bool := do
  if (← peek) = t then
    skip
    return true
  else return false

/-- Takes the next token, which must be this one. -/
def expect (t : Token) : Grammar Unit := do
  if !(← takes t) then refuse

/-- The number of a new anchor is the count of the names known before. -/
def nameAnchor (name : String) : Grammar Nat := fun r =>
  let number := r.anchors.length
  some (number, { r with anchors := (name, number) :: r.anchors.filter (·.1 != name) })

def anchorNumber (name : String) : Grammar Nat := fun r =>
  (r.anchors.lookup name).map fun number => (number, r)

/-- The tag that a handle and a suffix write. -/
def expandTag (handle : String) (suffix : List UInt8) : Grammar (List UInt8) := fun r =>
  if handle = "" then some (suffix, r)
  else (r.handles.lookup handle).map fun expansion => (expansion ++ suffix, r)

end Grammar

open Grammar

/-! ## Properties -/

/-- An anchor, if one is next. -/
def readAnchor : Grammar (Option Nat) := do
  match ← peek with
  | .anchor name => skip; return some (← nameAnchor name)
  | _ => return none

/-- A tag, if one is next. -/
def readTag : Grammar (Option (List UInt8)) := do
  match ← peek with
  | .tag handle suffix => skip; return some (← expandTag handle suffix)
  | _ => return none

/-- An anchor and a tag, in either order. -/
def readProperties : Grammar Properties := do
  match ← readAnchor with
  | some anchor => return ⟨some anchor, ← readTag⟩
  | none =>
    match ← readTag with
    | some tag => return ⟨← readAnchor, some tag⟩
    | none => return ⟨none, none⟩

/-- The tag `!` of a scalar says no more than that there is a scalar; it makes the text plain. -/
def scalarOf (p : Properties) (plain : Bool) (text : String) : Node :=
  if p.tag = some bareTag then .scalar { p with tag := none } plain text else .scalar p plain text

/-- Nothing is written but, perhaps, properties. -/
def absentWith (p : Properties) : Grammar Node :=
  if p = .none then refuse else return absent p

/-! ## Nodes -/

/-- Where a node stands: whether blocks may start there, and whether a sequence may start without
further indentation. -/
inductive Context where
  | flow
  | block
  | blockValue
deriving DecidableEq

/-- Whether the token ends an entry of a block mapping. -/
def endsBlockPart (t : Token) : Bool := t = .key || t = .value || t = .blockEnd

def endsFlowMappingPart (t : Token) : Bool := t = .value || t = .flowEntry || t = .flowMappingEnd

def endsFlowSequencePart (t : Token) : Bool := t = .value || t = .flowEntry || t = .flowSequenceEnd

mutual

/-- One node. -/
def readNode : Nat → Context → Grammar Node
  | 0, _ => refuse
  | fuel + 1, context => do
    match ← peek with
    | .alias name => skip; return .alias (← anchorNumber name)
    | _ =>
      let p ← readProperties
      match ← peek with
      | .scalar plain text => skip; return scalarOf p plain text
      | .flowSequenceStart => skip; return .sequence p (← readFlowItems fuel true)
      | .flowMappingStart => skip; return .mapping p (← readFlowEntries fuel true)
      | .blockEntry =>
        if context = .blockValue then return .sequence p (← readDashes fuel)
        else absentWith p
      | .blockSequenceStart =>
        if context = .flow then absentWith p
        else skip; return .sequence p (← readBlockItems fuel)
      | .blockMappingStart =>
        if context = .flow then absentWith p
        else skip; return .mapping p (← readBlockEntries fuel)
      | _ => absentWith p

/-- A node, or an absent one where a token of this class is next. -/
def readPart : Nat → Context → (Token → Bool) → Grammar Node
  | 0, _, _ => refuse
  | fuel + 1, context, ends => do
    if ends (← peek) then return absent .none else readNode fuel context

/-- The items of a block sequence. -/
def readBlockItems : Nat → Grammar (List Node)
  | 0 => refuse
  | fuel + 1 => do
    if ← takes .blockEnd then return []
    else
      expect .blockEntry
      let item ← readPart fuel .block fun t => t = .blockEntry || t = .blockEnd
      return item :: (← readBlockItems fuel)

/-- The items of a sequence at the column of its key. -/
def readDashes : Nat → Grammar (List Node)
  | 0 => refuse
  | fuel + 1 => do
    if ← takes .blockEntry then
      let item ← readPart fuel .block fun t => t = .blockEntry || endsBlockPart t
      return item :: (← readDashes fuel)
    else return []

/-- The entries of a block mapping. -/
def readBlockEntries : Nat → Grammar (List (Node × Node))
  | 0 => refuse
  | fuel + 1 => do
    if ← takes .blockEnd then return []
    else
      expect .key
      let key ← readPart fuel .blockValue endsBlockPart
      let value ← if ← takes .value then readPart fuel .blockValue endsBlockPart
        else pure (absent .none)
      return (key, value) :: (← readBlockEntries fuel)

/-- The items of a sequence in brackets; all but the first come after a comma. -/
def readFlowItems : Nat → Bool → Grammar (List Node)
  | 0, _ => refuse
  | fuel + 1, first => do
    if ← takes .flowSequenceEnd then return []
    else
      if !first then expect .flowEntry
      if ← takes .flowSequenceEnd then return []
      else
        let item ← if ← takes .key then readPair fuel else readNode fuel .flow
        return item :: (← readFlowItems fuel false)

/-- A mapping of one entry in a sequence in brackets.  Where its key is absent the token that shows
this is passed over. -/
def readPair : Nat → Grammar Node
  | 0 => refuse
  | fuel + 1 => do
    let keyless := endsFlowSequencePart (← peek)
    let key ← readPart fuel .flow endsFlowSequencePart
    if keyless then skip
    let value ← if ← takes .value then
        readPart fuel .flow fun t => t = .flowEntry || t = .flowSequenceEnd
      else pure (absent .none)
    return .mapping .none [(key, value)]

/-- The entries of a mapping in brackets; all but the first come after a comma. -/
def readFlowEntries : Nat → Bool → Grammar (List (Node × Node))
  | 0, _ => refuse
  | fuel + 1, first => do
    if ← takes .flowMappingEnd then return []
    else
      if !first then expect .flowEntry
      if ← takes .flowMappingEnd then return []
      else if ← takes .key then
        let key ← readPart fuel .flow endsFlowMappingPart
        let value ← if ← takes .value then
            readPart fuel .flow fun t => t = .flowEntry || t = .flowMappingEnd
          else pure (absent .none)
        return (key, value) :: (← readFlowEntries fuel false)
      else
        let key ← readNode fuel .flow
        return (key, absent .none) :: (← readFlowEntries fuel false)

end

end Stencil.Yaml.Node
