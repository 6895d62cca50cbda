import Stencil.Yaml.Gap
/-!
# Block scalars

A block scalar is the text of the indented lines below its header.  A literal block keeps its line
breaks; a folded one joins lines that do not start with a blank.  The header may state the
indentation, and what becomes of the line breaks at the end.
-/

namespace Stencil.Yaml

/-- What becomes of the line breaks at the end of a block scalar. -/
inductive Chomping where
  /-- The first one stays. -/
  | clip
  /-- None stays. -/
  | strip
  /-- All stay. -/
  | keep
deriving DecidableEq

/-- The header of a block scalar: chomping, and the indentation if it is stated. -/
structure BlockHeader where
  chomping : Chomping
  indentation : Option Nat

def chompingOf? (c : Char) : Option Chomping :=
  if c = '+' then some .keep else if c = '-' then some .strip else none

/-- The indentation that a digit other than 0 states. -/
def indentationOf? (c : Char) : Option Nat :=
  if '1' ≤ c && c ≤ '9' then some (c.toNat - '0'.toNat) else none

/-- The header, and the number of its characters; the digit and the sign stand in either order. -/
def readHeader? (cs : List Char) : Option (BlockHeader × Nat) :=
  match cs.head?.bind chompingOf? with
  | some chomping =>
    match cs.drop 1 with
    | '0' :: _ => none
    | rest =>
      match rest.head?.bind indentationOf? with
      | some n => some (⟨chomping, some n⟩, 2)
      | none => some (⟨chomping, none⟩, 1)
  | none =>
    match cs with
    | '0' :: _ => none
    | cs =>
      match cs.head?.bind indentationOf?, (cs.drop 1).head?.bind chompingOf? with
      | some n, some chomping => some (⟨chomping, some n⟩, 2)
      | some n, none => some (⟨.clip, some n⟩, 1)
      | none, _ => some (⟨.clip, none⟩, 0)

/-- Empty lines, with blanks up to column `indent` if that is known: the line breaks, the greatest
column reached and the cursor at the line that is not empty. -/
def readEmptyLines (indent : Option Int) :
    Nat → List Char → Nat → Cursor → Option (List Char × Nat × Cursor)
  | 0, _, _, _ => none
  | fuel + 1, breaks, most, c =>
    let line := match indent with
      | some n => c.rest.take (n.toNat - c.column)
      | none => c.rest
    let c := c.skip (line.takeWhile (· == ' ')).length
    let most := max most c.column
    if c.sees '\t' && indent.all (fun n => (c.column : Int) < n) then none
    else
      match c.rest with
      | ch :: _ =>
        if isBreak ch then readEmptyLines indent fuel (breaks ++ [breakText ch]) most c.advanceLine
        else some (breaks, most, c)
      | [] => some (breaks, most, c)

/-- What has been read of a block scalar. -/
structure BlockText where
  text : List Char
  /-- The break that ended the last line. -/
  last : List Char
  /-- The breaks of the empty lines after it. -/
  empties : List Char
  /-- Whether the last line starts with a blank. -/
  blankFirst : Bool

namespace BlockText

/-- The text with the break after its last line, folded if nothing speaks against it. -/
def joined (b : BlockText) (literal nextBlank : Bool) : List Char :=
  if !literal && b.last == ['\n'] && !b.blankFirst && !nextBlank then
    b.text ++ (if b.empties.isEmpty then [' '] else []) ++ b.empties
  else b.text ++ b.last ++ b.empties

def chomped (b : BlockText) : Chomping → List Char
  | .strip => b.text
  | .clip => b.text ++ b.last
  | .keep => b.text ++ b.last ++ b.empties

end BlockText

/-- The lines at column `indent`, from the cursor on. -/
def readBlockLines (literal : Bool) (indent : Int) (fuel : Nat) :
    Nat → BlockText → Cursor → Option (BlockText × Cursor)
  | 0, _, _ => none
  | rounds + 1, b, c =>
    if (c.column : Int) != indent || c.rest.isEmpty then some (b, c)
    else
      let blank := c.seesA isInline
      let (line, c) := c.span fun ch => !isBreak ch
      let last := match c.next? with
        | some ch => [breakText ch]
        | none => []
      match readEmptyLines (some indent) fuel [] 0 c.advanceLine with
      | none => none
      | some (empties, _, c) =>
        readBlockLines literal indent fuel rounds ⟨b.joined literal blank ++ line, last, empties, blank⟩ c

/-- The block scalar whose mark is next, in a block at column `outer` (-1 outside of all blocks). -/
def readBlock? (literal : Bool) (outer : Int) (fuel : Nat) (c : Cursor) : Option (String × Cursor) :=
  match readHeader? (c.rest.drop 1) with
  | none => none
  | some (header, width) =>
    let c := (c.skip (width + 1)).after isInline
    let c := if c.sees '#' then c.toLineEnd else c
    if !(c.rest.isEmpty || c.seesA isBreak) then none
    else
      let stated : Option Int := header.indentation.map fun n => max outer 0 + n
      match readEmptyLines stated fuel [] 0 c.advanceLine with
      | none => none
      | some (empties, most, c) =>
        let indent := stated.getD (max (most : Int) (max (outer + 1) 1))
        match readBlockLines literal indent fuel fuel ⟨[], [], empties, false⟩ c with
        | none => none
        | some (b, c) => some (String.ofList (b.chomped header.chomping), c)

end Stencil.Yaml
