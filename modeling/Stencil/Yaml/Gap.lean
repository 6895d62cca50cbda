import Stencil.Yaml.Cursor
/-!
# Gaps between words

Between two words of a scalar there may be blanks and line breaks.  A gap inside one line stands for
its blanks; a gap over several lines is folded: one break becomes a space, and of several breaks the
first is dropped.
-/

namespace Stencil.Yaml

/-- The blanks and the line breaks between two words. -/
structure Gap where
  /-- The blanks of a gap inside one line. -/
  blanks : List Char
  /-- Whether a line ends inside the gap. -/
  broken : Bool
  /-- The first line break; none when it was written to join the lines. -/
  first : Option Char
  /-- The line breaks after the first. -/
  others : List Char

namespace Gap

/-- No gap at all. -/
def empty : Gap := ⟨[], false, none, []⟩

/-- The gap after a line break that joins two lines. -/
def joined : Gap := ⟨[], true, none, []⟩

def addBlank (g : Gap) (c : Char) : Gap :=
  if g.broken then g else { g with blanks := g.blanks ++ [c] }

def addBreak (g : Gap) (c : Char) : Gap :=
  if g.broken then { g with others := g.others ++ [c] } else ⟨[], true, some c, []⟩

/-- A first break that is a newline folds; any other stays as it is. -/
def folded (first : Option Char) (others : List Char) : List Char :=
  match first with
  | some '\n' => if others.isEmpty then [' '] else others
  | some c => c :: others
  | none => others

/-- The characters that the gap stands for. -/
def text (g : Gap) : List Char := if g.broken then folded g.first g.others else g.blanks

/-- The gap from a cursor on.  A tab on a later line before column `indent` is refused. -/
def read? (g : Gap) (indent : Int) : Nat → Cursor → Option (Gap × Cursor)
  | 0, c => some (g, c)
  | fuel + 1, c =>
    match c.next? with
    | none => some (g, c)
    | some ch =>
      if isInline ch then
        if g.broken && ch == '\t' && c.column < indent then none
        else (g.addBlank ch).read? indent fuel c.advance
      else if isBreak ch then (g.addBreak (breakText ch)).read? indent fuel c.advanceLine
      else some (g, c)

end Gap

end Stencil.Yaml
