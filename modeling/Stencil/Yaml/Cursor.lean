/-!
# Reading positions in a YAML text

A cursor holds the characters still to be read with their index, line and column.  Columns decide
about structure in YAML, so each step says how it moves them: a character goes one column on, a line
break goes to column 0 of the next line.
-/

namespace Stencil.Yaml

/-! ## Characters -/

/-- A character that a YAML text may hold as it is. -/
def isAllowed (c : Char) : Bool :=
  let n := c.toNat
  n == 0x09 || n == 0x0A || n == 0x0D || (0x20 ≤ n && n ≤ 0x7E) || n == 0x85 ||
    (0xA0 ≤ n && n ≤ 0xD7FF) || (0xE000 ≤ n && n ≤ 0xFFFD && n != 0xFEFF) || 0x10000 ≤ n

/-- The mark that may stand at the very start of a text. -/
def byteOrderMark : Char := '\uFEFF'

/-- A space or a tab. -/
def isInline (c : Char) : Bool := c == ' ' || c == '\t'

/-- A character that ends a line. -/
def isBreak (c : Char) : Bool :=
  c == '\n' || c == '\r' || c.toNat == 0x85 || c.toNat == 0x2028 || c.toNat == 0x2029

def isSpace (c : Char) : Bool := isInline c || isBreak c

/-- What a line break stands for inside a scalar: the separators of lines and paragraphs stay, every
other break is a newline. -/
def breakText (c : Char) : Char := if c.toNat == 0x2028 || c.toNat == 0x2029 then c else '\n'

/-- A character of a name of an anchor, a directive or a tag handle. -/
def isWordChar (c : Char) : Bool := c.isAlphanum || c == '_' || c == '-'

/-- Whether a text ends or goes on with a space, a tab or a line break. -/
def endsWord : List Char → Bool
  | [] => true
  | c :: _ => isSpace c

/-! ## Cursors -/

/-- A position in a text. -/
structure Cursor where
  rest : List Char
  index : Nat
  line : Nat
  column : Nat

namespace Cursor

def start (cs : List Char) : Cursor := ⟨cs, 0, 0, 0⟩

def next? (c : Cursor) : Option Char := c.rest.head?

/-- Whether this character is next. -/
def sees (c : Cursor) (ch : Char) : Bool := c.next? == some ch

/-- Whether a character of this class is next. -/
def seesA (c : Cursor) (p : Char → Bool) : Bool := c.next?.any p

/-- Over `n` characters of one line. -/
def skip (c : Cursor) (n : Nat) : Cursor :=
  { c with rest := c.rest.drop n, index := c.index + n, column := c.column + n }

def advance (c : Cursor) : Cursor := c.skip 1

/-- Over one line break, if one is next; a carriage return with its line feed is one. -/
def advanceLine (c : Cursor) : Cursor :=
  match c.rest with
  | '\r' :: '\n' :: rest => ⟨rest, c.index + 2, c.line + 1, 0⟩
  | ch :: rest => if isBreak ch then ⟨rest, c.index + 1, c.line + 1, 0⟩ else c
  | [] => c

/-- The characters of a class that come next, and the cursor after them. -/
def span (c : Cursor) (p : Char → Bool) : List Char × Cursor :=
  let taken := c.rest.takeWhile p
  (taken, c.skip taken.length)

/-- The cursor after the characters of a class. -/
def after (c : Cursor) (p : Char → Bool) : Cursor := (c.span p).2

/-- Over the rest of the line. -/
def toLineEnd (c : Cursor) : Cursor := c.after fun ch => !isBreak ch

/-- Whether three marks of a kind stand alone at the start of a line. -/
def atMarker (c : Cursor) (mark : Char) : Bool :=
  c.column == 0 && [mark, mark, mark].isPrefixOf c.rest && endsWord (c.rest.drop 3)

/-- Whether the line starts or ends a document. -/
def atDocumentMarker (c : Cursor) : Bool := c.atMarker '-' || c.atMarker '.'

end Cursor

end Stencil.Yaml
