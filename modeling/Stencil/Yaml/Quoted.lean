import Stencil.Text.Numeral
import Stencil.Yaml.Gap
/-!
# Quoted scalars

In single quotes a quote is written twice and everything else stands for itself.  In double quotes a
backslash starts an escape.  Both may go over several lines, which are folded; neither may hold a
line that starts or ends a document.
-/

namespace Stencil.Yaml

/-! ## Escapes -/

/-- The character of an escape of two characters. -/
def simpleEscape? : Char → Option Char
  | '0' => some '\x00'
  | 'a' => some '\x07'
  | 'b' => some '\x08'
  | 't' => some '\t'
  | '\t' => some '\t'
  | 'n' => some '\n'
  | 'v' => some '\x0b'
  | 'f' => some '\x0c'
  | 'r' => some '\r'
  | 'e' => some '\x1b'
  | ' ' => some ' '
  | '"' => some '"'
  | '/' => some '/'
  | '\\' => some '\\'
  | 'N' => some '\u0085'
  | '_' => some '\u00a0'
  | 'L' => some '\u2028'
  | 'P' => some '\u2029'
  | _ => none

/-- How many hexadecimal digits follow the letter of an escape. -/
def hexWidth? : Char → Option Nat
  | 'x' => some 2
  | 'u' => some 4
  | 'U' => some 8
  | _ => none

/-- The character of the escape after a backslash, and the number of characters it takes. -/
def readEscape? : List Char → Option (Char × Nat)
  | [] => none
  | c :: cs =>
    match simpleEscape? c, hexWidth? c with
    | some ch, _ => some (ch, 1)
    | none, none => none
    | none, some width =>
      match Text.readHex? width cs with
      | none => none
      | some n => (Text.charOf? n).map fun ch => (ch, width + 1)

/-! ## Words -/

/-- A part of a quoted scalar without white space, whether a joined line break follows, and the
cursor after it. -/
abbrev Word := List Char × Bool × Cursor

def Word.cons (ch : Char) (w : Word) : Word := (ch :: w.1, w.2)

def readSingleWord : Nat → Cursor → Option Word
  | 0, _ => none
  | fuel + 1, c =>
    match c.rest with
    | '\'' :: '\'' :: _ => (readSingleWord fuel (c.skip 2)).map (.cons '\'')
    | '\'' :: _ => some ([], false, c)
    | [] => some ([], false, c)
    | ch :: _ =>
      if isSpace ch then some ([], false, c) else (readSingleWord fuel c.advance).map (.cons ch)

def readDoubleWord : Nat → Cursor → Option Word
  | 0, _ => none
  | fuel + 1, c =>
    match c.rest with
    | '"' :: _ => some ([], false, c)
    | [] => some ([], false, c)
    | '\\' :: cs =>
      if cs.head?.any isBreak then some ([], true, c.advance.advanceLine)
      else
        match readEscape? cs with
        | none => none
        | some (ch, width) => (readDoubleWord fuel (c.skip (width + 1))).map (.cons ch)
    | ch :: _ =>
      if isSpace ch then some ([], false, c) else (readDoubleWord fuel c.advance).map (.cons ch)

/-! ## Scalars -/

/-- The text up to the closing quote, and the cursor after it. -/
def readQuotedFrom (quote : Char) (fuel : Nat) :
    Nat → List Char → Cursor → Option (String × Cursor)
  | 0, _, _ => none
  | rounds + 1, text, c =>
    if c.atDocumentMarker || c.rest.isEmpty then none
    else
      match if quote = '"' then readDoubleWord fuel c else readSingleWord fuel c with
      | none => none
      | some (word, joined, c) =>
        if c.sees quote then some (String.ofList (text ++ word), c.advance)
        else
          match (if joined then Gap.joined else .empty).read? 0 fuel c with
          | none => none
          | some (gap, c) => readQuotedFrom quote fuel rounds (text ++ word ++ gap.text) c

/-- The quoted scalar whose opening quote is next. -/
def readQuoted? (quote : Char) (fuel : Nat) (c : Cursor) : Option (String × Cursor) :=
  readQuotedFrom quote fuel fuel [] c.advance

end Stencil.Yaml
