import Stencil.Decimal.Layout
import Stencil.Json.Basic
/-!
# Writing JSON text

Compact text has no blanks at all; indented text puts each item on a line of its own.  In both, a
string escapes the quote, the backslash and the control characters, and nothing else; NaN and the
infinities are written `null`.
-/

namespace Stencil.Json

/-! ## Strings and numbers -/

def hexDigit (n : Nat) : Char := Nat.digitChar (n % 16)

/-- A character inside a JSON string. -/
def escapeChar (c : Char) : List Char :=
  if c = '"' then ['\\', '"']
  else if c = '\\' then ['\\', '\\']
  else if c = '\n' then ['\\', 'n']
  else if c = '\r' then ['\\', 'r']
  else if c = '\t' then ['\\', 't']
  else if c.toNat = 0x08 then ['\\', 'b']
  else if c.toNat = 0x0C then ['\\', 'f']
  else if c.toNat < 0x20 then ['\\', 'u', '0', '0', hexDigit (c.toNat / 16), hexDigit c.toNat]
  else [c]

def quote (s : String) : List Char := '"' :: (s.toList.flatMap escapeChar ++ ['"'])

def writeFloat (x : Binary64) : List Char :=
  if x.isFinite then Decimal.write .json x else "null".toList

/-! ## Compact text -/

mutual

/-- The text without blanks. -/
def writeCompact : Json → List Char
  | .null => "null".toList
  | .bool b => (if b then "true" else "false").toList
  | .integer n => Decimal.writeInt n
  | .float x => writeFloat x
  | .string s => quote s
  | .array items => '[' :: (writeCompactItems items ++ [']'])
  | .object members => '{' :: (writeCompactMembers members ++ ['}'])

/-- Items separated by commas. -/
def writeCompactItems : List Json → List Char
  | [] => []
  | [item] => writeCompact item
  | item :: items => writeCompact item ++ ',' :: writeCompactItems items

/-- Members separated by commas. -/
def writeCompactMembers : List (String × Json) → List Char
  | [] => []
  | [(key, value)] => quote key ++ ':' :: writeCompact value
  | (key, value) :: members =>
    quote key ++ ':' :: (writeCompact value ++ ',' :: writeCompactMembers members)

end

/-- The compact text as a string. -/
def compact (j : Json) : String := String.ofList (writeCompact j)

/-! ## Indented text -/

/-- A line break and the blanks of `depth` levels. -/
def newline (indent : List Char) (depth : Nat) : List Char :=
  '\n' :: (List.replicate depth indent).flatten

mutual

/-- The text with one item a line; an empty array or object stays on its line. -/
def writeIndented (indent : List Char) (depth : Nat) : Json → List Char
  | .array [] => ['[', ']']
  | .array items =>
    '[' :: (writeIndentedItems indent (depth + 1) items ++ newline indent depth ++ [']'])
  | .object [] => ['{', '}']
  | .object members =>
    '{' :: (writeIndentedMembers indent (depth + 1) members ++ newline indent depth ++ ['}'])
  | .null => "null".toList
  | .bool b => (if b then "true" else "false").toList
  | .integer n => Decimal.writeInt n
  | .float x => writeFloat x
  | .string s => quote s

/-- Each item after a line break, with commas between them. -/
def writeIndentedItems (indent : List Char) (depth : Nat) : List Json → List Char
  | [] => []
  | [item] => newline indent depth ++ writeIndented indent depth item
  | item :: items =>
    newline indent depth ++ writeIndented indent depth item ++
      ',' :: writeIndentedItems indent depth items

/-- Each member after a line break, with commas between them. -/
def writeIndentedMembers (indent : List Char) (depth : Nat) : List (String × Json) → List Char
  | [] => []
  | [(key, value)] =>
    newline indent depth ++ quote key ++ ':' :: ' ' :: writeIndented indent depth value
  | (key, value) :: members =>
    newline indent depth ++ quote key ++ ':' :: ' ' :: (writeIndented indent depth value ++
      ',' :: writeIndentedMembers indent depth members)

end

/-- The text with two blanks a level. -/
def indented (j : Json) : String := String.ofList (writeIndented [' ', ' '] 0 j)

end Stencil.Json
