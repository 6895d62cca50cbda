import Stencil.Text.Numeral
import Stencil.Yaml.Cursor
import Stencil.Yaml.Token
/-!
# Tags, anchors and directives

The tokens that start with a mark: `!` a tag, `&` an anchor, `*` an alias, `%` a directive.  Each
reading function takes the cursor at the mark and gives the token and the cursor after it.
-/

namespace Stencil.Yaml

/-! ## Tags -/

/-- Punctuation of a tag; brackets and commas only where the whole tag is written out. -/
def isTagPunctuation (whole : Bool) (c : Char) : Bool :=
  ";/?:@&=+$.!~*'()".toList.contains c || (whole && ",[]".toList.contains c)

/-- The number of bytes of a character that starts with this one. -/
def byteCount? (byte : Nat) : Option Nat :=
  if byte < 0x80 then some 1
  else if byte / 0x20 = 6 then some 2
  else if byte / 0x10 = 14 then some 3
  else if byte / 8 = 30 then some 4
  else none

/-- A byte written as `%` and two hexadecimal digits. -/
def readEscapedByte? : List Char → Option Nat
  | '%' :: cs => Text.readHex? 2 cs
  | _ => none

/-- Escaped bytes that continue a character. -/
def readContinuation? : Nat → List Char → Option (List UInt8)
  | 0, _ => some []
  | count + 1, cs =>
    match readEscapedByte? cs with
    | some byte =>
      if byte / 0x40 = 2 then (readContinuation? count (cs.drop 3)).map (byte.toUInt8 :: ·) else none
    | none => none

/-- The escaped bytes of one character; nothing says that it is the shortest form of one. -/
def readEscapedChar? (cs : List Char) : Option (List UInt8) :=
  match readEscapedByte? cs with
  | none => none
  | some byte =>
    match byteCount? byte with
    | none => none
    | some count => (readContinuation? (count - 1) (cs.drop 3)).map (byte.toUInt8 :: ·)

/-- The bytes of a tag, escapes resolved. -/
def readTagBytes (whole : Bool) : Nat → Cursor → Option (List UInt8 × Cursor)
  | 0, _ => none
  | fuel + 1, c =>
    match c.rest with
    | '%' :: _ =>
      match readEscapedChar? c.rest with
      | none => none
      | some bytes =>
        (readTagBytes whole fuel (c.skip (3 * bytes.length))).map fun (more, c) => (bytes ++ more, c)
    | ch :: _ =>
      if isWordChar ch || isTagPunctuation whole ch then
        (readTagBytes whole fuel c.advance).map fun (more, c) => (ch.toNat.toUInt8 :: more, c)
      else some ([], c)
    | [] => some ([], c)

/-- The bytes of a tag after `front`, of which not both may be empty.  A tag ends at a zero byte. -/
def readTagAfter (whole : Bool) (front : List Char) (fuel : Nat) (c : Cursor) :
    Option (List UInt8 × Cursor) :=
  match readTagBytes whole fuel c with
  | none => none
  | some (bytes, c) =>
    if bytes.isEmpty && front.isEmpty then none
    else
      let written := (front.drop 1).map fun ch => ch.toNat.toUInt8
      some ((written ++ bytes).takeWhile (· != 0), c)

/-- The tag that is the mark alone. -/
def bareTag : List UInt8 := [0x21]

/-- A handle: `!`, word characters, and perhaps a second `!`. -/
def readHandle? (c : Cursor) : Option (List Char × Cursor) :=
  if !c.sees '!' then none
  else
    let (word, c) := c.advance.span isWordChar
    if c.sees '!' then some ('!' :: (word ++ ['!']), c.advance) else some ('!' :: word, c)

/-- Whether a text is a handle that names a directive. -/
def isNamedHandle (handle : List Char) : Bool := 2 ≤ handle.length && handle.getLast? == some '!'

/-- A tag written out as `!<…>`. -/
def readWholeTag? (fuel : Nat) (c : Cursor) : Option (Token × Cursor) :=
  match readTagAfter true [] fuel (c.skip 2) with
  | none => none
  | some (suffix, c) => if c.sees '>' then some (.tag "" suffix, c.advance) else none

/-- A tag with a handle; the mark alone is a tag as well. -/
def readShortTag? (fuel : Nat) (c : Cursor) : Option (Token × Cursor) :=
  match readHandle? c with
  | none => none
  | some (handle, c) =>
    if isNamedHandle handle then
      (readTagAfter false [] fuel c).map fun (suffix, c) => (.tag (String.ofList handle) suffix, c)
    else
      (readTagAfter false handle fuel c).map fun (suffix, c) =>
        (if suffix.isEmpty then .tag "" bareTag else .tag "!" suffix, c)

/-- The tag at the cursor; inside brackets a comma may follow it. -/
def readTag? (inFlow : Bool) (fuel : Nat) (c : Cursor) : Option (Token × Cursor) :=
  let token := if (c.rest.drop 1).head? = some '<' then readWholeTag? fuel c else readShortTag? fuel c
  token.filter fun (_, c) => endsWord c.rest || (inFlow && c.sees ',')

/-! ## Anchors -/

/-- Punctuation that may follow the name of an anchor. -/
def mayFollowAnchor (c : Char) : Bool := ['?', ':', ',', ']', '}', '%', '@', '\x60'].contains c

/-- The name after the mark of an anchor or an alias. -/
def readAnchorName? (c : Cursor) : Option (String × Cursor) :=
  let (name, c) := c.advance.span isWordChar
  if name.isEmpty || !(endsWord c.rest || c.seesA mayFollowAnchor) then none
  else some (String.ofList name, c)

/-! ## Directives -/

/-- A number of a version, at most nine digits. -/
def readVersionNumber? (c : Cursor) : Option (Nat × Cursor) :=
  let (digits, c) := c.span Char.isDigit
  if 9 < digits.length then none else (Text.readNumeral? 10 digits).map fun n => (n, c)

/-- The version after the name of its directive. -/
def readVersion? (c : Cursor) : Option (Token × Cursor) :=
  match readVersionNumber? (c.after isInline) with
  | none => none
  | some (major, c) =>
    if !c.sees '.' then none
    else (readVersionNumber? c.advance).map fun (minor, c) => (.versionDirective major minor, c)

/-- The handle and its expansion after the name of the directive. -/
def readTagDirective? (fuel : Nat) (c : Cursor) : Option (Token × Cursor) :=
  match readHandle? (c.after isInline) with
  | none => none
  | some (handle, c) =>
    if !(handle == ['!'] || isNamedHandle handle) || !c.seesA isInline then none
    else
      match readTagAfter true [] fuel (c.after isInline) with
      | none => none
      | some (expansion, c) =>
        if endsWord c.rest then some (.tagDirective (String.ofList handle) expansion, c) else none

/-- The directive at the cursor, with the rest of its line. -/
def readDirective? (fuel : Nat) (c : Cursor) : Option (Token × Cursor) :=
  let (name, c) := c.advance.span isWordChar
  let directive :=
    if !endsWord c.rest then none
    else if name = "YAML".toList then readVersion? c
    else if name = "TAG".toList then readTagDirective? fuel c
    else none
  match directive with
  | none => none
  | some (token, c) =>
    let c := c.after isInline
    let c := if c.sees '#' then c.toLineEnd else c
    if c.rest.isEmpty || c.seesA isBreak then some (token, c.advanceLine) else none

end Stencil.Yaml
