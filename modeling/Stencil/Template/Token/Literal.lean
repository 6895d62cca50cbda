import Stencil.Decimal.Layout
import Stencil.Template.Token
import Stencil.Text.Numeral
/-!
# Literals

Numbers and quoted strings inside of tags.  Underscores may group the digits of a number, and a point
before a letter does not belong to it.  Strings know the escapes of JSON, an escaped single quote, and
bytes written with two hexadecimal digits or up to three octal ones.
-/

namespace Stencil.Template

def isWordStart (c : Char) : Bool := c.isAlpha || c == '_'

/-! ## Numbers -/

/-- How much of a number has been seen. -/
inductive NumberPart where
  | whole | fraction | exponentMark | exponent
deriving DecidableEq

/-- The part that a character continues a number with. -/
def NumberPart.next? (part : NumberPart) (c : Char) : Option NumberPart :=
  if c == '_' then some part
  else if Decimal.isDigit c then some (if part = .exponentMark then .exponent else part)
  else
    match part with
    | .whole => if c == '.' then some .fraction else if c == 'e' || c == 'E' then some .exponentMark else none
    | .fraction => if c == 'e' || c == 'E' then some .exponentMark else none
    | .exponentMark => if c == '+' || c == '-' then some .exponent else none
    | .exponent => none

/-- The characters of a decimal number and the part in which it ends.  A point before a letter is left
over: what follows is an attribute. -/
def takeNumber (part : NumberPart) : List Char → List Char × NumberPart
  | [] => ([], part)
  | c :: cs =>
    let next := if c == '.' && cs.head?.any isWordStart then none else part.next? c
    match next with
    | none => ([], part)
    | some part =>
      let (taken, last) := takeNumber part cs
      (c :: taken, last)

/-- The base that the first two characters of a number state. -/
def baseOf? : List Char → Option Nat
  | '0' :: c :: _ =>
    if c == 'x' || c == 'X' then some 16
    else if c == 'o' || c == 'O' then some 8
    else if c == 'b' || c == 'B' then some 2
    else none
  | _ => none

def isBasedChar (base : Nat) (c : Char) : Bool :=
  c == '_' || Decimal.isDigit c || (base == 16 && (Text.digitValue? 16 c).isSome)

/-- Integers have to be below this. -/
def integerBound : Nat := 0x100000000000000000000000000000000

/-- The integer that digits stand for. -/
def integerOf (base : Nat) (digits : List Char) : Except Problem Token :=
  match (Text.readNumeral? base digits).filter (· < integerBound) with
  | some n => .ok (.integer n)
  | none => .error (.badNumber "invalid integer (too large)")

def floatOf (chars : List Char) : Except Problem Token :=
  match Decimal.readBinary64? chars with
  | some x => .ok (.float x)
  | none => .error (.badNumber "invalid float")

/-- The number at the front of a text that starts with a digit, and how many characters it takes. -/
def readNumber (cs : List Char) : Except Problem (Token × Nat) :=
  let finish (taken : List Char) (width : Nat) (read : List Char → Except Problem Token) :
      Except Problem (Token × Nat) :=
    if taken.getLast? = some '_' then .error (.badNumber "'_' may not occur at end of number")
    else (read (taken.filter (· != '_'))).map fun token => (token, width)
  match baseOf? cs with
  | some base =>
    let taken := (cs.drop 2).takeWhile (isBasedChar base)
    finish taken (taken.length + 2) (integerOf base)
  | none =>
    let (taken, part) := takeNumber .whole cs
    finish taken taken.length (if part = .whole then integerOf 10 else floatOf)

/-! ## Strings -/

/-- The characters up to the closing quote, escapes not resolved. -/
def takeQuoted (quote : Char) : List Char → Option (List Char)
  | [] => none
  | '\\' :: c :: cs => (takeQuoted quote cs).map fun taken => '\\' :: c :: taken
  | c :: cs => if c == quote then some [] else (takeQuoted quote cs).map (c :: ·)

def simpleEscape? : Char → Option Char
  | '"' => some '"'
  | '\\' => some '\\'
  | '/' => some '/'
  | '\'' => some '\''
  | 'b' => some '\x08'
  | 'f' => some '\x0c'
  | 'n' => some '\n'
  | 'r' => some '\r'
  | 't' => some '\t'
  | _ => none

/-- The number of exactly `width` hexadecimal digits at the front of a text; a plus sign may take the
place of the first of them. -/
def readHexNumber? (width : Nat) (cs : List Char) : Option Nat :=
  match cs with
  | '+' :: cs => Text.readHex? (width - 1) cs
  | cs => Text.readHex? width cs

/-- The character of a `\u` escape after its first two characters, and how many characters it takes;
a high surrogate takes the low surrogate that must follow. -/
def readUnit? (cs : List Char) : Option (Char × Nat) :=
  match readHexNumber? 4 cs with
  | none => none
  | some unit =>
    match Text.charOf? unit with
    | some c => some (c, 4)
    | none =>
      match cs.drop 4 with
      | '\\' :: 'u' :: cs =>
        match readHexNumber? 4 cs with
        | none => none
        | some low =>
          if unit < 0xDC00 && 0xDC00 ≤ low && low ≤ 0xDFFF then
            (Text.charOf? (0x10000 + (unit - 0xD800) * 0x400 + (low - 0xDC00))).map fun c => (c, 10)
          else none
      | _ => none

def isOctalDigit (c : Char) : Bool := '0' ≤ c && c ≤ '7'

/-- The character of an escape without its backslash, and how many characters it takes. -/
def readEscape? (cs : List Char) : Option (Char × Nat) :=
  match cs with
  | 'u' :: cs => (readUnit? cs).map fun (c, width) => (c, width + 1)
  | 'x' :: cs => (readHexNumber? 2 cs).map fun n => (Char.ofNat n, 3)
  | c :: _ =>
    let octal := (cs.take 3).takeWhile isOctalDigit
    match simpleEscape? c, (Text.readNumeral? 8 octal).filter (· ≤ 0xFF) with
    | some c, _ => some (c, 1)
    | none, some n => some (Char.ofNat n, octal.length)
    | none, none => none
  | [] => none

/-- The text with its escapes resolved, of which the first `skip` characters are resolved already. -/
def unescapeFrom : Nat → List Char → Option (List Char)
  | _, [] => some []
  | skip + 1, _ :: cs => unescapeFrom skip cs
  | 0, '\\' :: cs =>
    match readEscape? cs with
    | some (c, width) => (unescapeFrom width cs).map (c :: ·)
    | none => none
  | 0, c :: cs => (unescapeFrom 0 cs).map (c :: ·)

/-- The string whose opening quote is passed, and how many characters it takes with its closing
quote. -/
def readString (quote : Char) (cs : List Char) : Except Problem (Token × Nat) :=
  match takeQuoted quote cs with
  | none => .error (.unclosed .string)
  | some taken =>
    match unescapeFrom 0 taken with
    | some text => .ok (.string (String.ofList text), taken.length + 1)
    | none => .error .badEscape

end Stencil.Template
