import Stencil.Decimal.Integer
import Stencil.Json.Basic
import Stencil.Text.Numeral
/-!
# Reading JSON text

A strict reader: no comments, no trailing commas, no lone surrogates, numbers within the range of
64-bit floating point, arrays and objects nested at most 127 deep.  Each reading function takes the
characters from where it starts and gives what it read with the characters that follow.

An integer that fits into 64 bits, signed or unsigned, stays an integer; any other number is a
float.  A float is computed as a significand of at most 64 bits times or over a power of ten, so
digits past those of the significand do not count.
-/

namespace Stencil.Json

/-! ## Blanks and words -/

/-- The four characters that may stand between the tokens of a JSON text. -/
def isSpace (c : Char) : Bool := c == ' ' || c == '\n' || c == '\r' || c == '\t'

def skipSpace (cs : List Char) : List Char := cs.dropWhile isSpace

def readWord (word : List Char) (j : Json) (cs : List Char) : Option (Json × List Char) :=
  if word.isPrefixOf cs then some (j, cs.drop word.length) else none

/-! ## Numbers -/

/-- The largest unsigned integer of 64 bits. -/
def maxSignificand : Nat := 0xffffffffffffffff

/-- Digits added to a significand as long as it fits into 64 bits: the significand, the number of
digits taken and the digits left over. -/
def takeSignificand : Nat → Nat → List Char → Nat × Nat × List Char
  | significand, taken, c :: cs =>
    let next := significand * 10 + (c.toNat - 48)
    if maxSignificand < next then (significand, taken, c :: cs)
    else takeSignificand next (taken + 1) cs
  | significand, taken, [] => (significand, taken, [])

/-- A power of ten as a number. -/
def powerOfTen (n : Nat) : Binary64 := Binary64.ofRatio false (Nat.pow 10 n) 1

/-- `significand * 10 ^ exponent` by one multiplication or by divisions, none when it is too large.
Past `10 ^ 308` the division goes in two steps. -/
def scaleSignificand (significand : Nat) (exponent : Int) : Option Binary64 :=
  let f := Binary64.ofRatio false significand 1
  let multiplied (n : Nat) : Option Binary64 :=
    let product := f.mul (powerOfTen n)
    if product.isInfinite then none else some product
  if 0 ≤ exponent then
    if exponent ≤ 308 then multiplied exponent.toNat else if f.isZero then some f else none
  else if -308 ≤ exponent then some (f.div (powerOfTen (-exponent).toNat))
  else if -616 ≤ exponent then
    some ((f.div (powerOfTen 308)).div (powerOfTen (-exponent - 308).toNat))
  else some Binary64.zero

/-- The exponent part, if there is one: `none` for a malformed one. -/
def readExponent (cs : List Char) : Option (Option Int × List Char) :=
  match cs with
  | e :: rest =>
    if e = 'e' || e = 'E' then
      let (negative, rest) := match rest with
        | '+' :: rest => (false, rest)
        | '-' :: rest => (true, rest)
        | rest => (false, rest)
      let digits := rest.takeWhile Decimal.isDigit
      if digits.isEmpty then none
      else
        let n : Int := Nat.ofDigitChars 10 digits 0
        some (some (if negative then -n else n), rest.dropWhile Decimal.isDigit)
    else some (none, cs)
  | [] => some (none, [])

/-- The digits after the decimal point, if there is one: `none` for a point without digits. -/
def readFraction (cs : List Char) : Option (Option (List Char) × List Char) :=
  match cs with
  | '.' :: rest =>
    let digits := rest.takeWhile Decimal.isDigit
    if digits.isEmpty then none else some (some digits, rest.dropWhile Decimal.isDigit)
  | cs => some (none, cs)

/-- The number with these parts. -/
def numberOf (negative : Bool) (whole : List Char) (fraction : Option (List Char))
    (exponent : Option Int) : Option Json :=
  let signed (x : Binary64) : Json := .float (if negative then x.neg else x)
  let (significand, _, left) := takeSignificand 0 0 whole
  if fraction.isNone && exponent.isNone && left.isEmpty then
    if !negative then some (.integer significand)
    else if significand = 0 || Binary64.signBit < significand then
      some (signed (Binary64.ofRatio false significand 1))
    else some (.integer (-(significand : Int)))
  else
    let (significand, taken, _) := takeSignificand significand 0 (fraction.getD [])
    (scaleSignificand significand (exponent.getD 0 + left.length - taken)).map signed

/-- A number. -/
def readNumber (cs : List Char) : Option (Json × List Char) := do
  let (negative, cs) := match cs with
    | '-' :: cs => (true, cs)
    | cs => (false, cs)
  let whole := cs.takeWhile Decimal.isDigit
  if whole.isEmpty then none
  else if whole.head? = some '0' && 1 < whole.length then none
  else
    let (fraction, cs) ← readFraction (cs.dropWhile Decimal.isDigit)
    let (exponent, cs) ← readExponent cs
    let number ← numberOf negative whole fraction exponent
    return (number, cs)

/-! ## Strings -/

/-- A number of four hexadecimal digits. -/
def readHex4 (cs : List Char) : Option (Nat × List Char) :=
  (Text.readHex? 4 cs).map fun n => (n, cs.drop 4)

/-- The character of a `\u` escape; a high surrogate takes the low surrogate that must follow. -/
def readUnicodeEscape (cs : List Char) : Option (Char × List Char) := do
  let (unit, cs) ← readHex4 cs
  if 0xDC00 ≤ unit && unit ≤ 0xDFFF then none
  else if 0xD800 ≤ unit && unit ≤ 0xDBFF then
    match cs with
    | '\\' :: 'u' :: cs =>
      let (low, cs) ← readHex4 cs
      if 0xDC00 ≤ low && low ≤ 0xDFFF then
        return (Char.ofNat (0x10000 + (unit - 0xD800) * 0x400 + (low - 0xDC00)), cs)
      else none
    | _ => none
  else return (Char.ofNat unit, cs)

/-- The character of an escape, from after the backslash. -/
def readEscape : List Char → Option (Char × List Char)
  | '"' :: cs => some ('"', cs)
  | '\\' :: cs => some ('\\', cs)
  | '/' :: cs => some ('/', cs)
  | 'b' :: cs => some ('\x08', cs)
  | 'f' :: cs => some ('\x0c', cs)
  | 'n' :: cs => some ('\n', cs)
  | 'r' :: cs => some ('\r', cs)
  | 't' :: cs => some ('\t', cs)
  | 'u' :: cs => readUnicodeEscape cs
  | _ => none

/-- The characters of a string up to its closing quote.  The first argument bounds the number of
steps; the length of the text is enough. -/
def readStringBody : Nat → List Char → Option (List Char × List Char)
  | 0, _ => none
  | _ + 1, [] => none
  | fuel + 1, c :: cs =>
    if c = '"' then some ([], cs)
    else if c = '\\' then do
      let (c, cs) ← readEscape cs
      let (body, cs) ← readStringBody fuel cs
      return (c :: body, cs)
    else if c.toNat < 0x20 then none
    else do
      let (body, cs) ← readStringBody fuel cs
      return (c :: body, cs)

/-- A string, from after its opening quote. -/
def readString (cs : List Char) : Option (String × List Char) :=
  (readStringBody (cs.length + 1) cs).map fun (body, cs) => (String.ofList body, cs)

/-! ## Values -/

mutual

/-- A value that starts at the first character.  `depth` is the number of arrays and objects that
may still be opened; the first argument bounds the number of steps. -/
def readValue : Nat → Nat → List Char → Option (Json × List Char)
  | 0, _, _ => none
  | fuel + 1, depth, cs =>
    match cs with
    | '"' :: cs => (readString cs).map fun (s, cs) => (.string s, cs)
    | '[' :: cs =>
      if depth = 0 then none
      else (readItems fuel (depth - 1) true (skipSpace cs)).map fun (items, cs) => (.array items, cs)
    | '{' :: cs =>
      if depth = 0 then none
      else (readMembers fuel (depth - 1) true (skipSpace cs)).map fun (members, cs) =>
        (sortedObject members, cs)
    | 'n' :: _ => readWord "null".toList .null cs
    | 't' :: _ => readWord "true".toList (.bool true) cs
    | 'f' :: _ => readWord "false".toList (.bool false) cs
    | _ => readNumber cs

/-- The items of an array up to its closing bracket; before every item but the first a comma. -/
def readItems : Nat → Nat → Bool → List Char → Option (List Json × List Char)
  | 0, _, _, _ => none
  | fuel + 1, depth, first, cs =>
    match cs, first with
    | [], _ => none
    | ']' :: cs, _ => some ([], cs)
    | ',' :: cs, false => do
      let (item, cs) ← readValue fuel depth (skipSpace cs)
      let (items, cs) ← readItems fuel depth false (skipSpace cs)
      return (item :: items, cs)
    | _ :: _, false => none
    | cs, true => do
      let (item, cs) ← readValue fuel depth cs
      let (items, cs) ← readItems fuel depth false (skipSpace cs)
      return (item :: items, cs)

/-- The members of an object up to its closing brace, in the order of the text. -/
def readMembers : Nat → Nat → Bool → List Char → Option (List (String × Json) × List Char)
  | 0, _, _, _ => none
  | fuel + 1, depth, first, cs =>
    match cs, first with
    | [], _ => none
    | '}' :: cs, _ => some ([], cs)
    | ',' :: cs, false => readMember fuel depth (skipSpace cs)
    | _ :: _, false => none
    | cs, true => readMember fuel depth cs

/-- A member and those after it. -/
def readMember : Nat → Nat → List Char → Option (List (String × Json) × List Char)
  | 0, _, _ => none
  | fuel + 1, depth, cs =>
    match cs with
    | '"' :: cs => do
      let (key, cs) ← readString cs
      match skipSpace cs with
      | ':' :: cs =>
        let (value, cs) ← readValue fuel depth (skipSpace cs)
        let (members, cs) ← readMembers fuel depth false (skipSpace cs)
        return ((key, value) :: members, cs)
      | _ => none
    | _ => none

end

/-- How deep arrays and objects may be nested. -/
def maxDepth : Nat := 127

/-- Steps that are enough for a text: every two steps take a character of it. -/
def stepsFor (cs : List Char) : Nat := 2 * cs.length + 2

def atEnd (cs : List Char) : Bool := (skipSpace cs).isEmpty

/-- The data of a JSON text. -/
def read? (text : String) : Option Json :=
  let cs := text.toList
  match readValue (stepsFor cs) maxDepth (skipSpace cs) with
  | some (j, rest) => if atEnd rest then some j else none
  | none => none

/-- The members of a JSON text that is an object, in the order of the text and with repetitions. -/
def readObject? (text : String) : Option (List (String × Json)) :=
  let cs := text.toList
  match skipSpace cs with
  | '{' :: body =>
    match readMembers (stepsFor cs) (maxDepth - 1) true (skipSpace body) with
    | some (members, rest) => if atEnd rest then some members else none
    | none => none
  | _ => none

end Stencil.Json
