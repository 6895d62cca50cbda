import Stencil.Decimal.Layout
import Stencil.Json.Writer
import Stencil.Template.Datum
import Stencil.Text.Visible
/-!
# The text of data

How data is printed.  By itself a text stands as it is and a float never has an exponent; inside of a
sequence or a map a text is quoted and a large or small float has an exponent.
-/

namespace Stencil.Template

/-! ## Quoting -/

/-- A character inside of quotes: what cannot be shown is written by its code point. -/
def quoteChar (c : Char) : List Char :=
  if c == '"' then ['\\', '"']
  else if c == '\\' then ['\\', '\\']
  else if c == '\n' then ['\\', 'n']
  else if c == '\r' then ['\\', 'r']
  else if c == '\t' then ['\\', 't']
  else if c.toNat == 0 then ['\\', '0']
  else if Text.isVisible c then [c]
  else '\\' :: 'u' :: '{' :: (Nat.toDigits 16 c.toNat ++ ['}'])

def quoted (s : String) : List Char := '"' :: (s.toList.flatMap quoteChar ++ ['"'])

namespace Datum

/-! ## Printing -/

/-- Data that is neither text nor number nor made of other data. -/
def constantText : Datum → String
  | .null => "None"
  | .boolean b => if b then "True" else "False"
  | .object _ shown _ _ => shown
  | .function name => name
  | _ => ""

mutual

/-- A datum inside of a sequence or a map. -/
def nestedChars : Datum → List Char
  | .undefined _ => "undefined".toList
  | .integer _ n => Decimal.writeInt n
  | .float x => Decimal.write .nested x
  | .text _ s => quoted s
  | .sequence _ items => '[' :: (itemChars items ++ [']'])
  | .map entries => '{' :: (entryChars entries ++ ['}'])
  | d => d.constantText.toList

/-- Items between commas. -/
def itemChars : List Datum → List Char
  | [] => []
  | [d] => nestedChars d
  | d :: ds => nestedChars d ++ ',' :: ' ' :: itemChars ds

/-- Entries between commas. -/
def entryChars : List (Datum × Datum) → List Char
  | [] => []
  | [(key, value)] => nestedChars key ++ ':' :: ' ' :: nestedChars value
  | (key, value) :: entries =>
    nestedChars key ++ ':' :: ' ' :: (nestedChars value ++ ',' :: ' ' :: entryChars entries)

end

/-- The datum as it is printed. -/
def shown : Datum → String
  | .undefined _ => ""
  | .float x => Decimal.text .printed x
  | .text _ s => s
  | d => String.ofList d.nestedChars

/-! ## Escaping -/

/-- A character that has a meaning in HTML is written as an entity. -/
def escapeHtmlChar (c : Char) : List Char :=
  match c with
  | '<' => "&lt;".toList
  | '>' => "&gt;".toList
  | '&' => "&amp;".toList
  | '"' => "&quot;".toList
  | '\'' => "&#x27;".toList
  | '/' => "&#x2f;".toList
  | c => [c]

def escapeHtml (s : String) : String := String.ofList (s.toList.flatMap escapeHtmlChar)

/-- Whether the printed datum holds nothing to be escaped. -/
def isPlainText (d : Datum) : Bool :=
  match d.kind, d with
  | _, .text isSafe _ => isSafe
  | .undefined, _ | .null, _ | .boolean, _ | .number, _ => true
  | _, _ => false

/-- The printed datum, escaped where that is needed. -/
def shownAsHtml (d : Datum) : String := if d.isPlainText then d.shown else escapeHtml d.shown

/-! ## JSON -/

/-- The name that a key has in JSON data. -/
def keyName? : Datum → Option String
  | .text _ s => some s
  | .integer _ n => some (String.ofList (Decimal.writeInt n))
  | .boolean b => some (if b then "true" else "false")
  | .float x => if x.isFinite then some (Decimal.text .json x) else none
  | _ => none

mutual

/-- The datum as JSON data; a key may have no name. -/
def toJson? : Datum → Option Json
  | .boolean b => some (.bool b)
  | .integer _ n => some (.integer n)
  | .float x => some (.float x)
  | .text _ s => some (.string s)
  | .sequence _ items => (itemsToJson? items).map .array
  | .map entries => (entriesToJson? entries).map .object
  | .object .. => some (.object [])
  | .function name => some (.string name)
  | _ => some .null

def itemsToJson? : List Datum → Option (List Json)
  | [] => some []
  | d :: ds =>
    match toJson? d, itemsToJson? ds with
    | some j, some js => some (j :: js)
    | _, _ => none

def entriesToJson? : List (Datum × Datum) → Option (List (String × Json))
  | [] => some []
  | (key, value) :: entries =>
    match keyName? key, toJson? value, entriesToJson? entries with
    | some name, some j, some members => some ((name, j) :: members)
    | _, _, _ => none

end

/-- A character of JSON text that has a meaning in HTML is written by its code point. -/
def escapeJsonChar (c : Char) : List Char :=
  match c with
  | '<' => "\\u003c".toList
  | '>' => "\\u003e".toList
  | '&' => "\\u0026".toList
  | '\'' => "\\u0027".toList
  | c => [c]

/-- The JSON text of the datum, compact or with so many blanks a level. -/
def jsonText? (indent : Option Nat) (d : Datum) : Option String :=
  d.toJson?.map fun j =>
    let chars := match indent with
      | none => Json.writeCompact j
      | some n => Json.writeIndented (List.replicate n ' ') 0 j
    String.ofList (chars.flatMap escapeJsonChar)

end Datum

end Stencil.Template
