import Stencil.Template.Token.Literal
import Stencil.Text.Blank
import Stencil.Text.Search
/-!
# Scanning a template

A template is text with tags: `{{ … }}` prints an expression, `{% … %}` is a statement, `{# … #}` a
comment.  A minus sign inside a mark takes away the blanks next to it.  Between `{% raw %}` and
`{% endraw %}` everything is text.  A tag does not end inside of brackets: there its closing mark is
read as two signs.
-/

namespace Stencil.Template

/-! ## Marks -/

/-- The marks that start a tag. -/
inductive Opening where
  | variable | block | comment
deriving DecidableEq

/-- The mark at the front of a text. -/
def openingOf? : List Char → Option Opening
  | '{' :: '{' :: _ => some .variable
  | '{' :: '%' :: _ => some .block
  | '{' :: '#' :: _ => some .comment
  | _ => none

/-- The text before the first mark. -/
def textBeforeMark : List Char → List Char
  | [] => []
  | c :: cs => if (openingOf? (c :: cs)).isSome then [] else c :: textBeforeMark cs

def isTrimming (c : Option Char) : Bool := c == some '-'

/-- A sign next to a mark: minus takes blanks away, plus keeps them. -/
def isMarkSign (c : Char) : Bool := c == '-' || c == '+'

def dropMarkSign (cs : List Char) : List Char := if cs.head?.any isMarkSign then cs.drop 1 else cs

def lineBreaks (cs : List Char) : Nat := cs.count '\n'

/-! ## Raw blocks -/

/-- The rest of a block tag that holds this word alone: whether blanks after the tag are taken away,
and the text after the tag. -/
def afterWordTag? (word : List Char) (cs : List Char) : Option (Bool × List Char) :=
  match Text.afterMark? word (cs.dropWhile Text.isAsciiBlank) with
  | none => none
  | some cs =>
    let cs := cs.dropWhile Text.isAsciiBlank
    (Text.afterMark? ['%', '}'] (dropMarkSign cs)).map fun rest => (isTrimming cs.head?, rest)

/-- A raw block after its first tag: the text, whether blanks after its last tag are taken away, and
the text after that. -/
def readRaw? : List Char → Option (List Char × Bool × List Char)
  | [] => none
  | c :: cs =>
    let ended :=
      if openingOf? (c :: cs) = some .block then
        afterWordTag? "endraw".toList (dropMarkSign (cs.drop 1))
      else none
    match ended with
    | some (trims, rest) => some ([], trims, rest)
    | none => (readRaw? cs).map fun (text, after) => (c :: text, after)

/-- Whether the last tag of a raw block takes away the blanks before it; the text ends at that tag. -/
def trimsBefore (cs text : List Char) : Bool := isTrimming ((cs.drop (text.length + 2)).head?)

/-! ## Comments -/

/-- A comment after its first mark: its text up to the last mark and the text after that. -/
def readComment? (cs : List Char) : Option (List Char × List Char) :=
  Text.splitAtFirst ['#', '}'] cs

/-! ## Inside of tags -/

def wideSign? : List Char → Option Sign
  | '/' :: '/' :: _ => some .floorDivide
  | '*' :: '*' :: _ => some .power
  | '=' :: '=' :: _ => some .equal
  | '!' :: '=' :: _ => some .notEqual
  | '>' :: '=' :: _ => some .greaterEqual
  | '<' :: '=' :: _ => some .lessEqual
  | _ => none

def narrowSign? : Char → Option Sign
  | '+' => some .plus
  | '-' => some .minus
  | '*' => some .times
  | '/' => some .divide
  | '%' => some .percent
  | '.' => some .dot
  | ',' => some .comma
  | ':' => some .colon
  | '~' => some .tilde
  | '=' => some .assign
  | '|' => some .pipe
  | '>' => some .greater
  | '<' => some .less
  | '[' => some .bracketOpen
  | ']' => some .bracketClose
  | '(' => some .parenOpen
  | ')' => some .parenClose
  | '{' => some .braceOpen
  | '}' => some .braceClose
  | _ => none

/-- How many brackets are open after a token. -/
def openAfter (nesting : Nat) : Token → Nat
  | .sign .bracketOpen | .sign .parenOpen | .sign .braceOpen => nesting + 1
  | .sign .bracketClose | .sign .parenClose | .sign .braceClose => nesting - 1
  | _ => nesting

def isWordChar (c : Char) : Bool := c.isAlphanum || c == '_'

/-- The token at the front of a text inside a tag, and how many characters it takes. -/
def readTagToken (cs : List Char) : Except Problem (Token × Nat) :=
  match wideSign? cs, cs with
  | some s, _ => .ok (.sign s, 2)
  | none, [] => .error .badCharacter
  | none, c :: rest =>
    match narrowSign? c with
    | some s => .ok (.sign s, 1)
    | none =>
      if c == '\'' || c == '"' then (readString c rest).map fun (token, width) => (token, width + 1)
      else if Decimal.isDigit c then readNumber cs
      else if isWordStart c then
        let name := cs.takeWhile isWordChar
        .ok (.word (String.ofList name), name.length)
      else .error .badCharacter

/-- The mark that ends a tag: whether it takes blanks away, and its width. -/
def closingOf? (mark : List Char) (cs : List Char) : Option (Bool × Nat) :=
  if mark.isPrefixOf cs then some (false, 2)
  else if cs.head?.any isMarkSign && mark.isPrefixOf (cs.drop 1) then some (isTrimming cs.head?, 3)
  else none

/-! ## Templates -/

/-- The tags that hold tokens. -/
inductive Tag where
  | variable | block
deriving DecidableEq

def Tag.closing : Tag → List Char
  | .variable => ['}', '}']
  | .block => ['%', '}']

def Tag.closingToken : Tag → Token
  | .variable => .variableEnd
  | .block => .blockEnd

/-- Where the scanning of a template stands. -/
inductive Mode where
  /-- Outside of tags; the blanks that come next may have to be taken away. -/
  | text (trims : Bool)
  /-- Inside of a tag, with so many brackets open. -/
  | inside (tag : Tag) (nesting : Nat)
deriving DecidableEq

def Scanned.cons (token : Token) (line : Nat) (s : Scanned) : Scanned :=
  { s with tokens := ⟨token, line⟩ :: s.tokens }

/-- Text outside of tags; an empty one is no token. -/
def Scanned.data (text : List Char) (line : Nat) (s : Scanned) : Scanned :=
  if text.isEmpty then s else s.cons (.data (String.ofList text)) line

def Scanned.failed (problem : Problem) (line : Nat) : Scanned := ⟨[], some ⟨problem, line⟩⟩

/-- The line of a problem met at some text: an unclosed part is noticed only where the template ends, a
bad escape is put down to the line of the token before. -/
def lineOfProblem (problem : Problem) (line before : Nat) (cs : List Char) : Nat :=
  match problem with
  | .unclosed _ => line + lineBreaks cs
  | .badEscape => before
  | _ => line

/-- The tokens from here on.  `line` is the line reached and `before` the line of the last token. -/
def scanFrom : Nat → Mode → Nat → Nat → List Char → Scanned
  | 0, _, _, _, _ => ⟨[], none⟩
  | fuel + 1, .text true, line, before, cs =>
    let blanks := cs.takeWhile Text.isBlank
    scanFrom fuel (.text false) (line + lineBreaks blanks) before (cs.drop blanks.length)
  | fuel + 1, .text false, line, before, cs =>
    let text := textBeforeMark cs
    let rest := cs.drop text.length
    let start := line + lineBreaks text
    let sign := (rest.drop 2).head?
    let width := if sign.any isMarkSign then 3 else 2
    let shown := if isTrimming sign then Text.trimRight text else text
    let after := rest.drop width
    Scanned.data shown line <|
      match openingOf? rest with
      | none => ⟨[], none⟩
      | some .variable => (scanFrom fuel (.inside .variable 0) start start after).cons .variableStart start
      | some .comment =>
        match readComment? after with
        | none => .failed (.unclosed .comment) (start + lineBreaks after)
        | some (comment, others) =>
          scanFrom fuel (.text (isTrimming comment.getLast?)) (start + lineBreaks comment) before others
      | some .block =>
        match afterWordTag? "raw".toList after with
        | none => (scanFrom fuel (.inside .block 0) start start after).cons .blockStart start
        | some (trims, raw) =>
          let inside := start + lineBreaks (after.take (after.length - raw.length))
          match readRaw? raw with
          | none => .failed (.unclosed .rawBlock) inside
          | some (text, trimsNext, others) =>
            let shown := if trims then Text.trimLeft text else text
            let shown := if trimsBefore raw text then Text.trimRight shown else shown
            let line := inside + lineBreaks (raw.take (raw.length - others.length))
            Scanned.data shown inside (scanFrom fuel (.text trimsNext) line inside others)
  | fuel + 1, .inside tag nesting, line, before, cs =>
    let blanks := cs.takeWhile Text.isAsciiBlank
    let cs := cs.drop blanks.length
    let line := line + lineBreaks blanks
    let closing := if nesting = 0 then closingOf? tag.closing cs else none
    match closing, cs with
    | _, [] => ⟨[], none⟩
    | some (trims, width), cs =>
      (scanFrom fuel (.text trims) line line (cs.drop width)).cons tag.closingToken line
    | none, cs =>
      match readTagToken cs with
      | .error problem => .failed problem (lineOfProblem problem line before cs)
      | .ok (token, width) =>
        let after := line + lineBreaks (cs.take width)
        (scanFrom fuel (.inside tag (openAfter nesting token)) after line (cs.drop width)).cons token
          line

/-- The tokens of a template. -/
def Token.scan (template : String) : Scanned :=
  let cs := template.toList
  scanFrom (2 * cs.length + 2) (.text false) 1 1 cs

end Stencil.Template
