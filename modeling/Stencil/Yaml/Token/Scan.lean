import Stencil.Yaml.Block
import Stencil.Yaml.Plain
import Stencil.Yaml.Quoted
import Stencil.Yaml.Tag
/-!
# Scanning

The tokens of a text, from left to right.  Two things are known only later than they are needed.
A key of a mapping shows by the colon after it, so each place where a key may start is kept as a
candidate and the tokens for it are inserted once the colon is met.  A block ends where a line is
indented less, so the columns of the open blocks are kept.
-/

namespace Stencil.Yaml

/-- A place where a key may have started. -/
structure Candidate where
  /-- At this place nothing but a key can stand. -/
  required : Bool
  /-- How many tokens come before it. -/
  number : Nat
  index : Nat
  line : Nat
  column : Nat

/-- A text scanned so far. -/
structure Scanner where
  cursor : Cursor
  /-- The tokens, the latest first, and their number. -/
  tokens : List Token
  count : Nat
  /-- How many brackets are open. -/
  flow : Nat
  /-- The column of the innermost open block, -1 for none, and those of the blocks around it. -/
  indent : Int
  outer : List Int
  /-- Whether a key may start here. -/
  keyAllowed : Bool
  /-- The candidate outside of brackets comes last, one for each open bracket before it. -/
  candidates : List (Option Candidate)

namespace Scanner

def start (cs : List Char) : Scanner := ⟨Cursor.start cs, [], 0, 0, -1, [], true, [none]⟩

/-! ## Parts of a step -/

def push (s : Scanner) (t : Token) : Scanner := { s with tokens := t :: s.tokens, count := s.count + 1 }

/-- The token goes in front of all but the first `number` tokens. -/
def insertAt (s : Scanner) (number : Nat) (t : Token) : Scanner :=
  let late := s.count - number
  { s with tokens := s.tokens.take late ++ t :: s.tokens.drop late, count := s.count + 1 }

def move (s : Scanner) (c : Cursor) : Scanner := { s with cursor := c }

def allowKey (s : Scanner) (allowed : Bool) : Scanner := { s with keyAllowed := allowed }

/-- Blocks at columns after `column` end; inside brackets no block ends. -/
def closeBlocksFrom (column : Int) : List Int → Scanner → Scanner
  | [], s => s
  | next :: outer, s =>
    if column < s.indent then
      closeBlocksFrom column outer { s.push .blockEnd with indent := next, outer := outer }
    else s

def closeBlocks (s : Scanner) (column : Int) : Scanner :=
  if 0 < s.flow then s else closeBlocksFrom column s.outer s

/-- A block starts if the column is deeper than that of the innermost one; its token is the one of
this number. -/
def openBlock (s : Scanner) (column number : Nat) (t : Token) : Scanner :=
  if 0 < s.flow || (column : Int) ≤ s.indent then s
  else { s.insertAt number t with indent := column, outer := s.indent :: s.outer }

/-- A block that starts with the next token. -/
def openBlockHere (s : Scanner) (t : Token) : Scanner := s.openBlock s.cursor.column s.count t

def candidate? (s : Scanner) : Option Candidate := s.candidates.head?.join

def setCandidate (s : Scanner) (k : Option Candidate) : Scanner :=
  { s with candidates := k :: s.candidates.drop 1 }

/-- The candidate is no key; refused where there has to be one. -/
def dropCandidate? (s : Scanner) : Option Scanner :=
  if s.candidate?.any (·.required) then none else some (s.setCandidate none)

/-- A key may start with the next token. -/
def markCandidate? (s : Scanner) : Option Scanner :=
  if s.keyAllowed then
    let c := s.cursor
    let required := s.flow == 0 && s.indent == c.column
    s.dropCandidate?.map (·.setCandidate (some ⟨required, s.count, c.index, c.line, c.column⟩))
  else some s

/-- A key is at most this long. -/
def maxKeyLength : Nat := 1024

/-- Whether a key cannot reach from this place to the cursor. -/
def isStale (s : Scanner) (k : Candidate) : Bool :=
  k.line < s.cursor.line || k.index + maxKeyLength < s.cursor.index

/-- Candidates too far back are no keys; refused where there has to be one. -/
def dropStale? (s : Scanner) : Option Scanner :=
  let stale (k : Option Candidate) : Bool := k.any s.isStale
  if s.candidates.any fun k => k.any fun k => k.required && s.isStale k then none
  else some { s with candidates := s.candidates.map fun k => if stale k then none else k }

/-- Over spaces, comments and line breaks.  A tab is passed over only where no key may start. -/
def skipBlanks : Nat → Scanner → Scanner
  | 0, s => s
  | fuel + 1, s =>
    let tabs := 0 < s.flow || !s.keyAllowed
    let c := s.cursor.after fun ch => ch == ' ' || (tabs && ch == '\t')
    let c := if c.sees '#' then c.toLineEnd else c
    if c.seesA isBreak then
      skipBlanks fuel { s with cursor := c.advanceLine, keyAllowed := s.keyAllowed || s.flow == 0 }
    else s.move c

/-! ## Tokens by their first character -/

/-- The end of the text closes all blocks. -/
def finish? (s : Scanner) : Option Scanner :=
  (s.closeBlocks (-1)).dropCandidate?.map (·.push .streamEnd)

def directive? (fuel : Nat) (s : Scanner) : Option Scanner :=
  match (s.closeBlocks (-1)).dropCandidate?, readDirective? fuel s.cursor with
  | some s, some (token, c) => some (((s.allowKey false).move c).push token)
  | _, _ => none

def documentMarker? (s : Scanner) (t : Token) : Option Scanner :=
  (s.closeBlocks (-1)).dropCandidate?.map fun s =>
    ((s.allowKey false).move (s.cursor.skip 3)).push t

def openBracket? (s : Scanner) (t : Token) : Option Scanner :=
  s.markCandidate?.map fun s =>
    let s := { s with flow := s.flow + 1, candidates := none :: s.candidates }
    ((s.allowKey true).move s.cursor.advance).push t

/-- A bracket that closes nothing is still a token. -/
def closeBracket? (s : Scanner) (t : Token) : Option Scanner :=
  s.dropCandidate?.map fun s =>
    let s := if 0 < s.flow then { s with flow := s.flow - 1, candidates := s.candidates.drop 1 } else s
    ((s.allowKey false).move s.cursor.advance).push t

def comma? (s : Scanner) : Option Scanner :=
  s.dropCandidate?.map fun s => ((s.allowKey true).move s.cursor.advance).push .flowEntry

def dash? (s : Scanner) : Option Scanner :=
  if s.flow == 0 && !s.keyAllowed then none
  else
    (s.openBlockHere .blockSequenceStart).dropCandidate?.map fun s =>
      ((s.allowKey true).move s.cursor.advance).push .blockEntry

def questionMark? (s : Scanner) : Option Scanner :=
  if s.flow == 0 && !s.keyAllowed then none
  else
    (s.openBlockHere .blockMappingStart).dropCandidate?.map fun s =>
      ((s.allowKey (s.flow == 0)).move s.cursor.advance).push .key

/-- A colon makes the candidate a key, or else stands for itself. -/
def colon? (s : Scanner) : Option Scanner :=
  let keyed : Option Scanner :=
    match s.candidate? with
    | some k =>
      some ((((s.insertAt k.number .key).openBlock k.column k.number .blockMappingStart).setCandidate
        none).allowKey false)
    | none =>
      if s.flow == 0 && !s.keyAllowed then none
      else some ((s.openBlockHere .blockMappingStart).allowKey (s.flow == 0))
  keyed.map fun s => (s.move s.cursor.advance).push .value

/-- A token that a key may start with. -/
def keyToken? (s : Scanner) (read : Cursor → Option (Token × Cursor)) : Option Scanner :=
  match s.markCandidate?, read s.cursor with
  | some s, some (token, c) => some (((s.allowKey false).move c).push token)
  | _, _ => none

def blockScalar? (fuel : Nat) (s : Scanner) (literal : Bool) : Option Scanner :=
  match s.dropCandidate?, readBlock? literal s.indent fuel s.cursor with
  | some s, some (text, c) => some (((s.allowKey true).move c).push (.scalar false text))
  | _, _ => none

/-- After a plain scalar that a line break follows, a key may start. -/
def plainScalar? (fuel : Nat) (s : Scanner) : Option Scanner :=
  match s.markCandidate?, readPlain? (0 < s.flow) (s.indent + 1) fuel s.cursor with
  | some s, some (text, broken, c) => some (((s.allowKey broken).move c).push (.scalar true text))
  | _, _ => none

/-- Characters that never start a plain scalar. -/
def isReserved (c : Char) : Bool := ",[]{}#&*!|>'\"%@\x60".toList.contains c

/-- Whether a plain scalar may start with these characters. -/
def startsPlain (inFlow : Bool) : List Char → Bool
  | [] => false
  | '-' :: cs => !cs.head?.any isInline
  | c :: cs => if c == '?' || c == ':' then !inFlow && !endsWord cs else !isReserved c && !isSpace c

/-! ## Steps -/

/-- The next token, where the cursor is past all blanks. -/
def token? (fuel : Nat) (s : Scanner) : Option Scanner :=
  let c := s.cursor
  let inFlow := 0 < s.flow
  match c.rest with
  | [] => s.finish?
  | ch :: cs =>
    if c.column == 0 && ch == '%' then s.directive? fuel
    else if c.atMarker '-' then s.documentMarker? .documentStart
    else if c.atMarker '.' then s.documentMarker? .documentEnd
    else if ch == '[' then s.openBracket? .flowSequenceStart
    else if ch == '\x7b' then s.openBracket? .flowMappingStart
    else if ch == ']' then s.closeBracket? .flowSequenceEnd
    else if ch == '\x7d' then s.closeBracket? .flowMappingEnd
    else if ch == ',' then s.comma?
    else if ch == '-' && endsWord cs then s.dash?
    else if ch == '?' && (inFlow || endsWord cs) then s.questionMark?
    else if ch == ':' && (inFlow || endsWord cs) then s.colon?
    else if ch == '*' then
      s.keyToken? fun c => (readAnchorName? c).map fun (name, c) => (.alias name, c)
    else if ch == '&' then
      s.keyToken? fun c => (readAnchorName? c).map fun (name, c) => (.anchor name, c)
    else if ch == '!' then s.keyToken? (readTag? inFlow fuel)
    else if ch == '|' && !inFlow then s.blockScalar? fuel true
    else if ch == '>' && !inFlow then s.blockScalar? fuel false
    else if ch == '\'' || ch == '"' then
      s.keyToken? fun c => (readQuoted? ch fuel c).map fun (text, c) => (.scalar false text, c)
    else if startsPlain inFlow c.rest then s.plainScalar? fuel
    else none

/-- Blanks and one token. -/
def step? (fuel : Nat) (s : Scanner) : Option Scanner :=
  match (s.skipBlanks fuel).dropStale? with
  | none => none
  | some s => (s.closeBlocks s.cursor.column).token? fuel

/-- Steps until the end of the text. -/
def run? (fuel : Nat) : Nat → Scanner → Option (List Token)
  | 0, _ => none
  | rounds + 1, s =>
    match s.step? fuel with
    | none => none
    | some s => if s.tokens.head? = some .streamEnd then some s.tokens.reverse else run? fuel rounds s

end Scanner

/-- The tokens of a text, if it can be cut into tokens at all. -/
def Token.scan? (cs : List Char) : Option (List Token) :=
  let cs := match cs with
    | c :: rest => if c == byteOrderMark then rest else c :: rest
    | [] => []
  if cs.all isAllowed then Scanner.run? (cs.length + 2) (cs.length + 2) (.start cs) else none

end Stencil.Yaml
