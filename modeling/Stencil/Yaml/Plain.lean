import Stencil.Yaml.Gap
/-!
# Plain scalars

A plain scalar has no quotes.  It ends before a colon at the end of a word, before a comment, at a
line that is not indented, and inside brackets also before a bracket or a comma.
-/

namespace Stencil.Yaml

/-- Characters that end a plain scalar inside brackets. -/
def isFlowIndicator (c : Char) : Bool := [',', '[', ']', '{', '}'].contains c

/-- The next word of a plain scalar.  Inside brackets a colon must not be followed by punctuation. -/
def readPlainWord? (inFlow : Bool) : List Char → Option (List Char)
  | [] => some []
  | c :: cs =>
    if isSpace c then some []
    else if inFlow && c == ':' && cs.head?.any (fun d => isFlowIndicator d || d == '?') then none
    else if (c == ':' && endsWord cs) || (inFlow && isFlowIndicator c) then some []
    else (readPlainWord? inFlow cs).map (c :: ·)

/-- The text of a plain scalar, whether a line ended after its last word, and the cursor where it
ends. -/
abbrev Plain := String × Bool × Cursor

/-- The words from the cursor on, after a text and a gap. -/
def readPlainFrom (inFlow : Bool) (indent : Int) (fuel : Nat) :
    Nat → List Char → Gap → Cursor → Option Plain
  | 0, _, _, _ => none
  | rounds + 1, text, gap, c =>
    if c.atDocumentMarker || c.sees '#' then some (String.ofList text, gap.broken, c)
    else
      match readPlainWord? inFlow c.rest with
      | none => none
      | some word =>
        let c := c.skip word.length
        let text := if word.isEmpty then text else text ++ gap.text ++ word
        let gap := if word.isEmpty then gap else .empty
        if !c.seesA isSpace then some (String.ofList text, gap.broken, c)
        else
          match gap.read? indent fuel c with
          | none => none
          | some (gap, c) =>
            if !inFlow && c.column < indent then some (String.ofList text, gap.broken, c)
            else readPlainFrom inFlow indent fuel rounds text gap c

/-- The plain scalar that starts at the cursor; later lines start at column `indent` or after. -/
def readPlain? (inFlow : Bool) (indent : Int) (fuel : Nat) (c : Cursor) : Option Plain :=
  readPlainFrom inFlow indent fuel fuel [] .empty c

end Stencil.Yaml
