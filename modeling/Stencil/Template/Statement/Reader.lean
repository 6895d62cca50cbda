import Stencil.Template.Expression.Constant
import Stencil.Template.Expression.Reader
import Stencil.Template.Token.Scan
/-!
# Reading statements

The grammar of the statements between `{%` and `%}`.  Statements with a body end with a statement of
their own (`endif`, `endfor`, …); a body that the template leaves open is a fault.
-/

namespace Stencil.Template

open Grammar

/-! ## Values -/

/-- An expression with its constant parts computed. -/
def readValue (fuel depth : Nat) : Grammar Expression := return (← readExpression fuel depth).folded

/-- An expression without `if`, with its constant parts computed. -/
def readSimpleValue (fuel depth : Nat) : Grammar Expression := return (← readSimple fuel depth).folded

/-- Values between commas after those read so far, up to the end of the tag or the last of them. -/
def moreValues (depth : Nat) : Nat → List Expression → Grammar (List Expression)
  | 0, values => return values
  | fuel + 1, values => do
    if !(← takesSign .comma) || (← peek) = some .blockEnd then return values
    else moreValues depth fuel (values ++ [← readExpression fuel depth])

/-- An expression, or several between commas, which make a list. -/
def readValues (fuel depth : Nat) : Grammar Expression := do
  let line ← here
  let first ← readExpression fuel depth
  if ← seesSign .comma then return (Expression.list line (← moreValues depth fuel [first])).folded
  else return first.folded

/-! ## Targets -/

/-- Names that cannot be assigned to. -/
def reservedNames : List String :=
  ["true", "True", "false", "False", "none", "None", "loop", "self"]

/-- A name that can be assigned to. -/
def readName : Grammar String := do
  let name ← expectWord
  if reservedNames.contains name then fail (.reservedName name) else return name

/-- Attributes of a target. -/
def moreAttributes (line : Nat) : Nat → Target → Expression → Grammar Target
  | 0, target, _ => return target
  | fuel + 1, target, e => do
    if ← takesSign .dot then
      let name ← expectWord
      moreAttributes line fuel (.member line e name) (.member e name)
    else return target

/-- A name with or without attributes. -/
def readDotted (fuel : Nat) : Grammar Target := do
  let name ← readName
  let line ← lastRead
  moreAttributes line fuel (.name line name) (.variable line name)

/-- Names with or without attributes between commas, after one already read on a line. -/
def moreDottedNames (line : Nat) : Nat → List Target → Grammar Target
  | 0, targets => return .tuple line targets
  | fuel + 1, targets => do
    if ← takesSign .comma then moreDottedNames line fuel (targets ++ [← readDotted fuel])
    else
      match targets with
      | [target] => return target
      | targets => return .tuple line targets

/-- Whether nothing more belongs to a list of targets. -/
def endsTargets (t : Token) : Bool :=
  t = .sign .parenClose || t = .variableEnd || t = .blockEnd || t = .word "in"

mutual

/-- A name, or names between commas, which take the items of a sequence apart. -/
def readTarget : Nat → Grammar Target
  | 0 => fail .tooDeep
  | fuel + 1 => do
    let line ← here
    let (targets, isTuple) ← moreTargets fuel []
    match targets, isTuple with
    | [target], false => return target
    | targets, _ => return .tuple line targets

/-- Targets after those read so far, and whether there is a comma among them. -/
def moreTargets : Nat → List Target → Grammar (List Target × Bool)
  | 0, _ => fail .tooDeep
  | fuel + 1, targets => do
    if (← peek).any endsTargets then return (targets, !targets.isEmpty)
    else
      let target ← if ← takesSign .parenOpen then do
          let inner ← readTarget fuel
          expectSign .parenClose
          pure inner
        else do
          let name ← readName
          pure (.name (← lastRead) name)
      if ← takesSign .comma then
        let (all, _) ← moreTargets fuel (targets ++ [target])
        return (all, true)
      else return (targets ++ [target], !targets.isEmpty)

end

/-- A target in parentheses, if a parenthesis comes next. -/
def readParenthesizedTarget? (fuel : Nat) : Grammar (Option Target) := do
  if ← takesSign .parenOpen then
    let target ← readTarget fuel
    expectSign .parenClose
    return some target
  else return none

/-! ## Statements -/

/-- Where a statement stands with regard to loops. -/
inductive LoopPlace where
  | outside
  /-- After the `else` of a loop that stands in no other loop: there is nothing to leave. -/
  | behind
  | inside
deriving DecidableEq

/-- The place after the `else` of a loop at this place. -/
def LoopPlace.afterElse (place : LoopPlace) : LoopPlace :=
  if place = .inside then .inside else .behind

/-- A statement that acts on the loop around it. -/
def LoopPlace.acting (place : LoopPlace) (name : String) (statement : Statement) : Grammar Statement :=
  match place with
  | .outside => fail (.notInLoop name)
  | .behind => return .text ""
  | .inside => return statement

def expectBlockEnd : Grammar Unit := expect .blockEnd Token.blockEnd.name

def expectAssign : Grammar Unit := expect (.sign .assign) "assignment operator"

mutual

/-- Statements and text up to one of the closing words, which stays, or to the end. -/
def readBody (place : LoopPlace) (closing : List String) : Nat → Nat → Grammar (List Statement)
  | 0, _ => fail .tooDeep
  | fuel + 1, depth => do
    match ← next with
    | some (.data s) => return .text s :: (← readBody place closing fuel depth)
    | some .variableStart =>
      let e ← readValue fuel depth
      expect .variableEnd Token.variableEnd.name
      return .print e :: (← readBody place closing fuel depth)
    | some .blockStart =>
      match ← peek with
      | none => fail (.unexpected "end of input" (some "keyword"))
      | some (.word name) =>
        if closing.contains name then return []
        else readStatementAndMore place closing fuel depth
      | some _ => readStatementAndMore place closing fuel depth
    | _ => return []
termination_by structural fuel => fuel

/-- One statement, the end of its tag, and what follows. -/
def readStatementAndMore (place : LoopPlace) (closing : List String) :
    Nat → Nat → Grammar (List Statement)
  | 0, _ => fail .tooDeep
  | fuel + 1, depth => do
    guardNesting (depth + 1)
    let statement ← readStatement place fuel (depth + 1)
    expectBlockEnd
    return statement :: (← readBody place closing fuel depth)
termination_by structural fuel => fuel

/-- One statement, without the end of its tag. -/
def readStatement (place : LoopPlace) : Nat → Nat → Grammar Statement
  | 0, _ => fail .tooDeep
  | fuel + 1, depth => do
    match ← take "block keyword" with
    | .word "if" => readBranch place fuel depth
    | .word "for" => readLoop place fuel depth
    | .word "set" => readSet place fuel depth
    | .word "with" =>
      let assignments ← readAssignments fuel depth []
      expectBlockEnd
      return .scope assignments (← readClosed place "endwith" fuel depth)
    | .word "filter" =>
      let filter ← readFilterChain depth fuel none
      expectBlockEnd
      return .filtered filter.folded (← readClosed place "endfilter" fuel depth)
    | .word "autoescape" =>
      let mode ← readValue fuel depth
      expectBlockEnd
      return .escaping mode (← readClosed place "endautoescape" fuel depth)
    | .word "do" =>
      match ← readExpression fuel depth with
      | .call line callee arguments => return .run (Expression.call line callee arguments).folded
      | e => fail (.notACall e.description)
    | .word "break" => place.acting "break" .leave
    | .word "continue" => place.acting "continue" .next
    | .word name => fail (.unknownStatement name)
    | t => fail (.notAStatement t.name)
termination_by structural fuel => fuel

/-- A body and its closing word. -/
def readClosed (place : LoopPlace) (closing : String) : Nat → Nat → Grammar (List Statement)
  | 0, _ => fail .tooDeep
  | fuel + 1, depth => do
    let body ← readBody place [closing] fuel depth
    let _ ← next
    return body
termination_by structural fuel => fuel

/-- A condition with its body and what stands after `elif` and `else`. -/
def readBranch (place : LoopPlace) : Nat → Nat → Grammar Statement
  | 0, _ => fail .tooDeep
  | fuel + 1, depth => do
    let condition ← readSimpleValue fuel depth
    expectBlockEnd
    let body ← readBody place ["endif", "else", "elif"] fuel depth
    match ← next with
    | some (.word "else") =>
      expectBlockEnd
      return .branch condition body (← readClosed place "endif" fuel depth)
    | some (.word "elif") => return .branch condition body [← readBranch place fuel depth]
    | _ => return .branch condition body []
termination_by structural fuel => fuel

/-- A loop with its body and what stands after `else`. -/
def readLoop (place : LoopPlace) : Nat → Nat → Grammar Statement
  | 0, _ => fail .tooDeep
  | fuel + 1, depth => do
    let target ← readTarget fuel
    expect (.word "in") "in"
    let source ← readSimpleValue fuel depth
    let condition ← if ← takesWord "if" then some <$> readValue fuel depth else pure none
    let isRecursive ← takesWord "recursive"
    expectBlockEnd
    let body ← readBody .inside ["endfor", "else"] fuel depth
    let otherwise ← if ← takesWord "else" then do
        expectBlockEnd
        readBody place.afterElse ["endfor"] fuel depth
      else pure []
    let _ ← next
    return .loop target source condition isRecursive body otherwise
termination_by structural fuel => fuel

/-- An assignment, of a value or of the text of a body. -/
def readSet (place : LoopPlace) : Nat → Nat → Grammar Statement
  | 0, _ => fail .tooDeep
  | fuel + 1, depth => do
    match ← readParenthesizedTarget? fuel with
    | some target =>
      expectAssign
      return .assign target (← readValues fuel depth)
    | none =>
      let line ← here
      let target ← moreDottedNames line fuel [← readDotted fuel]
      if (← seesSign .pipe) || (← peek) = some .blockEnd then
        let filter ← if ← takesSign .pipe then some <$> readFilterChain depth fuel none else pure none
        expectBlockEnd
        return .capture target (filter.map Expression.folded) (← readClosed place "endset" fuel depth)
      else
        expectAssign
        return .assign target (← readValues fuel depth)
termination_by structural fuel => fuel

/-- Assignments between commas, after those read so far, up to the end of the tag. -/
def readAssignments : Nat → Nat → List (Target × Expression) → Grammar (List (Target × Expression))
  | 0, _, _ => fail .tooDeep
  | fuel + 1, depth, assignments => do
    if (← peek) = some .blockEnd then return assignments
    else
      if !assignments.isEmpty then expect (.sign .comma) "comma"
      let target ← match ← readParenthesizedTarget? fuel with
        | some target => pure target
        | none => do
          let name ← readName
          pure (.name (← lastRead) name)
      expectAssign
      let value ← readValue fuel depth
      readAssignments fuel depth (assignments ++ [(target, value)])
termination_by structural fuel => fuel

end

/-- The statements of a template. -/
def read (template : String) : Except Fault (List Statement) :=
  let scanned := Token.scan template
  let fuel := 30 * (scanned.tokens.length + 10)
  match (readBody .outside [] fuel 0).run ⟨scanned.tokens, scanned.fault, 0⟩ with
  | .ok (statements, _) => .ok statements
  | .error fault => .error fault

end Stencil.Template
