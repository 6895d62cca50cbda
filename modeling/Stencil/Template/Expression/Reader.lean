import Stencil.Template.Expression
import Stencil.Template.Token
/-!
# Reading expressions

The grammar of expressions over tokens.  From the loosest to the tightest: `if … else`, `or`, `and`,
`not`, comparisons, `+ -`, `~`, `* / // %`, `**`, the sign, and then what follows an operand: an
attribute, an index or a call, and after those filters and tests.  Comparisons make a chain, and strings
in a row are one string.
-/

namespace Stencil.Template

/-! ## Reading tokens -/

/-- The tokens still to be read, the fault behind them, and the line of the last token read. -/
structure Reading where
  tokens : List Located
  fault : Option Fault
  line : Nat

/-- A part of the grammar. -/
abbrev Grammar := StateT Reading (Except Fault)

namespace Grammar

/-- A problem at the last token read. -/
def fail {α : Type} (problem : Problem) : Grammar α := fun r => .error ⟨problem, r.line⟩

/-- The next token, which stays. -/
def peek : Grammar (Option Token) := fun r =>
  match r.tokens, r.fault with
  | t :: _, _ => .ok (some t.token, r)
  | [], some fault => .error fault
  | [], none => .ok (none, r)

/-- The line where the next token starts. -/
def here : Grammar Nat := fun r => .ok ((r.tokens.head?.map (·.line)).getD r.line, r)

/-- The line where the last token read starts. -/
def lastRead : Grammar Nat := fun r => .ok (r.line, r)

def skip : Grammar Unit := fun r =>
  match r.tokens with
  | t :: ts => .ok ((), { r with tokens := ts, line := t.line })
  | [] => .ok ((), r)

/-- Takes the next token, if there is one. -/
def next : Grammar (Option Token) := do
  let t ← peek
  skip
  return t

/-- Takes the next token; `expected` says what is missing at the end of the template. -/
def take (expected : String) : Grammar Token := do
  match ← next with
  | some t => return t
  | none => fail (.unexpected "end of input" (some expected))

def unexpected {α : Type} (t : Token) (expected : String) : Grammar α :=
  fail (.unexpected t.name (some expected))

/-- Takes the next token, which must be this one. -/
def expect (t : Token) (expected : String) : Grammar Unit := do
  let found ← take expected
  if found = t then return () else unexpected found expected

def expectSign (s : Sign) : Grammar Unit := expect (.sign s) (Token.sign s).name

/-- Takes the next token, which must be a word. -/
def expectWord : Grammar String := do
  match ← take "identifier" with
  | .word name => return name
  | t => unexpected t "identifier"

/-- Takes the next token if it is this one. -/
def takes (t : Token) : Grammar Bool := do
  if (← peek) = some t then
    skip
    return true
  else return false

def takesSign (s : Sign) : Grammar Bool := takes (.sign s)

def takesWord (name : String) : Grammar Bool := takes (.word name)

def seesSign (s : Sign) : Grammar Bool := return (← peek) = some (.sign s)

/-- Takes the next token if it is a string.  Where no token can be read here, the template counts as
ended. -/
def takesString? : Grammar (Option String) := fun r =>
  match r.tokens with
  | ⟨.string s, line⟩ :: ts => .ok (some s, { r with tokens := ts, line := line })
  | _ :: _ => .ok (none, r)
  | [] => .ok (none, { r with fault := none })

/-- Words between points, after one already taken. -/
def moreDotted : Nat → String → Grammar String
  | 0, name => return name
  | fuel + 1, name => do
    if ← takesSign .dot then moreDotted fuel (name ++ "." ++ (← expectWord)) else return name

/-- The name of a filter or a test, and the line where it starts. -/
def expectName (fuel : Nat) : Grammar (String × Nat) := do
  let name ← expectWord
  let line ← lastRead
  return (← moreDotted fuel name, line)

end Grammar

open Grammar

/-! ## Operators -/

def sumOperator? : Token → Option Operator
  | .sign .plus => some .add
  | .sign .minus => some .sub
  | _ => none

def concatOperator? : Token → Option Operator
  | .sign .tilde => some .concat
  | _ => none

def productOperator? : Token → Option Operator
  | .sign .times => some .mul
  | .sign .divide => some .div
  | .sign .floorDivide => some .floorDiv
  | .sign .percent => some .rem
  | _ => none

def powerOperator? : Token → Option Operator
  | .sign .power => some .pow
  | _ => none

def comparison? : Token → Option Comparison
  | .sign .equal => some .eq
  | .sign .notEqual => some .ne
  | .sign .less => some .lt
  | .sign .lessEqual => some .le
  | .sign .greater => some .gt
  | .sign .greaterEqual => some .ge
  | .word "in" => some .mem
  | _ => none

/-- More operands of one level that starts on a line, to the right of those read so far. -/
def moreOperands (operator? : Token → Option Operator) (operand : Grammar Expression) (line : Nat) :
    Nat → Expression → Grammar Expression
  | 0, left => return left
  | fuel + 1, left => do
    match (← peek).bind operator? with
    | none => return left
    | some operator =>
      skip
      moreOperands operator? operand line fuel (.binary line operator left (← operand))

/-- Operands of one level, grouped from the left. -/
def readLevel (operator? : Token → Option Operator) (fuel : Nat) (operand : Grammar Expression) :
    Grammar Expression := do
  let line ← here
  moreOperands operator? operand line fuel (← operand)

/-- Sums of products of powers. -/
def readSum (fuel : Nat) (operand : Grammar Expression) : Grammar Expression :=
  readLevel sumOperator? fuel <| readLevel concatOperator? fuel <|
    readLevel productOperator? fuel <| readLevel powerOperator? fuel operand

/-- The comparison that comes next, which is taken; `not in` is one. -/
def takesComparison? : Grammar (Option Comparison) := do
  if ← takesWord "not" then
    expect (.word "in") "in"
    return some .notMem
  else
    match (← peek).bind comparison? with
    | none => return none
    | some c =>
      skip
      return some c

/-- More comparisons, each with the operand on its right. -/
def moreComparisons (operand : Grammar Expression) :
    Nat → List (Comparison × Expression) → Grammar (List (Comparison × Expression))
  | 0, others => return others
  | fuel + 1, others => do
    match ← takesComparison? with
    | none => return others
    | some c => moreComparisons operand fuel (others ++ [(c, ← operand)])

def readComparison (fuel : Nat) (operand : Grammar Expression) : Grammar Expression := do
  let line ← here
  let first ← operand
  match ← moreComparisons operand fuel [] with
  | [] => return first
  | others => return .comparison line first others

def readNot (operand : Grammar Expression) : Nat → Grammar Expression
  | 0 => operand
  | fuel + 1 => do
    let line ← here
    if ← takesWord "not" then return .not line (← readNot operand fuel) else operand

/-- More operands joined by a word. -/
def moreJoined (word : String) (join : Expression → Expression → Expression)
    (operand : Grammar Expression) : Nat → Expression → Grammar Expression
  | 0, left => return left
  | fuel + 1, left => do
    if ← takesWord word then moreJoined word join operand fuel (join left (← operand))
    else return left

/-- Operands joined by a word, grouped from the left. -/
def readJoined (word : String) (join : Nat → Expression → Expression → Expression) (fuel : Nat)
    (operand : Grammar Expression) : Grammar Expression := do
  let line ← here
  moreJoined word (join line) operand fuel (← operand)

/-- An expression without `if`, from its operands. -/
def readOr (fuel : Nat) (operand : Grammar Expression) : Grammar Expression :=
  readJoined "or" .either fuel <| readJoined "and" .both fuel <|
    readNot (readComparison fuel (readSum fuel operand)) fuel

mutual

/-- An expression with or without `if`, from expressions without. -/
def readChoice (part : Grammar Expression) : Nat → Grammar Expression
  | 0 => part
  | fuel + 1 => do moreChoices part fuel (← part)

def moreChoices (part : Grammar Expression) : Nat → Expression → Grammar Expression
  | 0, value => return value
  | fuel + 1, value => do
    if ← takesWord "if" then
      let condition ← part
      let otherwise ← if ← takesWord "else" then some <$> readChoice part fuel else pure none
      moreChoices part fuel (.choice value condition otherwise)
    else return value

end

/-! ## Operands -/

/-- Expressions and statements are nested at most this deep. -/
def maxNesting : Nat := 150

/-- Nothing, or a fault where the nesting is too deep. -/
def guardNesting (depth : Nat) : Grammar Unit := if maxNesting < depth then fail .tooDeep else return ()

/-- The literal or variable that a word is. -/
def ofWord (line : Nat) (name : String) : Expression :=
  if name = "true" || name = "True" then .constant line true (.boolean true)
  else if name = "false" || name = "False" then .constant line true (.boolean false)
  else if name = "none" || name = "None" then .constant line true .null
  else .variable line name

/-- Strings in a row, after one already taken. -/
def moreText : Nat → String → Grammar String
  | 0, s => return s
  | fuel + 1, s => do
    match ← takesString? with
    | some more => moreText fuel (s ++ more)
    | none => return s

/-- An attribute may be an integer below this, `2 ^ 64`. -/
def longIntegerBound : Nat := 0x10000000000000000

/-- Whether a test takes the next token as its argument. -/
def startsArgument : Token → Bool
  | .word name => !(["and", "or", "else", "is"].contains name)
  | .string _ | .integer _ | .float _ => true
  | .sign s => s = .plus || s = .minus || s = .bracketOpen || s = .braceOpen
  | _ => false

mutual

/-- An expression. -/
def readExpression : Nat → Nat → Grammar Expression
  | 0, _ => fail .tooDeep
  | fuel + 1, depth => do
    guardNesting (depth + 1)
    readChoice (readOr fuel (readOperand fuel (depth + 1))) fuel

/-- An expression without `if`. -/
def readSimple : Nat → Nat → Grammar Expression
  | 0, _ => fail .tooDeep
  | fuel + 1, depth => readOr fuel (readOperand fuel depth)

/-- An operand with all that follows it. -/
def readOperand : Nat → Nat → Grammar Expression
  | 0, _ => fail .tooDeep
  | fuel + 1, depth => do readFilters fuel depth (← readUnfiltered fuel depth)

/-- An operand without filters and tests. -/
def readUnfiltered : Nat → Nat → Grammar Expression
  | 0, _ => fail .tooDeep
  | fuel + 1, depth => do
    let line ← here
    readPostfix fuel depth line (← readSigned fuel depth)

/-- A sign, or what it is put in front of. -/
def readSigned : Nat → Nat → Grammar Expression
  | 0, _ => fail .tooDeep
  | fuel + 1, depth => do
    if ← takesSign .minus then
      let line ← lastRead
      guardNesting (depth + 1)
      return .negate line (← readSigned fuel (depth + 1))
    else readPrimary fuel depth

/-- A literal, a variable, or something in brackets. -/
def readPrimary : Nat → Nat → Grammar Expression
  | 0, _ => fail .tooDeep
  | fuel + 1, depth => do
    let t ← take "expression"
    let line ← lastRead
    match t with
    | .word name => return ofWord line name
    | .string s => return .constant line true (.ofString (← moreText fuel s))
    | .integer n => return .constant line true (.ofCount n)
    | .float x => return .constant line true (.float x)
    | .sign .parenOpen => readParenthesized fuel depth line
    | .sign .bracketOpen => return .list line (← readItems fuel depth .bracketClose [])
    | .sign .braceOpen => return .map line (← readEntries fuel depth [])
    | t => fail (.unexpected t.name none)

/-- What stands in parentheses: a list, if there is a comma or nothing at all. -/
def readParenthesized : Nat → Nat → Nat → Grammar Expression
  | 0, _, _ => fail .tooDeep
  | fuel + 1, depth, line => do
    if ← takesSign .parenClose then return .list line []
    else
      let first ← readExpression fuel depth
      if ← seesSign .comma then return .list line (← readItems fuel depth .parenClose [first])
      else
        expectSign .parenClose
        return first

/-- Items after those read so far, up to the closing sign. -/
def readItems : Nat → Nat → Sign → List Expression → Grammar (List Expression)
  | 0, _, _, _ => fail .tooDeep
  | fuel + 1, depth, closing, items => do
    if ← takesSign closing then return items
    else
      if !items.isEmpty then expectSign .comma
      if !items.isEmpty && (← takesSign closing) then return items
      else readItems fuel depth closing (items ++ [← readExpression fuel depth])

/-- Entries of a map after those read so far, up to the closing brace. -/
def readEntries : Nat → Nat → List (Expression × Expression) →
    Grammar (List (Expression × Expression))
  | 0, _, _ => fail .tooDeep
  | fuel + 1, depth, entries => do
    if ← takesSign .braceClose then return entries
    else
      if !entries.isEmpty then expectSign .comma
      if !entries.isEmpty && (← takesSign .braceClose) then return entries
      else
        let key ← readExpression fuel depth
        expectSign .colon
        readEntries fuel depth (entries ++ [(key, ← readExpression fuel depth)])

/-- Attributes, indices and calls after an operand that starts on a line. -/
def readPostfix : Nat → Nat → Nat → Expression → Grammar Expression
  | 0, _, _, _ => fail .tooDeep
  | fuel + 1, depth, line, e => do
    if ← takesSign .dot then
      let expected := "identifier or integer"
      match ← take expected with
      | .word name => readPostfix fuel depth line (.member e name)
      | .integer n =>
        if n < longIntegerBound then
          readPostfix fuel depth line (.item e (.constant (← lastRead) true (.ofCount n)))
        else unexpected (.integer n) expected
      | t => unexpected t expected
    else if ← takesSign .bracketOpen then
      readPostfix fuel depth line (← readSubscript fuel depth e)
    else if ← seesSign .parenOpen then
      readPostfix fuel depth line (.call line e (← readArguments fuel depth))
    else return e

/-- An index or a slice after its opening bracket. -/
def readSubscript : Nat → Nat → Expression → Grammar Expression
  | 0, _, _ => fail .tooDeep
  | fuel + 1, depth, e => do
    let start ← if ← seesSign .colon then pure none else some <$> readExpression fuel depth
    let isSlice ← takesSign .colon
    let stop ← if !isSlice || (← seesSign .bracketClose) || (← seesSign .colon) then pure none
      else some <$> readExpression fuel depth
    let hasStep ← if isSlice then takesSign .colon else pure false
    let step ← if !hasStep || (← seesSign .bracketClose) then pure none
      else some <$> readExpression fuel depth
    expectSign .bracketClose
    match isSlice, start with
    | false, some index => return .item e index
    | _, _ => return .slice e start stop step

/-- Arguments in parentheses. -/
def readArguments : Nat → Nat → Grammar (List (Passing × Expression))
  | 0, _ => fail .tooDeep
  | fuel + 1, depth => do
    expectSign .parenOpen
    moreArguments fuel depth []

/-- Arguments after those read so far. -/
def moreArguments : Nat → Nat → List (Passing × Expression) →
    Grammar (List (Passing × Expression))
  | 0, _, _ => fail .tooDeep
  | fuel + 1, depth, arguments => do
    if ← takesSign .parenClose then return arguments
    else
      if !arguments.isEmpty then expectSign .comma
      if !arguments.isEmpty && (← takesSign .parenClose) then return arguments
      else
        let hasNamed := arguments.any fun (passing, _) => passing.isNamed
        moreArguments fuel depth (arguments ++ [← readArgument fuel depth hasNamed])

/-- An argument; a single one without a name cannot follow one with a name. -/
def readArgument : Nat → Nat → Bool → Grammar (Passing × Expression)
  | 0, _, _ => fail .tooDeep
  | fuel + 1, depth, afterNamed => do
    if ← takesSign .power then return (.spreadNamed, ← readExpression fuel depth)
    else if ← takesSign .times then return (.spread, ← readExpression fuel depth)
    else
      let e ← readExpression fuel depth
      let name ← match e with
        | .variable _ name => if ← takesSign .assign then pure (some name) else pure none
        | _ => pure none
      match name with
      | some name => return (.named name, ← readSimple fuel depth)
      | none => if afterNamed then fail .positionalAfterNamed else return (.placed, e)

/-- Arguments in parentheses, or none. -/
def readMaybeArguments : Nat → Nat → Grammar (List (Passing × Expression))
  | 0, _ => fail .tooDeep
  | fuel + 1, depth => do if ← seesSign .parenOpen then readArguments fuel depth else return []

/-- Filters and tests after an operand. -/
def readFilters : Nat → Nat → Expression → Grammar Expression
  | 0, _, _ => fail .tooDeep
  | fuel + 1, depth, e => do
    if ← takesSign .pipe then
      let (name, line) ← expectName fuel
      readFilters fuel depth (.filter line name (some e) (← readMaybeArguments fuel depth))
    else if ← takesWord "is" then
      let negated ← takesWord "not"
      let (name, line) ← expectName fuel
      let arguments ← if ← seesSign .parenOpen then readArguments fuel depth
        else if (← peek).any startsArgument then
          pure [(.placed, ← readUnfiltered fuel depth)]
        else pure []
      let test := Expression.test name e arguments
      readFilters fuel depth (if negated then .not line test else test)
    else return e

end

/-- Filters in a row, without a subject. -/
def readFilterChain (depth : Nat) : Nat → Option Expression → Grammar Expression
  | 0, _ => fail .tooDeep
  | fuel + 1, chain => do
    if (← peek) = some .blockEnd then
      match chain with
      | some e => return e
      | none => fail .noFilter
    else
      if chain.isSome then expectSign .pipe
      let (name, line) ← expectName fuel
      readFilterChain depth fuel (some (.filter line name chain (← readMaybeArguments fuel depth)))

end Stencil.Template
