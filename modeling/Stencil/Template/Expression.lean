import Stencil.Template.Datum
/-!
# Expressions and statements

What a template says once its tags are understood.  An expression knows the lines of its parts, since
a fault is reported with the line of the last part that was looked at (`Expression.lastLine`).
-/

namespace Stencil.Template

/-- Operators of arithmetic, and the joining of texts. -/
inductive Operator where
  | add | sub | mul | div | floorDiv | rem | pow | concat
deriving DecidableEq

/-- How one datum is compared with another. -/
inductive Comparison where
  | eq | ne | lt | le | gt | ge | mem | notMem
deriving DecidableEq

/-- How an argument is passed: by its place or by a name; or one that holds several. -/
inductive Passing where
  | placed
  | named (name : String)
  /-- The values of a sequence, each by its place. -/
  | spread
  /-- The entries of a map, each by its name. -/
  | spreadNamed
deriving DecidableEq

/-- Whether the argument goes with those that have names. -/
def Passing.isNamed : Passing → Bool
  | named _ | spreadNamed => true
  | placed | spread => false

/-- An expression. -/
inductive Expression where
  /-- A value that is known without evaluation: a literal, or what is computed from literals. -/
  | constant (line : Nat) (isLiteral : Bool) (value : Datum)
  | variable (line : Nat) (name : String)
  | list (line : Nat) (items : List Expression)
  | map (line : Nat) (entries : List (Expression × Expression))
  | not (line : Nat) (operand : Expression)
  | negate (line : Nat) (operand : Expression)
  | binary (line : Nat) (operator : Operator) (left right : Expression)
  /-- Each operand is compared with the next. -/
  | comparison (line : Nat) (first : Expression) (others : List (Comparison × Expression))
  | both (line : Nat) (left right : Expression)
  | either (line : Nat) (left right : Expression)
  /-- The value, if the condition holds. -/
  | choice (value condition : Expression) (otherwise : Option Expression)
  /-- A filter without subject works on the text of a block. -/
  | filter (line : Nat) (name : String) (subject : Option Expression)
      (arguments : List (Passing × Expression))
  | test (name : String) (subject : Expression) (arguments : List (Passing × Expression))
  | member (subject : Expression) (name : String)
  | item (subject index : Expression)
  | slice (subject : Expression) (start stop step : Option Expression)
  | call (line : Nat) (callee : Expression) (arguments : List (Passing × Expression))

namespace Expression

instance : Inhabited Expression := ⟨.constant 0 true .null⟩

/-- The value of a constant. -/
def constant? : Expression → Option Datum
  | .constant _ _ value => some value
  | _ => none

def isLiteral : Expression → Bool
  | .constant _ isLiteral _ => isLiteral
  | _ => false

/-- The expression as messages name it. -/
def description : Expression → String
  | .constant .. => "constant"
  | .variable .. => "variable"
  | .list .. => "list literal"
  | .map .. => "map literal"
  | .filter .. => "filter expression"
  | .test .. => "test expression"
  | .call .. => "call"
  | _ => "expression"

/-- Whether the named arguments are looked at when the template is read. -/
def areStatic (arguments : List (Passing × Expression)) : Bool :=
  arguments.all fun (passing, e) => !passing.isNamed || (passing != .spreadNamed && e.isLiteral)

mutual

/-- The line of the part of the expression that is looked at last. -/
def lastLine : Expression → Nat
  | .constant line _ _ => line
  | .variable line _ => line
  | .list line items => lastOfItems line items
  | .map line entries => lastOfEntries line entries
  | .not _ e => lastLine e
  | .negate _ e => lastLine e
  | .binary _ _ _ right => lastLine right
  | .comparison _ first others => lastOfOthers (lastLine first) others
  | .both _ _ right => lastLine right
  | .either _ _ right => lastLine right
  | .choice value _ otherwise => lastOfPart (lastLine value) otherwise
  | .filter line _ subject arguments =>
    lastOfArguments (areStatic arguments) (lastOfPart line subject) none arguments
  | .test _ subject arguments =>
    lastOfArguments (areStatic arguments) (lastLine subject) none arguments
  | .member subject _ => lastLine subject
  | .item _ index => lastLine index
  | .slice subject start stop step =>
    lastOfPart (lastOfPart (lastOfPart (lastLine subject) start) stop) step
  | .call line callee arguments =>
    let isStatic := areStatic arguments
    match callee with
    | .variable .. => lastOfArguments isStatic line none arguments
    | .member subject _ => lastOfArguments isStatic (lastLine subject) none arguments
    | callee => lastOfArguments isStatic (lastLine callee) none arguments

/-- The last line of a part, or the line before where the part is not written. -/
def lastOfPart (line : Nat) : Option Expression → Nat
  | none => line
  | some e => lastLine e

def lastOfItems (line : Nat) : List Expression → Nat
  | [] => line
  | e :: es => lastOfItems (lastLine e) es

def lastOfEntries (line : Nat) : List (Expression × Expression) → Nat
  | [] => line
  | (_, value) :: entries => lastOfEntries (lastLine value) entries

def lastOfOthers (line : Nat) : List (Comparison × Expression) → Nat
  | [] => line
  | (_, e) :: others => lastOfOthers (lastLine e) others

/-- The last line of arguments, where those with names come after the others and `named` is the line of
one of them; static ones are passed over. -/
def lastOfArguments (isStatic : Bool) (line : Nat) (named : Option Nat) :
    List (Passing × Expression) → Nat
  | [] => named.getD line
  | (passing, e) :: arguments =>
    if passing.isNamed then
      lastOfArguments isStatic line (if isStatic then named else some (lastLine e)) arguments
    else lastOfArguments isStatic (lastLine e) named arguments

end

end Expression

/-- What a value can be assigned to. -/
inductive Target where
  | name (line : Nat) (name : String)
  | tuple (line : Nat) (targets : List Target)
  | member (line : Nat) (subject : Expression) (name : String)

/-- A statement, or text. -/
inductive Statement where
  | text (s : String)
  | print (e : Expression)
  | branch (condition : Expression) (body otherwise : List Statement)
  | loop (target : Target) (source : Expression) (condition : Option Expression)
      (isRecursive : Bool) (body otherwise : List Statement)
  | leave
  | next
  | assign (target : Target) (value : Expression)
  /-- The text that the body prints, filtered, is assigned. -/
  | capture (target : Target) (filter : Option Expression) (body : List Statement)
  | scope (assignments : List (Target × Expression)) (body : List Statement)
  | filtered (filter : Expression) (body : List Statement)
  | escaping (mode : Expression) (body : List Statement)
  /-- The call is made for its effect. -/
  | run (call : Expression)

instance : Inhabited Statement := ⟨.text ""⟩

end Stencil.Template
