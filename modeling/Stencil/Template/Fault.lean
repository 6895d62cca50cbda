/-!
# Faults of templates

Why a template cannot be read or rendered, and the texts that say so.  A fault is a problem together
with the line where it arose.
-/

namespace Stencil.Template

/-- The kinds of data in a template, in the order in which data of different kinds is sorted. -/
inductive Kind where
  | undefined | null | boolean | number | string | sequence | map | iterator | plain
deriving DecidableEq

namespace Kind

def name : Kind → String
  | undefined => "undefined"
  | null => "none"
  | boolean => "bool"
  | number => "number"
  | string => "string"
  | sequence => "sequence"
  | map => "map"
  | iterator => "iterator"
  | plain => "plain object"

/-- The place of the kind among the kinds. -/
def rank : Kind → Nat
  | undefined => 0
  | null => 1
  | boolean => 2
  | number => 3
  | string => 4
  | sequence => 5
  | map => 6
  | iterator => 7
  | plain => 8

end Kind

/-- A part of a template that has a closing mark. -/
inductive Enclosed where
  | string | comment | rawBlock
deriving DecidableEq

def Enclosed.name : Enclosed → String
  | string => "string"
  | comment => "comment"
  | rawBlock => "raw block"

/-- What is wrong with a template. -/
inductive Problem where
  /-- The template ends before the closing mark. -/
  | unclosed (part : Enclosed)
  | badCharacter
  | badNumber (detail : String)
  | badEscape
  /-- A token that cannot stand where it stands, and what could. -/
  | unexpected (found : String) (expected : Option String)
  | unknownStatement (name : String)
  /-- A token that starts no statement. -/
  | notAStatement (found : String)
  | reservedName (name : String)
  | notInLoop (statement : String)
  | positionalAfterNamed
  | noFilter
  /-- A statement that must be a call is something else. -/
  | notACall (found : String)
  | tooDeep
  | undefinedValue
  | unknownFilter (name : String)
  | unknownTest (name : String)
  | unknownFunction (name : String)
  | unknownMethod (kind : Kind) (name : String)
  | missingArgument
  | tooManyArguments
  | unknownArgument (name : String)
  | unsupportedOperands (operator : String) (left right : Kind)
  /-- The operator has no result for these operands. -/
  | incalculable (operator left right : String)
  | notIterable (kind : Kind)
  | noLength (kind : Kind)
  | notCallable (kind : Kind)
  | notUnpackable
  | wrongLength (expected got : Nat)
  | notSerializable
  | invalid (detail : Option String)
deriving DecidableEq

namespace Problem

/-- The kind of the problem. -/
def label : Problem → String
  | unclosed _ | badCharacter | badNumber _ | unexpected .. | unknownStatement _ | notAStatement _
  | reservedName _ | notInLoop _ | positionalAfterNamed | noFilter | notACall _ | tooDeep => "syntax error"
  | badEscape => "bad string escape"
  | undefinedValue => "undefined value"
  | unknownFilter _ => "unknown filter"
  | unknownTest _ => "unknown test"
  | unknownFunction _ => "unknown function"
  | unknownMethod .. => "unknown method"
  | missingArgument => "missing argument"
  | tooManyArguments | unknownArgument _ => "too many arguments"
  | notUnpackable | wrongLength .. => "cannot unpack"
  | unsupportedOperands .. | incalculable .. | notIterable _ | noLength _ | notCallable _
  | notSerializable | invalid _ => "invalid operation"

/-- What there is to say beyond the kind of the problem. -/
def detail? : Problem → Option String
  | unclosed part => some ("unexpected end of " ++ part.name)
  | badCharacter => some "unexpected character"
  | badNumber detail => some detail
  | badEscape => none
  | unexpected found none => some ("unexpected " ++ found)
  | unexpected found (some expected) => some ("unexpected " ++ found ++ ", expected " ++ expected)
  | unknownStatement name => some ("unknown statement " ++ name)
  | notAStatement found => some ("unknown " ++ found ++ ", expected statement")
  | reservedName name => some ("cannot assign to reserved variable name " ++ name)
  | notInLoop statement => some ("'" ++ statement ++ "' must be placed inside a loop")
  | positionalAfterNamed => some "non-keyword arg after keyword arg"
  | noFilter => some "expected a filter"
  | notACall found => some ("expected call expression in call block, got " ++ found)
  | tooDeep => some "template exceeds maximum recursion limits"
  | undefinedValue => none
  | unknownFilter name => some ("filter " ++ name ++ " is unknown")
  | unknownTest name => some ("test " ++ name ++ " is unknown")
  | unknownFunction name => some (name ++ " is unknown")
  | unknownMethod kind name => some (kind.name ++ " has no method named " ++ name)
  | missingArgument => none
  | tooManyArguments => none
  | unknownArgument name => some ("unknown keyword argument '" ++ name ++ "'")
  | unsupportedOperands operator left right =>
    some ("tried to use " ++ operator ++ " operator on unsupported types " ++ left.name ++ " and " ++
      right.name)
  | incalculable operator left right =>
    some ("unable to calculate " ++ left ++ " " ++ operator ++ " " ++ right)
  | notIterable kind => some (kind.name ++ " is not iterable")
  | noLength kind => some ("cannot calculate length of value of type " ++ kind.name)
  | notCallable kind =>
    match kind with
    | .sequence | .map | .iterator | .plain => some "object is not callable"
    | _ => some ("value of type " ++ kind.name ++ " is not callable")
  | notUnpackable => some "value is not iterable"
  | wrongLength expected got =>
    some s!"sequence of wrong length (expected {expected}, got {got})"
  | notSerializable => some "cannot serialize to JSON"
  | invalid detail => detail

end Problem

/-- A problem and the line where it arose. -/
structure Fault where
  problem : Problem
  line : Nat
deriving DecidableEq

/-- The name under which faults report the template. -/
def templateName : String := "<string>"

def Fault.message (f : Fault) : String :=
  let detail := match f.problem.detail? with
    | some detail => ": " ++ detail
    | none => ""
  f.problem.label ++ detail ++ s!" (in {templateName}:{f.line})"

end Stencil.Template
