import Stencil.Template.Datum.Access
/-!
# Arguments

What is passed to filters, tests and functions.  Arguments without names come in order; those with
names are passed together, as one map behind the others.  What takes no names therefore meets them as
one more argument, which is a map but cannot stand for a text.
-/

namespace Stencil.Template

/-- The arguments of a filter, a test or a function. -/
structure Arguments where
  placed : List Datum
  /-- The entries of the named arguments, if any are passed. -/
  named : Option (List (Datum × Datum))

/-- One argument as it is met. -/
inductive Argument where
  | single (d : Datum)
  | named (entries : List (Datum × Datum))

/-! ## Conversions -/

namespace Datum

/-- The datum as a text, where undefined data may be strictly refused. -/
def asText (strict : Bool) (d : Datum) : Except Problem String :=
  if strict && d.isUndefined then .error .undefinedValue else .ok d.shown

/-- What a datum cannot be converted to. -/
def inconvertible {α : Type} (d : Datum) (form : String) : Except Problem α :=
  .error (.invalid (some ("cannot convert " ++ d.kind.name ++ " to " ++ form)))

/-- Whether the datum counts as not given. -/
def isAbsent (d : Datum) : Bool := d.isUndefined || d.kind = .null

end Datum

namespace Argument

def datum : Argument → Datum
  | single d => d
  | named entries => .map entries

/-- The argument as a text. -/
def text (strict : Bool) : Argument → Except Problem String
  | single d => d.asText strict
  | named _ => .error (.invalid (some "cannot convert kwargs to string"))

/-- The argument as an integer of 64 bits, whose type is called `form`. -/
def integer (strict : Bool) (form : String) (a : Argument) : Except Problem Int :=
  if strict && a.datum.isUndefined then .error .undefinedValue
  else
    match a.datum.integer64? with
    | some n => .ok n
    | none => a.datum.inconvertible form

end Argument

namespace Arguments

/-! ## Passing -/

/-- Entries of named arguments; what is not a map has none. -/
def entriesOf (d : Datum) : Except Problem (List (Datum × Datum)) :=
  match d.entries? with
  | some entries => .ok entries
  | none =>
    .error (.invalid (some
      ("attempted to apply keyword arguments from non map (got " ++ d.kind.name ++ ")")))

/-- The entries that one evaluated argument adds to the named ones. -/
def namedEntries : Passing × Datum → Except Problem (List (Datum × Datum))
  | (.named name, d) => .ok [(.ofString name, d)]
  | (.spreadNamed, d) => entriesOf d
  | _ => .ok []

/-- The data that one evaluated argument adds to those without names. -/
def placedData : Passing × Datum → Except Problem (List Datum)
  | (.placed, d) => .ok [d]
  | (.spread, d) => d.iterate
  | _ => .ok []

/-- Evaluated arguments.  Of two with one name the later counts. -/
def ofEvaluated (args : List (Passing × Datum)) : Except Problem Arguments := do
  let entries ← args.mapM namedEntries
  let placed ← args.mapM placedData
  let named := Datum.sortEntries entries.flatten
  return ⟨placed.flatten, if args.any (·.1.isNamed) then some named else none⟩

/-! ## Taking -/

/-- All arguments in the order in which they are met. -/
def all (args : Arguments) : List Argument :=
  args.placed.map .single ++ (args.named.map .named).toList

/-- The argument at a place, which must be there. -/
def required (args : Arguments) (i : Nat) : Except Problem Argument :=
  match args.all[i]? with
  | some a => .ok a
  | none => .error .missingArgument

/-- The argument at a place; none and undefined count as not given. -/
def optional (args : Arguments) (i : Nat) : Option Argument :=
  args.all[i]?.filter fun a => !a.datum.isAbsent

/-- A text at a place, if it is given. -/
def optionalText (args : Arguments) (strict : Bool) (i : Nat) : Except Problem (Option String) :=
  match args.optional i with
  | some a => some <$> a.text strict
  | none => .ok none

/-- An integer at a place, if it is given. -/
def optionalInteger (args : Arguments) (strict : Bool) (form : String) (i : Nat) :
    Except Problem (Option Int) :=
  match args.optional i with
  | some a => some <$> a.integer strict form
  | none => .ok none

/-- Refuses more arguments than these. -/
def atMost (args : Arguments) (most : Nat) : Except Problem Unit :=
  if most < args.all.length then .error .tooManyArguments else .ok ()

/-- Refuses more arguments without names than these. -/
def atMostPlaced (args : Arguments) (most : Nat) : Except Problem Unit :=
  if most < args.placed.length then .error .tooManyArguments else .ok ()

/-- A named argument; none and undefined count as not given. -/
def find? (args : Arguments) (name : String) : Option Datum :=
  (Datum.find? (.ofString name) (args.named.getD [])).filter fun d => !d.isAbsent

/-- A named argument that must be a boolean. -/
def flag (args : Arguments) (name : String) : Except Problem Bool :=
  match args.find? name with
  | none => .ok false
  | some (.boolean b) => .ok b
  | some d => d.inconvertible "bool"

/-- A named argument that must be a text. -/
def text? (args : Arguments) (name : String) : Except Problem (Option String) :=
  match args.find? name with
  | none => .ok none
  | some (.text _ s) => .ok (some s)
  | some _ => .error (.invalid (some "value is not a string"))

/-- Refuses named arguments with other names than these. -/
def onlyNamed (args : Arguments) (names : List String) : Except Problem Unit :=
  match (args.named.getD []).find? fun (key, _) => !(key.text?.any names.contains) with
  | some (.text _ name, _) => .error (.unknownArgument name)
  | some _ => .error (.invalid (some "non string keys passed to kwargs"))
  | none => .ok ()

end Arguments

end Stencil.Template
