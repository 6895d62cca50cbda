import Stencil.Template.Filter
/-!
# Tests

A test says whether a datum has a property, given arguments.  `Test.named?` finds it by its name.
-/

namespace Stencil.Template

/-- A test; the first argument tells whether undefined data is refused. -/
abbrev Test := Bool → Datum → Arguments → Except Problem Bool

namespace Test

/-- A property of the datum alone. -/
def property (p : Datum → Bool) : Test := fun _ d args => do
  args.atMost 0
  return p d

/-- A relation of the datum to one argument. -/
def relation (r : Datum → Datum → Bool) : Test := fun _ d args => do
  let other ← args.required 0
  args.atMost 1
  return r d other.datum

/-- A relation of the text of the datum to the text of one argument. -/
def textRelation (r : List Char → List Char → Bool) : Test := fun strict d args => do
  let s ← d.asText strict
  let t ← (← args.required 0).text strict
  args.atMost 1
  return r s.toList t.toList

def isInteger : Datum → Bool
  | .integer .. => true
  | _ => false

/-- Whether the datum equals an integer with this remainder modulo 2. -/
def hasParity (parity : Int) (d : Datum) : Bool := d.integer?.any fun n => n % 2 == parity

/-- Whether the datum is a multiple of another. -/
def isMultiple (a b : Datum) : Bool :=
  match Datum.numberPair? false a b with
  | some (.integers m n) => n != 0 && m % n == 0
  | some (.floats x y) => (x.rem y).eq Binary64.zero
  | none => false

/-- Whether the datum is held by another; what holds nothing does not hold it. -/
def isMember : Test := fun strict d args => do
  let whole := (← args.required 0).datum
  args.atMost 1
  match whole with
  | .undefined false => if strict then .error .undefinedValue else return false
  | whole => return (whole.contains d).toOption == some true

/-- All tests by name. -/
def table : List (String × Test) :=
  [("boolean", property fun d => d.kind = .boolean), ("defined", property fun d => !d.isUndefined),
    ("divisibleby", relation isMultiple), ("endingwith", textRelation fun s t => t.isSuffixOf s),
    ("eq", relation Datum.eq), ("equalto", relation Datum.eq), ("even", property (hasParity 0)),
    ("false", property fun d => d.kind = .boolean && !d.isTrue), ("float", property Datum.isFloat),
    ("ge", relation fun a b => a.order b != .lt), ("greaterthan", relation fun a b => a.order b == .gt),
    ("gt", relation fun a b => a.order b == .gt), ("in", isMember), ("integer", property isInteger),
    ("iterable", property fun d => d.iterate?.isSome), ("le", relation fun a b => a.order b != .gt),
    ("lessthan", relation fun a b => a.order b == .lt), ("lt", relation fun a b => a.order b == .lt),
    ("mapping", property fun d => d.kind = .map), ("ne", relation fun a b => !a.eq b),
    ("none", property fun d => d.kind = .null), ("number", property fun d => d.kind = .number),
    ("odd", property (hasParity 1)), ("sequence", property fun d => d.kind = .sequence),
    ("startingwith", textRelation fun s t => t.isPrefixOf s),
    ("string", property fun d => d.kind = .string),
    ("true", property fun d => d.kind = .boolean && d.isTrue), ("undefined", property Datum.isUndefined)]

def named? (name : String) : Option Test := table.lookup name

end Test

end Stencil.Template
