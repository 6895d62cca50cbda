import Stencil.Bindings
import Stencil.Error
import Stencil.Placeholder
import Stencil.Text.Search
/-!
# Filling placeholders

A placeholder takes its text from a value: directly, through an entry of a map, or through an
operation of an object.  Null, or an accessor that gives null, refuses the path without being an
error: nothing is to be written for it.

`fillAll` replaces one placeholder after the other, each in the text that the ones before left.
-/

namespace Stencil

/-- How an accessor is resolved against a value. -/
inductive Access where
  | mapKey (key : String)
  | operation (name : String)
deriving DecidableEq

namespace Access

/-- A key of a map that holds it, or an operation of an object; other values have no access. -/
def of? : Value → String → Option Access
  | .map entries, accessor =>
    if (entries.lookup accessor).isSome then some (.mapKey accessor) else none
  | .object .., accessor => some (.operation accessor)
  | _, _ => none

def follow? : Access → Value → Option Value
  | .mapKey key, .map entries => entries.lookup key
  | .operation name, .object _ _ _ invoke => invoke name
  | _, _ => none

end Access

namespace Placeholder

/-- The placeholders of a path whose names are bound. -/
def bound (path : String) (bindings : Bindings) : List Placeholder :=
  (scan path).filter fun p => bindings.contains p.name

/-- The placeholders of a path whose names are not bound. -/
def unbound (path : String) (bindings : Bindings) : List Placeholder :=
  (scan path).filter fun p => !bindings.contains p.name

/-- The value behind the accessor, if there is one; `none` for null. -/
def resolve (p : Placeholder) (value : Value) : Except Error (Option Value) :=
  match p.accessor with
  | none => .ok (some value)
  | some accessor =>
    match (Access.of? value accessor).bind (·.follow? value) with
    | some .null => .ok none
    | some v => .ok (some v)
    | none => .error (.unknownAccessor p.name accessor)

/-- The text of a resolved value. -/
def format (p : Placeholder) (value : Value) : Except Error String :=
  if p.zeros = 0 then
    match value.pathText? with
    | some text => .ok text
    | none => .error (.format p.literal (.noPathText value.kind))
  else
    match value.asInteger? with
    | some n => .ok (String.ofList (Decimal.writePadded p.zeros n.toInt))
    | none => .error (.format p.literal (.needsInteger value.kind))

/-- The text that a value gives the placeholder; `none` for no value and for null. -/
def renderValue (p : Placeholder) : Option Value → Except Error (Option String)
  | none => .ok none
  | some .null => .ok none
  | some value =>
    match p.resolve value with
    | .error e => .error e
    | .ok none => .ok none
    | .ok (some v) =>
      match p.format v with
      | .error e => .error e
      | .ok text => .ok (some text)

/-- The path with every occurrence of the placeholder replaced. -/
def substitute (p : Placeholder) (path : String) (value : Option Value) :
    Except Error (Option String) :=
  match p.renderValue value with
  | .error e => .error e
  | .ok none => .ok none
  | .ok (some text) =>
    .ok (some (String.ofList (Text.replaceAll p.chars text.toList path.toList)))

/-- Each placeholder in turn is replaced by the text of its value; the first refusal or error ends
the filling. -/
def fillAll : List Placeholder → Bindings → String → Except Error (Option String)
  | [], _, path => .ok (some path)
  | p :: ps, bindings, path =>
    match p.substitute path (bindings.find? p.name) with
    | .error e => .error e
    | .ok none => .ok none
    | .ok (some path) => fillAll ps bindings path

end Placeholder

end Stencil
