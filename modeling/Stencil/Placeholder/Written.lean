import Stencil.Placeholder.Fill
/-!
# Placeholders with their text

A placeholder that holds its text beside its name, its width and its accessor.  Each step of building
writes the text anew from the other fields; scanning takes the text out of the path and the other fields out
of the groups of the pattern `%(0+)?NAME(.NAME)?%`.  Filling replaces the text that is held, whatever the
other fields are by then: these can be assigned, and do not write the text anew.
-/

namespace Stencil.Placeholder

/-- A placeholder and its text.  Neither building nor scanning gives a width of 0. -/
structure Written where
  name : String
  width : Option Nat
  accessor : Option String
  literal : String
deriving DecidableEq

namespace Written

/-! ## Building -/

/-- The text for the other fields. -/
def compose (w : Written) : String :=
  let zeros := String.ofList (List.replicate (w.width.getD 0) '0')
  let accessor := (w.accessor.map fun a => "." ++ a).getD ""
  delimiter.toString ++ zeros ++ w.name ++ accessor ++ delimiter.toString

/-- The placeholder with its text written anew. -/
def recomposed (w : Written) : Written := { w with literal := w.compose }

def ofName (name : String) : Written := recomposed ⟨name, none, none, ""⟩

def withAccessor (w : Written) (accessor : String) : Written :=
  recomposed { w with accessor := some accessor }

/-- Width 0 takes the padding away. -/
def withWidth (w : Written) (width : Nat) : Written :=
  recomposed { w with width := (some width).filter (0 < ·) }

/-- A step of building. -/
inductive Step where
  | accessor (a : String)
  | width (n : Nat)
deriving DecidableEq

def step (w : Written) : Step → Written
  | .accessor a => w.withAccessor a
  | .width n => w.withWidth n

/-- The placeholder of a name after some steps. -/
def build (name : String) (steps : List Step) : Written := steps.foldl step (ofName name)

/-- The steps that give an accessor and a width. -/
def stepsFor (accessor : Option String) (width : Option Nat) : List Step :=
  accessor.toList.map .accessor ++ width.toList.map .width

/-- A placeholder built from the name, the accessor and the width of another one. -/
def rebuild (w : Written) : Written := build w.name (stepsFor w.accessor w.width)

/-! ## Scanning -/

/-- The zeros at the start of a text, if there are any, and what follows them. -/
def readWidth (cs : List Char) : Option Nat × List Char :=
  match (cs.takeWhile (· == '0')).length with
  | 0 => (none, cs)
  | n + 1 => (some (n + 1), cs.drop (n + 1))

/-- The point and the name at the start of a text, if they are there, and what follows them. -/
def readAccessor (cs : List Char) : Option String × List Char :=
  match cs with
  | '.' :: inside =>
    match readName? inside with
    | some (accessor, rest) => (some accessor, rest)
    | none => (none, cs)
  | _ => (none, cs)

/-- The placeholder that starts at the first character, and the text behind it. -/
def at? (cs : List Char) : Option (Written × List Char) :=
  match cs with
  | '%' :: inside =>
    let (width, named) := readWidth inside
    match readName? named with
    | none => none
    | some (name, rest) =>
      match readAccessor rest with
      | (accessor, '%' :: rest) =>
        some (⟨name, width, accessor, String.ofList (cs.take (cs.length - rest.length))⟩, rest)
      | _ => none
  | _ => none

/-- The placeholders of a text, of which the first `skip` characters belong to the placeholder before. -/
def scanFrom : Nat → List Char → List Written
  | _, [] => []
  | skip + 1, _ :: cs => scanFrom skip cs
  | 0, c :: cs =>
    match at? (c :: cs) with
    | some (w, rest) => w :: scanFrom (cs.length - rest.length) cs
    | none => scanFrom 0 cs

/-- Every placeholder of a path, from left to right. -/
def scan (path : String) : List Written := scanFrom 0 path.toList

/-! ## Filling -/

/-- The value behind the accessor, if there is one; `none` for null. -/
def resolve (w : Written) (value : Value) : Except Error (Option Value) :=
  match w.accessor with
  | none => .ok (some value)
  | some accessor =>
    match (Access.of? value accessor).bind (·.follow? value) with
    | some .null => .ok none
    | some v => .ok (some v)
    | none => .error (.unknownAccessor w.name accessor)

/-- The text of a resolved value. -/
def format (w : Written) (value : Value) : Except Error String :=
  match w.width with
  | some width =>
    match value.asInteger? with
    | some n => .ok (String.ofList (Decimal.writePadded width n.toInt))
    | none => .error (.format w.literal (.needsInteger value.kind))
  | none =>
    match value.pathText? with
    | some text => .ok text
    | none => .error (.format w.literal (.noPathText value.kind))

/-- The text that a value gives the placeholder; `none` for no value and for null. -/
def renderValue (w : Written) : Option Value → Except Error (Option String)
  | none => .ok none
  | some .null => .ok none
  | some value =>
    match w.resolve value with
    | .error e => .error e
    | .ok none => .ok none
    | .ok (some v) =>
      match w.format v with
      | .error e => .error e
      | .ok text => .ok (some text)

/-- The path with every occurrence of the text that is held replaced. -/
def substitute (w : Written) (path : String) (value : Option Value) : Except Error (Option String) :=
  match w.renderValue value with
  | .error e => .error e
  | .ok none => .ok none
  | .ok (some text) =>
    .ok (some (String.ofList (Text.replaceAll w.literal.toList text.toList path.toList)))

/-- Each placeholder in turn is replaced by the text of its value; the first refusal or error ends
the filling. -/
def fillAll : List Written → Bindings → String → Except Error (Option String)
  | [], _, path => .ok (some path)
  | w :: ws, bindings, path =>
    match w.substitute path (bindings.find? w.name) with
    | .error e => .error e
    | .ok none => .ok none
    | .ok (some path) => fillAll ws bindings path

end Written

end Stencil.Placeholder
