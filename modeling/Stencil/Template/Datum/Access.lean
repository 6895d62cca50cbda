import Stencil.Template.Datum.Arithmetic
/-!
# Parts of data

Attributes, items and slices, the sequence of values that a loop goes over, and the length.  What a
datum does not have is undefined; only an undefined datum has no parts to ask for.
-/

namespace Stencil.Template.Datum

/-! ## Attributes and items -/

/-- The undefined datum that stands for something missing. -/
def missing : Datum := .undefined false

def member? (d : Datum) (name : String) : Option Datum :=
  match d with
  | .map entries => find? (ofString name) entries
  | .object _ _ _ member? => member? name
  | _ => none

/-- The names and values of a map or an object. -/
def entries? (d : Datum) : Option (List (Datum × Datum)) :=
  match d with
  | .map entries => some entries
  | .object _ _ names member? =>
    some (names.map fun name => (ofString name, (member? name).getD missing))
  | _ => none

/-- The place in a list that an index means; a negative one counts from the end. -/
def placeOf? (index : Datum) (length : Nat) : Option Nat :=
  match index.integer? with
  | none => none
  | some n => if 0 ≤ n then some n.toNat else if -(length : Int) ≤ n then some (length + n).toNat else none

def item? (d index : Datum) : Option Datum :=
  match d with
  | .map entries => find? index entries
  | .object _ _ _ member? => index.text?.bind member?
  | .sequence _ items => (placeOf? index items.length).bind fun i => items[i]?
  | .text _ s =>
    let cs := s.toList
    ((placeOf? index cs.length).bind fun i => cs[i]?).map fun c => ofString c.toString
  | _ => none

/-- A part that may be missing, of a datum that must not. -/
def partOf (d : Datum) (part : Option Datum) : Result :=
  match part with
  | some v => .ok v
  | none => if d.isUndefined then .error .undefinedValue else .ok missing

/-! ## Slices -/

/-- A bound of a slice; none is no bound. -/
def bound? (d : Datum) : Except Problem (Option Int) :=
  match d, d.integer64? with
  | .null, _ => .ok none
  | _, some n => .ok (some n)
  | d, none => .error (.invalid (some ("cannot convert " ++ d.kind.name ++ " to i64")))

/-- A bound counted from the start; a negative one counts from the end, and stands for the start where
it is before it. -/
def fromStart (length : Nat) (bound : Int) : Nat :=
  if 0 ≤ bound then bound.toNat else (length + bound).toNat

/-- Every `step`-th of the elements, beginning with the first. -/
def everyFrom {α : Type} (step : Nat) : Nat → List α → List α
  | _, [] => []
  | 0, a :: as => a :: everyFrom step (step - 1) as
  | skip + 1, _ :: as => everyFrom step skip as

/-- The elements from `start` up to before `stop`, every `step`-th of them. -/
def slicedForward {α : Type} (start stop : Option Int) (step : Nat) (as : List α) : List α :=
  let first := fromStart as.length (start.getD 0)
  let last := fromStart as.length (stop.getD as.length)
  everyFrom step 0 ((as.take last).drop first)

/-- The elements from `start` back to after `stop`, every `step`-th of them.  The first element belongs
to them where `stop` stands for the start. -/
def slicedBackward {α : Type} (start stop : Option Int) (step : Nat) (as : List α) : List α :=
  let last := as.length - 1
  let first := min last (fromStart as.length (start.getD last))
  let stop := fromStart as.length (stop.getD 0)
  everyFrom step 0 ((as.take (first + 1)).drop (if stop = 0 then 0 else stop + 1)).reverse

/-- The elements between two bounds, forward or backward. -/
def sliced {α : Type} (start stop : Option Int) (step : Int) (as : List α) : List α :=
  if 0 < step then slicedForward start stop step.toNat as
  else slicedBackward start stop step.natAbs as

def slice (d start stop step : Datum) : Result :=
  match bound? start, bound? stop, bound? step with
  | .error problem, _, _ => .error problem
  | _, .error problem, _ => .error problem
  | _, _, .error problem => .error problem
  | .ok start, .ok stop, .ok step =>
    let step := step.getD 1
    if step = 0 then .error (.invalid (some "cannot slice by step size of 0"))
    else
      match d with
      | .undefined _ | .null => .ok (.sequence false [])
      | .text _ s => .ok (ofString (String.ofList (sliced start stop step s.toList)))
      | .sequence _ items => .ok (.sequence true (sliced start stop step items))
      | d => .error (.invalid (some ("value of type " ++ d.kind.name ++ " cannot be sliced")))

/-! ## Iteration -/

/-- The values that a loop goes over: items, the keys of a map, the names that an object gives, the
characters of a text. -/
def iterate? : Datum → Option (List Datum)
  | .undefined _ => some []
  | .null => some []
  | .text _ s => some (s.toList.map fun c => ofString c.toString)
  | .sequence _ items => some items
  | .map entries => some (entries.map Prod.fst)
  | .object _ _ names _ => some (names.map ofString)
  | _ => none

def iterate (d : Datum) : Except Problem (List Datum) :=
  match d.iterate? with
  | some items => .ok items
  | none => .error (.notIterable d.kind)

/-- How many values there are. -/
def length? : Datum → Option Nat
  | .text _ s => some s.length
  | .sequence _ items => some items.length
  | .map entries => some entries.length
  | .object _ _ names _ => some names.length
  | _ => none

/-- The values that an assignment to several targets takes apart. -/
def unpack (count : Nat) (d : Datum) : Except Problem (List Datum) :=
  match d, d.iterate? with
  | .text .., _ | .undefined _, _ | .null, _ | _, none => .error .notUnpackable
  | _, some values =>
    if values.length = count then .ok values else .error (.wrongLength count values.length)

end Stencil.Template.Datum
