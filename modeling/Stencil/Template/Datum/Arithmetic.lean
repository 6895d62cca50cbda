import Stencil.Template.Datum.Text
import Stencil.Template.Expression
import Stencil.Text.Search
/-!
# Arithmetic on data

Integers stay integers as long as they can: only `/` always gives a float, and a float among the
operands makes the result one.  Booleans count as 0 and 1.  Division that keeps integers is
Euclidean.  Texts are joined by `+` and repeated by `*`.
-/

namespace Stencil.Template

/-- The sign of an operator in messages. -/
def Operator.text : Operator → String
  | .add => "+"
  | .sub => "-"
  | .mul => "*"
  | .div => "/"
  | .floorDiv => "//"
  | .rem => "%"
  | .pow => "**"
  | .concat => "~"

namespace Datum

/-- What a computation gives, or why it gives nothing. -/
abbrev Result := Except Problem Datum

def unsupported (op : Operator) (a b : Datum) : Result :=
  .error (.unsupportedOperands op.text a.kind b.kind)

def incalculable (op : Operator) (a b : Datum) : Result :=
  .error (.incalculable op.text a.shown b.shown)

/-- An integer result, if it is within the limits. -/
def integerResult (op : Operator) (a b : Datum) (n : Option Int) : Result :=
  match n.filter isInteger128 with
  | some n => .ok (ofInt n)
  | none => incalculable op a b

/-- The power of an integer, if the exponent is no larger than 32 bits. -/
def power? (base exponent : Int) : Option Int :=
  if exponent < 0 || 0x100000000 ≤ exponent then none
  else if base = 0 || base = 1 then some (if exponent = 0 then 1 else base)
  else if base = -1 then some (if exponent % 2 = 0 then 1 else -1)
  else if 127 < exponent then none
  else some (Int.pow base exponent.toNat)

/-- The power of a float. -/
def floatPower (x y : Binary64) : Binary64 :=
  ⟨(Float.pow (Float.ofBits x.bits) (Float.ofBits y.bits)).toBits⟩

/-- The operation on integers, which some pairs have no result for. -/
def integerOperation (op : Operator) (a b : Int) : Option Int :=
  match op with
  | .add => some (a + b)
  | .sub => some (a - b)
  | .mul => some (a * b)
  | .floorDiv => if b = 0 then none else some (a / b)
  | .rem => if b = 0 then none else some (a % b)
  | .pow => power? a b
  | _ => none

/-- The operation on floats. -/
def floatOperation (op : Operator) (x y : Binary64) : Binary64 :=
  match op with
  | .add => x.add y
  | .sub => x.sub y
  | .mul => x.mul y
  | .floorDiv => x.divEuclid y
  | .rem => x.rem y
  | .pow => floatPower x y
  | _ => x.div y

/-- An operation on numbers. -/
def arithmetic (op : Operator) (a b : Datum) : Result :=
  match numberPair? true a b with
  | some (.integers m n) => integerResult op a b (integerOperation op m n)
  | some (.floats x y) => .ok (.float (floatOperation op x y))
  | none => unsupported op a b

def isSequence : Datum → Bool
  | .sequence .. => true
  | _ => false

/-- The items of a sequence. -/
def items : Datum → List Datum
  | .sequence _ items => items
  | _ => []

def add (a b : Datum) : Result :=
  if a.isSequence && b.isSequence then .ok (.sequence true (a.items ++ b.items))
  else
    match a.text?, b.text? with
    | some s, some t => .ok (ofString (s ++ t))
    | _, _ => arithmetic .add a b

/-- The division of floats. -/
def divide (a b : Datum) : Result :=
  match a.nearestFloat?, b.nearestFloat? with
  | some x, some y => .ok (.float (x.div y))
  | _, _ => unsupported .div a b

/-- How often something is to be repeated. -/
def count? (d : Datum) : Option Nat := (d.integer?.filter (0 ≤ ·)).map Int.toNat

/-- A text or a sequence several times over. -/
def repeated (d times : Datum) : Result :=
  match d, times.count? with
  | .text _ s, some n => .ok (ofString (String.join (List.replicate n s)))
  | .text .., none => .error (.invalid (some "strings can only be multiplied with integers"))
  | d, some n => .ok (.sequence true (List.replicate n d.items).flatten)
  | _, none =>
    .error (.invalid (some "sequences and iterables can only be multiplied with integers"))

/-- Whether the datum is made of others, or has attributes. -/
def isCompound : Datum → Bool
  | .sequence .. | .map _ | .object .. | .function _ => true
  | _ => false

/-- A product; of two data of which one is a text or compound, that one is repeated, and of two such
data the first. -/
def multiply (a b : Datum) : Result :=
  let (whole, times) :=
    if a.text?.isSome then (a, b) else if b.text?.isSome then (b, a)
    else if a.isCompound then (a, b) else (b, a)
  if whole.text?.isSome || whole.isSequence then repeated whole times else arithmetic .mul a b

/-- The number with the other sign.  What is above all signed integers has none, and the least number
there stays itself. -/
def negate (d : Datum) : Result :=
  match d with
  | .integer _ n =>
    if integerLimit = n then .ok d
    else if integerLimit < n then .error (.invalid none)
    else if isInteger128 (-n) then .ok (ofInt (-n))
    else .error (.invalid (some "overflow"))
  | .float x => .ok (.float x.neg)
  | _ => .error (.invalid none)

/-- Whether the first datum holds the second. -/
def contains (whole part : Datum) : Except Problem Bool :=
  match whole with
  | .undefined _ => .ok false
  | .text _ s => .ok (Text.occursIn part.shown.toList s.toList)
  | .sequence _ items => .ok (items.any fun item => item.eq part)
  | .map entries => .ok (find? part entries).isSome
  | .object _ _ _ member? => .ok ((part.text?.bind member?).isSome)
  | .function _ => .ok false
  | _ => .error (.invalid (some "cannot perform a containment check on this value"))

/-- An operation. -/
def operate (op : Operator) (a b : Datum) : Result :=
  match op with
  | .add => add a b
  | .mul => multiply a b
  | .div => divide a b
  | .sub | .floorDiv | .rem | .pow => arithmetic op a b
  | .concat => .ok (ofString (a.shown ++ b.shown))

/-- Whether a comparison holds. -/
def compares (c : Comparison) (a b : Datum) : Except Problem Bool :=
  match c with
  | .eq => .ok (eq a b)
  | .ne => .ok !(eq a b)
  | .lt => .ok (order a b == .lt)
  | .le => .ok (order a b != .gt)
  | .gt => .ok (order a b == .gt)
  | .ge => .ok (order a b != .lt)
  | .mem => contains b a
  | .notMem => (contains b a).map not

end Datum

end Stencil.Template
