import Stencil.Bindings
import Stencil.Template.Fault
/-!
# Data in templates

What expressions of a template evaluate to.  Bound values become data of the same shape, with ranges
as sequences and the entries of maps sorted by their keys.

Data is ordered: by kind first, and within a kind in the natural way.  Equality does not look at the
kind where numbers are concerned: `1`, `1.0` and `true` are equal.

Integers are kept in words of 64 bits or, where those do not hold them, of 128 bits.  What is written
in a template or counted is unsigned, what is bound or computed is signed.  The words show only at
their limits (`numberPair?`).
-/

namespace Stencil.Template

/-- A piece of data. -/
inductive Datum where
  /-- The value of an `if` without `else` is undefined on purpose, and so never a fault. -/
  | undefined (onPurpose : Bool)
  | null
  | boolean (b : Bool)
  | integer (isUnsigned : Bool) (n : Int)
  | float (x : Binary64)
  /-- A safe text is not escaped again. -/
  | text (isSafe : Bool) (s : String)
  /-- A lazy sequence was computed from others. -/
  | sequence (isLazy : Bool) (items : List Datum)
  | map (entries : List (Datum × Datum))
  /-- Something with attributes, of which it names some when it is gone over. -/
  | object (identity : Nat) (shown : String) (names : List String) (member? : String → Option Datum)
  /-- A function of the template language, by its name. -/
  | function (name : String)

namespace Datum

instance : Inhabited Datum := ⟨.null⟩

def ofString (s : String) : Datum := .text false s

def ofInt (n : Int) : Datum := .integer false n

/-- A number of things. -/
def ofCount (n : Nat) : Datum := .integer true n

def kind : Datum → Kind
  | .undefined _ => .undefined
  | .null => .null
  | .boolean _ => .boolean
  | .integer .. => .number
  | .float _ => .number
  | .text .. => .string
  | .sequence isLazy _ => if isLazy then .iterator else .sequence
  | .map _ => .map
  | .object .. => .map
  | .function _ => .plain

def isUndefined : Datum → Bool
  | .undefined _ => true
  | _ => false

/-- Whether the datum counts as true in a condition. -/
def isTrue : Datum → Bool
  | .undefined _ => false
  | .null => false
  | .boolean b => b
  | .integer _ n => n != 0
  | .float x => !x.isZero
  | .text _ s => s != ""
  | .sequence _ items => !items.isEmpty
  | .map entries => !entries.isEmpty
  | .object _ _ names _ => !names.isEmpty
  | .function _ => true

/-- The text, if the datum is one. -/
def text? : Datum → Option String
  | .text _ s => some s
  | _ => none

/-! ## Numbers -/

/-- The least number above the signed words of 64 bits, `2 ^ 63`. -/
def wordLimit : Int := 0x8000000000000000

/-- The least number above all signed integers of templates, `2 ^ 127`. -/
def integerLimit : Int := 0x80000000000000000000000000000000

def isInteger64 (n : Int) : Bool := -wordLimit ≤ n && n < wordLimit

def isInteger128 (n : Int) : Bool := -integerLimit ≤ n && n < integerLimit

/-- The largest integer that fits the word that holds this one. -/
def largestBeside (isUnsigned : Bool) (n : Int) : Int :=
  if isUnsigned then (if n < 2 * wordLimit then 2 * wordLimit - 1 else 2 * integerLimit - 1)
  else if isInteger64 n then wordLimit - 1 else integerLimit - 1

/-- The integer that a float stands for: one of 64 bits, where `2 ^ 63` stands for the largest. -/
def integerOfFloat? (x : Binary64) : Option Int :=
  x.toInt?.bind fun n =>
    if isInteger64 n then some n else if n = wordLimit then some (wordLimit - 1) else none

/-- The integer that the datum stands for. -/
def integer? : Datum → Option Int
  | .boolean b => some (if b then 1 else 0)
  | .integer _ n => if isInteger128 n then some n else none
  | .float x => integerOfFloat? x
  | _ => none

/-- The integer of 64 bits that the datum stands for. -/
def integer64? (d : Datum) : Option Int := d.integer?.filter isInteger64

/-- The number that the datum is nearest to. -/
def nearestFloat? : Datum → Option Binary64
  | .boolean b => some (Binary64.ofInt (if b then 1 else 0))
  | .integer _ n => some (Binary64.ofInt n)
  | .float x => some x
  | _ => none

/-- The number that the datum is equal to.  The largest integer of a word counts as equal to the power
of two above it. -/
def exactFloat? (d : Datum) : Option Binary64 :=
  match d with
  | .integer isUnsigned n =>
    d.nearestFloat?.filter fun x => x.toInt? == some n || n == largestBeside isUnsigned n
  | d => d.nearestFloat?

def isFloat : Datum → Bool
  | .float _ => true
  | _ => false

/-- Two numbers in one form. -/
inductive NumberPair where
  | integers (m n : Int)
  | floats (x y : Binary64)

/-- Whether the datum is held by an unsigned word of 128 bits. -/
def isLong : Datum → Bool
  | .integer true n => 2 * wordLimit ≤ n
  | _ => false

/-- The integer of an unsigned word of 128 bits, read as a signed one. -/
def signedValue : Datum → Int
  | .integer _ n => if n < integerLimit then n else n - 2 * integerLimit
  | _ => 0

/-- Two numbers or booleans brought to one form.  Beside a float an integer is taken as the float that
it is equal to or, where that is `rounded`, nearest to. -/
def numberPair? (rounded : Bool) (a b : Datum) : Option NumberPair :=
  if a.isFloat || b.isFloat then
    let float? (d : Datum) : Option Binary64 := if rounded then d.nearestFloat? else d.exactFloat?
    match float? a, float? b with
    | some x, some y => some (.floats x y)
    | _, _ => none
  else if a.isLong && b.isLong then some (.integers a.signedValue b.signedValue)
  else
    match a.integer?, b.integer? with
    | some m, some n => some (.integers m n)
    | _, _ => none

/-! ## Order -/

def compareIntegers (a b : Int) : Ordering := compare a b

/-- The order of floats: the two zeros are equal, a NaN stands at the end of its sign. -/
def compareFloats (x y : Binary64) : Ordering :=
  if x.isNaN || y.isNaN then compareIntegers x.totalKey y.totalKey else compareIntegers x.key y.key

/-- The order of an integer and a float by their values. -/
def compareWithFloat (n : Int) (x : Binary64) : Ordering :=
  if x.isFinite then compareIntegers (n * x.ratio.2) x.ratio.1
  else if x.isNegative then .gt
  else .lt

/-- Numbers and booleans of one kind, by their common form and, where they have none, by their
values. -/
def compareNumbers (a b : Datum) : Ordering :=
  match numberPair? false a b, a, b with
  | some (.integers m n), _, _ => compareIntegers m n
  | some (.floats x y), _, _ => compareFloats x y
  | none, .integer _ m, .integer _ n => compareIntegers m n
  | none, .integer _ n, .float x => compareWithFloat n x
  | none, .float x, .integer _ n => (compareWithFloat n x).swap
  | none, _, _ => .eq

/-- The number of entries of a map or an object. -/
def entryCount : Datum → Nat
  | .map entries => entries.length
  | .object _ _ names _ => names.length
  | _ => 0

mutual

/-- The order of data. -/
def order (a b : Datum) : Ordering :=
  (compareIntegers a.kind.rank b.kind.rank).then <|
    match a, b with
    | .text _ s, .text _ t => compare s t
    | .sequence _ items, .sequence _ others => orderItems items others
    | .map entries, .map others => orderEntries entries others
    | .function f, .function g => compare f g
    | a, b => (compareIntegers a.entryCount b.entryCount).then (compareNumbers a b)

/-- The order of sequences, item by item. -/
def orderItems : List Datum → List Datum → Ordering
  | [], [] => .eq
  | [], _ :: _ => .lt
  | _ :: _, [] => .gt
  | a :: as, b :: bs => (order a b).then (orderItems as bs)

/-- The order of maps, entry by entry. -/
def orderEntries : List (Datum × Datum) → List (Datum × Datum) → Ordering
  | [], [] => .eq
  | [], _ :: _ => .lt
  | _ :: _, [] => .gt
  | (k, v) :: es, (l, w) :: fs => ((order k l).then (order v w)).then (orderEntries es fs)

end

/-! ## Maps -/

/-- The value under a key. -/
def find? (key : Datum) : List (Datum × Datum) → Option Datum
  | [] => none
  | (k, v) :: entries => if order key k == .eq then some v else find? key entries

/-- The entries with a value put under a key, at the key's place in the order. -/
def put (key value : Datum) : List (Datum × Datum) → List (Datum × Datum)
  | [] => [(key, value)]
  | (k, v) :: entries =>
    match order key k with
    | .lt => (key, value) :: (k, v) :: entries
    | .eq => (k, value) :: entries
    | .gt => (k, v) :: put key value entries

/-- Entries in the order of their keys; of those with one key the last counts. -/
def sortEntries (entries : List (Datum × Datum)) : List (Datum × Datum) :=
  entries.foldl (fun sorted (k, v) => put k v sorted) []

/-- A map of entries in any order. -/
def ofEntries (entries : List (Datum × Datum)) : Datum := .map (sortEntries entries)

/-! ## Equality -/

/-- Equality of data that is neither sequence nor map. -/
def eqScalar (a b : Datum) : Bool :=
  match a, b with
  | .undefined _, .undefined _ => true
  | .null, .null => true
  | .text _ s, .text _ t => s == t
  | .object i _ names _, .object j _ others _ => i == j || (names.isEmpty && others.isEmpty)
  | .object _ _ names _, .map entries => names.isEmpty && entries.isEmpty
  | .map entries, .object _ _ names _ => names.isEmpty && entries.isEmpty
  | .function f, .function g => f == g
  | a, b =>
    match numberPair? false a b with
    | some (.integers m n) => m == n
    | some (.floats x y) => x.eq y
    | none => false

mutual

/-- Equality of data. -/
def eq (a b : Datum) : Bool :=
  match a, b with
  | .sequence _ items, .sequence _ others => eqItems items others
  | .map entries, .map others => entries.length == others.length && eqEntries entries others
  | a, b => eqScalar a b

/-- Equality item by item. -/
def eqItems : List Datum → List Datum → Bool
  | [], [] => true
  | a :: as, b :: bs => eq a b && eqItems as bs
  | _, _ => false

/-- Each entry on the left is found on the right. -/
def eqEntries : List (Datum × Datum) → List (Datum × Datum) → Bool
  | [], _ => true
  | (k, v) :: entries, others =>
    (match find? k others with
      | some w => eq v w
      | none => false) && eqEntries entries others

end

/-! ## Bound values -/

/-- Consecutive integers. -/
def integersFrom (first : Int) (count : Nat) : List Datum :=
  (List.range count).map fun (i : Nat) => ofInt (first + i)

mutual

/-- A bound value as data. -/
def ofValue : Value → Datum
  | .null => .null
  | .bool b => .boolean b
  | .int n => ofInt n.toInt
  | .float x => .float x
  | .str s => ofString s
  | .map entries => ofEntries (ofValueEntries entries)
  | .seq items => .sequence false (ofValues items)
  | .range first last => .sequence false (integersFrom first.toInt (last.toInt - first.toInt + 1).toNat)
  | .object identity pathText description invoke =>
    .object identity (pathText.getD description) [] fun name => ofMaybeValue (invoke name)

def ofMaybeValue : Option Value → Option Datum
  | none => none
  | some v => some (ofValue v)

def ofValues : List Value → List Datum
  | [] => []
  | v :: vs => ofValue v :: ofValues vs

def ofValueEntries : List (String × Value) → List (Datum × Datum)
  | [] => []
  | (name, v) :: entries => (ofString name, ofValue v) :: ofValueEntries entries

end

end Datum

end Stencil.Template
