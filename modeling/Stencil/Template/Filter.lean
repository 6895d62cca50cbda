import Stencil.Template.Arguments
import Stencil.Text.Blank
import Stencil.Text.LetterCase
/-!
# Filters

A filter takes a datum and arguments and gives a datum.  `Filter.named?` finds it by its name.

Where undefined data is strictly refused, a filter that needs a text, a number or a boolean refuses it
as well; filters that look at the datum itself do not.
-/

namespace Stencil.Template

/-- A filter; the first argument tells whether undefined data is refused. -/
abbrev Filter := Bool → Datum → Arguments → Datum.Result

namespace Filter

open Datum (Result ofString)

/-! ## Building blocks -/

/-- A filter on texts without arguments. -/
def onText (f : String → String) : Filter := fun strict d args => do
  let text ← d.asText strict
  args.atMost 0
  return ofString (f text)

/-- A filter on data without arguments. -/
def onDatum (f : Datum → Result) : Filter := fun _ d args => do
  args.atMost 0
  f d

/-- A filter without arguments that converts a datum, which may be undefined only where that is not
refused. -/
def conversion (f : Datum → Result) : Filter := fun strict d args => do
  args.atMost 0
  if strict && d.isUndefined then .error .undefinedValue else f d

/-- The values of a datum. -/
def valuesOf (strict : Bool) (d : Datum) : Except Problem (List Datum) :=
  if strict && d.isUndefined then .error .undefinedValue else d.iterate

/-- The values of a datum, or this message where there are none. -/
def valuesOr (strict : Bool) (message : String) (d : Datum) : Except Problem (List Datum) :=
  match valuesOf strict d with
  | .ok values => .ok values
  | .error _ => .error (.invalid (some message))

def notAList : String := "cannot convert value to list"

/-! ## Texts -/

/-- The text between all the given characters at its ends. -/
def trimChars (chars cs : List Char) : List Char :=
  ((cs.dropWhile chars.contains).reverse.dropWhile chars.contains).reverse

def trim : Filter := fun strict d args => do
  let text ← d.asText strict
  let chars ← args.optionalText strict 0
  args.atMost 1
  match chars with
  | none => return ofString (Text.strip text)
  | some chars => return ofString (String.ofList (trimChars chars.toList text.toList))

def replace : Filter := fun strict d args => do
  let text ← d.asText strict
  let mark ← (← args.required 0).text strict
  let fresh ← (← args.required 1).text strict
  args.atMost 2
  return ofString (String.ofList (Text.replaceAll mark.toList fresh.toList text.toList))

/-- The pieces of a text between the occurrences of a mark, at most `most` splits. -/
def splitAt (mark : List Char) : Nat → List Char → List (List Char)
  | 0, cs => [cs]
  | most + 1, cs =>
    match Text.splitAtFirst mark cs with
    | some (before, after) => before :: splitAt mark most after
    | none => [cs]

/-- The words of a text. -/
def wordsOf (cs : List Char) : List (List Char) :=
  (cs.splitBy fun a b => Text.isBlank a == Text.isBlank b).filter fun w => !w.any Text.isBlank

def split : Filter := fun strict d args => do
  let cs := (← d.asText strict).toList
  let mark ← args.optionalText strict 0
  let most ← args.optionalInteger strict "i64" 1
  args.atMost 2
  let pieces := match mark with
    | none => wordsOf cs
    | some mark => splitAt mark.toList ((most.map Int.toNat).getD cs.length) cs
  return .sequence false (pieces.map fun piece => ofString (String.ofList piece))

/-- The lines of a text without their breaks. -/
def linesOf (s : String) : List String :=
  let lines := (Text.splitOnChar '\n' s.toList).map fun line =>
    String.ofList (if line.getLast? = some '\r' then line.dropLast else line)
  if lines.getLast? = some "" then lines.dropLast else lines

def lines : Filter := fun strict d args => do
  let text ← d.asText strict
  args.atMost 0
  return .sequence false ((linesOf text).map ofString)

/-- A byte that stands for itself in a URL. -/
def isUrlByte (b : UInt8) : Bool :=
  let c := Char.ofNat b.toNat
  b < 0x80 && (c.isAlphanum || c == '/' || c == '.' || c == '-' || c == '_')

def hexDigits : List Char := "0123456789ABCDEF".toList

def urlByte (b : UInt8) : List Char :=
  if isUrlByte b then [Char.ofNat b.toNat]
  else ['%', hexDigits.getD (b.toNat / 16) '0', hexDigits.getD (b.toNat % 16) '0']

def urlText (s : String) : String := String.ofList (s.toUTF8.toList.flatMap urlByte)

/-- Pairs joined as in the query of a URL; what is none or undefined is left out. -/
def urlQuery (entries : List (Datum × Datum)) : String :=
  let given := entries.filter fun (_, v) => !v.isAbsent
  String.intercalate "&" (given.map fun (k, v) => urlText k.shown ++ "=" ++ urlText v.shown)

def urlEncode (d : Datum) : Result :=
  if d.isAbsent then .ok (ofString "")
  else
    match d.entries? with
    | some entries => .ok (ofString (urlQuery entries))
    | none => .ok (ofString (urlText d.shown))

/-! ## Escaping -/

def escape (d : Datum) : Result :=
  match d with
  | .text true s => .ok (.text true s)
  | d => .ok (.text true d.shownAsHtml)

/-- The indentation that an argument asks for. -/
def indentOf (d : Datum) : Except Problem (Option Nat) :=
  match d, d.count? with
  | .boolean b, _ => .ok (if b then some 2 else none)
  | _, some n => .ok (some n)
  | d, none => d.inconvertible "usize"

def toJson : Filter := fun _ d args => do
  args.atMostPlaced 1
  let placed := args.placed.head?.filter fun d => !d.isAbsent
  args.onlyNamed (if placed.isSome then [] else ["indent"])
  let given := placed.or (args.find? "indent")
  let indent ← match given with
    | some d => indentOf d
    | none => pure none
  match d.jsonText? indent with
  | some s => return .text true s
  | none => .error .notSerializable

/-! ## Numbers -/

/-- The nearest number within the limits of integers. -/
def clampInteger (n : Int) : Int :=
  max (-Datum.integerLimit) (min (Datum.integerLimit - 1) n)

/-- The integral part of a float, within the limits of integers. -/
def integralPart (x : Binary64) : Int :=
  if x.isNaN then 0
  else if x.isInfinite then
    if x.isNegative then -Datum.integerLimit else Datum.integerLimit - 1
  else clampInteger x.truncate

def badFloat (s : String) : Problem :=
  .invalid (some (if s = "" then "cannot parse float from empty string" else "invalid float literal"))

def toInteger (d : Datum) : Result :=
  match d with
  | .undefined _ | .null => .ok (.ofInt 0)
  | .boolean b => .ok (.ofInt (if b then 1 else 0))
  | .integer .. => .ok d
  | .float x => .ok (.ofInt (integralPart x))
  | .text _ s =>
    match (Decimal.readInt? s.toList).filter Datum.isInteger128, Decimal.readBinary64? s.toList with
    | some n, _ => .ok (.ofInt n)
    | none, some x => .ok (.ofInt (integralPart x))
    | none, none => .error (badFloat s)
  | d => d.inconvertible "integer"

def toFloat (d : Datum) : Result :=
  match d with
  | .undefined _ | .null => .ok (.float Binary64.zero)
  | .text _ s =>
    match Decimal.readBinary64? s.toList with
    | some x => .ok (.float x)
    | none => .error (badFloat s)
  | d =>
    match d.nearestFloat? with
    | some x => .ok (.float x)
    | none => d.inconvertible "float"

def toText (d : Datum) : Result := .ok (if d.kind = .string then d else ofString d.shown)

def abs : Datum → Result
  | .integer isUnsigned n => .ok (.integer isUnsigned n.natAbs)
  | .float x => .ok (.float x.abs)
  | _ => .error (.invalid (some "cannot get absolute value"))

def round : Filter := fun strict d args => do
  let places := (← args.optionalInteger strict "i32" 0).getD 0
  args.atMost 1
  match d with
  | .integer .. => return d
  | .float x =>
    let unit := Binary64.ofRatio false (Nat.pow 10 places.toNat) (Nat.pow 10 (-places).toNat)
    return .float ((unit.mul x).roundHalfAway.div unit)
  | d => .error (.invalid (some ("cannot round value (" ++ d.kind.name ++ ")")))

/-! ## Sequences -/

def length (d : Datum) : Result :=
  match d.length? with
  | some n => .ok (.ofCount n)
  | none => .error (.noLength d.kind)

def first (d : Datum) : Result :=
  match d, d.iterate? with
  | .undefined _, _ | .null, _ | _, none => .error (.invalid (some "cannot get first item from value"))
  | _, some values => .ok (values.head?.getD .missing)

def last (d : Datum) : Result :=
  match d with
  | .text _ s => .ok ((s.toList.getLast?.map fun c => ofString c.toString).getD .missing)
  | .sequence _ items => .ok (items.getLast?.getD .missing)
  | _ => .error (.invalid (some "cannot get last item from value"))

def reverse (d : Datum) : Result :=
  match d, d.iterate? with
  | .undefined _, _ | .null, _ => .ok d
  | .text _ s, _ => .ok (ofString (String.ofList s.toList.reverse))
  | _, some values => .ok (.sequence true values.reverse)
  | _, none => .error (.invalid (some ("cannot reverse values of type " ++ d.kind.name)))

def join : Filter := fun strict d args => do
  let separator := (← args.optionalText strict 0).getD ""
  args.atMost 1
  match d, d.iterate? with
  | .undefined _, _ | .null, _ => return ofString ""
  | _, some values => return ofString (String.intercalate separator (values.map Datum.shown))
  | _, none => .error (.invalid (some ("cannot join value of type " ++ d.kind.name)))

/-- The entries of a map as pairs. -/
def items (d : Datum) : Result :=
  match d.entries? with
  | some entries => .ok (.sequence true (entries.map fun (k, v) => .sequence false [k, v]))
  | none => .error (.invalid (some "cannot convert value into pairs"))

def list : Filter := fun strict d args => do
  args.atMost 0
  return .sequence false (← valuesOr strict notAList d)

/-- The order for sorting; without regard to case in ASCII, if so asked. -/
def sortOrder (caseSensitive : Bool) (a b : Datum) : Ordering :=
  match a, b with
  | .text _ s, .text _ t =>
    if caseSensitive then compare s t
    else compare (String.ofList (s.toList.map Char.toLower)) (String.ofList (t.toList.map Char.toLower))
  | a, b => a.order b

/-- The part of a datum that one step of a path leads to; only an undefined datum has none. -/
def followStep (name : List Char) (d : Datum) : Option Datum :=
  if d.isUndefined then none
  else
    let part := match Decimal.readNat? name with
      | some n => d.item? (.ofCount n)
      | none => d.member? (String.ofList name)
    some (part.getD .missing)

/-- What a path of attributes between points leads to. -/
def followPath (path : List Char) (d : Datum) : Option Datum :=
  (Text.splitOnChar '.' path).foldl (fun d name => d.bind (followStep name)) (some d)

/-- The order by what paths lead to, of which the first that tells two data apart counts. -/
def orderByPaths (order : Datum → Datum → Ordering) (a b : Datum) : List (List Char) → Ordering
  | [] => .eq
  | path :: paths =>
    let here := match followPath path a, followPath path b with
      | some x, some y => order x y
      | _, _ => .eq
    here.then (orderByPaths order a b paths)

/-- Sorts by the values themselves or by paths of attributes between commas.  Equal values stay in
their order, backward too. -/
def sort : Filter := fun strict d args => do
  args.atMostPlaced 0
  let values ← valuesOr strict notAList d
  let caseSensitive ← args.flag "case_sensitive"
  let paths ← args.text? "attribute"
  let backward ← args.flag "reverse"
  args.onlyNamed ["case_sensitive", "attribute", "reverse"]
  let order (a b : Datum) : Ordering :=
    match paths with
    | none => sortOrder caseSensitive a b
    | some paths =>
      orderByPaths (sortOrder caseSensitive) a b (Text.splitOnChar ',' paths.toList)
  let inOrder (a b : Datum) : Bool := if backward then order a b != .lt else order a b != .gt
  return .sequence false (values.mergeSort inOrder)

/-- The values without those that came before. -/
def uniqueFrom (key : Datum → Datum) : List Datum → List Datum → List Datum
  | _, [] => []
  | seen, d :: ds =>
    if seen.any fun k => k.order (key d) == .eq then uniqueFrom key seen ds
    else d :: uniqueFrom key (key d :: seen) ds

def unique : Filter := fun strict d args => do
  args.atMostPlaced 0
  let paths ← args.text? "attribute"
  let caseSensitive ← args.flag "case_sensitive"
  args.onlyNamed ["attribute", "case_sensitive"]
  let values ← valuesOf strict d
  let key (d : Datum) : Datum :=
    match paths.elim d fun path => (followPath path.toList d).getD .missing with
    | .text isSafe s => if caseSensitive then .text isSafe s else ofString (Text.toLower s)
    | d => d
  return .sequence false (uniqueFrom key [] values)

/-- The least value; of equal ones the first. -/
def least : List Datum → Datum
  | [] => .missing
  | d :: ds => ds.foldl (fun best d => if d.order best == .lt then d else best) d

/-- The greatest value; of equal ones the last. -/
def greatest : List Datum → Datum
  | [] => .missing
  | d :: ds => ds.foldl (fun best d => if d.order best == .lt then best else d) d

def ofLeast : Filter := fun strict d args => do
  args.atMost 0
  return least (← valuesOr strict notAList d)

def ofGreatest : Filter := fun strict d args => do
  args.atMost 0
  return greatest (← valuesOr strict notAList d)

/-- The sum of numbers; what is undefined is passed over. -/
def sumFrom (total : Datum) : List Datum → Result
  | [] => .ok total
  | d :: ds =>
    if d.isUndefined then sumFrom total ds
    else if d.kind != .number then
      .error (.invalid (some ("can only sum numbers, got " ++ d.kind.name)))
    else
      match total.add d with
      | .ok total => sumFrom total ds
      | .error problem => .error problem

def sum : Filter := fun strict d args => do
  args.atMost 0
  sumFrom (.ofInt 0) (← valuesOf strict d)

/-! ## Undefined data -/

/-- The datum, or the first argument where it is undefined; with a true second argument also where it
counts as false. -/
def default : Filter := fun _ d args => do
  let other := ((args.optional 0).map Argument.datum).getD (ofString "")
  let isLax := (args.optional 1).any fun a => a.datum.isTrue
  args.atMost 2
  return if d.isUndefined || (isLax && !d.isTrue) then other else d

/-! ## Names -/

/-- All filters by name. -/
def table : List (String × Filter) :=
  [("abs", onDatum abs), ("bool", conversion fun d => .ok (.boolean d.isTrue)),
    ("capitalize", onText Text.capitalize), ("count", onDatum length), ("d", default),
    ("default", default), ("e", onDatum escape), ("escape", onDatum escape), ("first", onDatum first),
    ("float", conversion toFloat), ("int", conversion toInteger), ("items", onDatum items), ("join", join),
    ("last", onDatum last), ("length", onDatum length), ("lines", lines), ("list", list),
    ("lower", onText Text.toLower), ("max", ofGreatest), ("min", ofLeast), ("replace", replace),
    ("reverse", onDatum reverse), ("round", round),
    ("safe", onDatum fun d => .ok (.text true d.shown)), ("sort", sort), ("split", split),
    ("string", conversion toText), ("sum", sum),
    ("title", onText Text.toTitle), ("tojson", toJson), ("trim", trim), ("unique", unique),
    ("upper", onText Text.toUpper), ("urlencode", onDatum urlEncode)]

def named? (name : String) : Option Filter := table.lookup name

end Filter

end Stencil.Template
