import Stencil.Template.Datum.Arithmetic
/-!
# Constant expressions

What is made of literals alone is computed once, when the template is read.  Such a constant stands
where it starts, so its line is the first of its lines, and a conjunction of constants is a boolean
where one of variables would be the last operand looked at.  An operation that fails stays, to fail
when it is evaluated.
-/

namespace Stencil.Template.Expression

/-! ## Operations on constants -/

/-- The result of an operation as a constant; the expression itself where there is none. -/
def orElse (result : Option Datum) (line : Nat) (e : Expression) : Expression :=
  match result with
  | some value => .constant line false value
  | none => e

/-- The entries of a map of constants. -/
def constantEntry? : Expression × Expression → Option (Datum × Datum)
  | (key, value) =>
    match key.constant?, value.constant? with
    | some k, some v => some (k, v)
    | _, _ => none

/-- Whether each constant stands in its relation to the next. -/
def constantChain? : Datum → List (Comparison × Expression) → Option Bool
  | _, [] => some true
  | a, (c, e) :: others =>
    e.constant?.bind fun b =>
      match Datum.compares c a b, constantChain? b others with
      | .ok holds, some hold => some (holds && hold)
      | _, _ => none

/-- The operation on two constants. -/
def constantPair? (f : Datum → Datum → Option Datum) (left right : Expression) : Option Datum :=
  match left.constant?, right.constant? with
  | some a, some b => f a b
  | _, _ => none

/-- The expression, as a constant where its parts are constants. -/
def settled : Expression → Expression
  | .list line items =>
    orElse ((items.mapM constant?).map (.sequence false)) line (.list line items)
  | .map line entries =>
    orElse ((entries.mapM constantEntry?).map .ofEntries) line (.map line entries)
  | .not line e => orElse (e.constant?.map fun d => .boolean !d.isTrue) line (.not line e)
  | .negate line e => orElse (e.constant?.bind fun d => d.negate.toOption) line (.negate line e)
  | .binary line op left right =>
    orElse (constantPair? (fun a b => (Datum.operate op a b).toOption) left right) line
      (.binary line op left right)
  | .comparison line first others =>
    orElse (first.constant?.bind fun a => (constantChain? a others).map .boolean) line
      (.comparison line first others)
  | .both line left right =>
    orElse (constantPair? (fun a b => some (.boolean (a.isTrue && b.isTrue))) left right) line
      (.both line left right)
  | .either line left right =>
    orElse (constantPair? (fun a b => some (if a.isTrue then a else b)) left right) line
      (.either line left right)
  | e => e

/-! ## Whole expressions -/

mutual

/-- The expression with its constant parts computed. -/
def folded : Expression → Expression
  | .constant line isLiteral value => .constant line isLiteral value
  | .variable line name => .variable line name
  | .list line items => settled (.list line (foldedItems items))
  | .map line entries => settled (.map line (foldedEntries entries))
  | .not line e => settled (.not line (folded e))
  | .negate line e => settled (.negate line (folded e))
  | .binary line op left right => settled (.binary line op (folded left) (folded right))
  | .comparison line first others => settled (.comparison line (folded first) (foldedOthers others))
  | .both line left right => settled (.both line (folded left) (folded right))
  | .either line left right => settled (.either line (folded left) (folded right))
  | .choice value condition otherwise =>
    .choice (folded value) (folded condition) (foldedPart otherwise)
  | .filter line name subject arguments =>
    .filter line name (foldedPart subject) (foldedArguments arguments)
  | .test name subject arguments => .test name (folded subject) (foldedArguments arguments)
  | .member subject name => .member (folded subject) name
  | .item subject index => .item (folded subject) (folded index)
  | .slice subject start stop step =>
    .slice (folded subject) (foldedPart start) (foldedPart stop) (foldedPart step)
  | .call line callee arguments => .call line (folded callee) (foldedArguments arguments)

def foldedPart : Option Expression → Option Expression
  | none => none
  | some e => some (folded e)

def foldedItems : List Expression → List Expression
  | [] => []
  | e :: es => folded e :: foldedItems es

def foldedEntries : List (Expression × Expression) → List (Expression × Expression)
  | [] => []
  | (key, value) :: entries => (folded key, folded value) :: foldedEntries entries

def foldedOthers : List (Comparison × Expression) → List (Comparison × Expression)
  | [] => []
  | (c, e) :: others => (c, folded e) :: foldedOthers others

def foldedArguments : List (Passing × Expression) → List (Passing × Expression)
  | [] => []
  | (passing, e) :: arguments => (passing, folded e) :: foldedArguments arguments

end

end Stencil.Template.Expression
