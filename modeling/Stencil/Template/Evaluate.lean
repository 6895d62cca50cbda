import Stencil.Template.Expression
import Stencil.Template.Test
/-!
# Evaluation

Expressions evaluate to data, statements print.  Variables live in frames: each round of a loop and
each `with` block starts without variables of its own, and what is set inside is gone after it.  A name
is looked for from the innermost frame outward, then among the bound variables, then among the
functions.
-/

namespace Stencil.Template

/-! ## State -/

/-- What a loop repeats for the values of a recursive call. -/
structure Repetition where
  target : Target
  body : List Statement
  otherwise : List Statement

/-- The loop that a frame belongs to. -/
structure LoopFrame where
  /-- The variable `loop`; a loop that only selects values has none. -/
  shown : Option Datum
  depth : Nat
  /-- What a recursive loop repeats. -/
  repetition : Option Repetition

/-- Variables set in one place of the template. -/
structure Frame where
  locals : List (String × Datum)
  loop : Option LoopFrame

/-- What is the same throughout a template. -/
structure Setting where
  /-- Whether undefined data is refused. -/
  strict : Bool
  globals : List (String × Datum)

/-- What changes while a template is evaluated. -/
structure Scene where
  /-- The innermost frame comes first. -/
  frames : List Frame
  output : String
  escapesHtml : Bool

/-- A computation that may fail at a line. -/
abbrev Eval := StateT Scene (Except Fault)

/-- How a statement ends. -/
inductive Flow where
  | onward
  | leave
  | next
deriving DecidableEq

namespace Eval

def fail {α : Type} (line : Nat) (problem : Problem) : Eval α := fun _ => .error ⟨problem, line⟩

/-- The result of an operation, whose problem arises at a line. -/
def located {α : Type} (line : Nat) (result : Except Problem α) : Eval α :=
  match result with
  | .ok a => pure a
  | .error problem => fail line problem

def print (text : String) : Eval Unit :=
  modify fun scene => { scene with output := scene.output ++ text }

/-- Frames are nested at most this deep. -/
def maxFrames : Nat := 500

/-- A computation inside a new frame. -/
def inFrame {α : Type} (line : Nat) (frame : Frame) (run : Eval α) : Eval α := fun scene =>
  if maxFrames < scene.frames.length then
    .error ⟨.invalid (some "recursion limit exceeded"), line⟩
  else
    match run { scene with frames := frame :: scene.frames } with
    | .ok (a, after) => .ok (a, { after with frames := scene.frames })
    | .error fault => .error fault

/-- What a computation prints, which is not printed. -/
def captured (run : Eval Flow) : Eval (Flow × Datum) := fun scene =>
  match run { scene with output := "" } with
  | .ok (flow, after) =>
    .ok ((flow, .text scene.escapesHtml after.output), { after with output := scene.output })
  | .error fault => .error fault

/-- Gives a name a value in the innermost frame. -/
def store (name : String) (value : Datum) : Eval Unit :=
  modify fun scene =>
    match scene.frames with
    | frame :: frames =>
      { scene with frames := { frame with locals := KeyedList.put name value frame.locals } :: frames }
    | [] => scene

/-- The loop of the innermost frame that has one. -/
def currentLoop : Eval (Option LoopFrame) := return (← get).frames.findSome? (·.loop)

/-- Starts another round in the innermost frame: it has no variables but `loop`. -/
def startRound (shown : Datum) : Eval Unit :=
  modify fun scene =>
    match scene.frames with
    | frame :: frames =>
      let loop := frame.loop.map fun loop => { loop with shown := some shown }
      { scene with frames := ⟨[], loop⟩ :: frames }
    | [] => scene

end Eval

open Eval

/-! ## Variables -/

/-- What a frame knows under a name. -/
def Frame.find? (frame : Frame) (name : String) : Option Datum :=
  (frame.locals.lookup name).or (if name = "loop" then frame.loop.bind (·.shown) else none)

/-- The functions of templates. -/
def functionNames : List String := ["dict", "range"]

/-- The function of this name. -/
def function? (name : String) : Option Datum :=
  if functionNames.contains name then some (.function name) else none

def lookup (setting : Setting) (name : String) : Eval (Option Datum) := do
  let found := (← get).frames.findSome? (·.find? name)
  return (found.or (setting.globals.lookup name)).or (function? name)

/-- Refuses undefined data where that is strict, unless it is undefined on purpose. -/
def Setting.refuse (setting : Setting) (d : Datum) : Except Problem Datum :=
  match d with
  | .undefined false => if setting.strict then .error .undefinedValue else .ok d
  | d => .ok d

/-- Whether a condition holds. -/
def Setting.isTrue (setting : Setting) (d : Datum) : Except Problem Bool :=
  (setting.refuse d).map Datum.isTrue

/-- The values that a loop goes over. -/
def Setting.values (setting : Setting) (d : Datum) : Except Problem (List Datum) :=
  (setting.refuse d).bind Datum.iterate

/-- An operation; where undefined data is refused, it is refused as a part of a text. -/
def Setting.operate (setting : Setting) (op : Operator) (a b : Datum) : Datum.Result := do
  if op = .concat then
    let _ ← setting.refuse a
    let _ ← setting.refuse b
  Datum.operate op a b

/-- Whether a comparison of data that may be refused holds. -/
def Setting.compares (setting : Setting) (c : Comparison) (a b : Datum) : Except Problem Bool := do
  Datum.compares c (← setting.refuse a) (← setting.refuse b)

/-- A part of a datum that must not be refused. -/
def Setting.slice (setting : Setting) (d start stop step : Datum) : Datum.Result := do
  (← setting.refuse d).slice start stop step

/-! ## Loops -/

/-- A loop at one of its values. -/
structure Round where
  index : Nat
  length : Nat
  depth : Nat
  before : Datum
  after : Datum

/-- The names of the attributes of the variable `loop`. -/
def Round.names : List String :=
  ["index0", "index", "length", "revindex", "revindex0", "first", "last", "depth", "depth0",
    "previtem", "nextitem"]

/-- The attributes of the variable `loop`. -/
def Round.member? (r : Round) : String → Option Datum
  | "index0" => some (.ofCount r.index)
  | "index" => some (.ofCount (r.index + 1))
  | "length" => some (.ofCount r.length)
  | "revindex" => some (.ofCount (r.length - r.index))
  | "revindex0" => some (.ofCount (r.length - r.index - 1))
  | "first" => some (.boolean (r.index == 0))
  | "last" => some (.boolean (r.index + 1 == r.length))
  | "depth" => some (.ofCount (r.depth + 1))
  | "depth0" => some (.ofCount r.depth)
  | "previtem" => some r.before
  | "nextitem" => some r.after
  | _ => none

/-- The variable `loop`. -/
def Round.shown (r : Round) : Datum :=
  .object 0 s!"<loop {r.index}/{r.length}>" Round.names r.member?

/-- Each value in turn; gives the number of values taken before the loop was left. -/
def eachRound (length depth : Nat) (run : Datum → Eval Flow) :
    Nat → Datum → List Datum → Eval Nat
  | index, _, [] => return index
  | index, before, value :: values => do
    startRound (Round.shown ⟨index, length, depth, before, values.head?.getD .missing⟩)
    if (← run value) = .leave then return index else eachRound length depth run (index + 1) value values

/-- Statements in turn, until one does not go onward. -/
def eachStatement (run : Statement → Eval Flow) : List Statement → Eval Flow
  | [] => return .onward
  | s :: ss => do
    match ← run s with
    | .onward => eachStatement run ss
    | flow => return flow

/-! ## Functions -/

/-- The largest number of integers in a range. -/
def maxRange : Nat := 100000

/-- The integers from a first one, by steps, up to before a last one. -/
def rangeOf (first last step : Int) : Datum.Result :=
  let count := if 0 < step then (last - first + step - 1) / step else (first - last - step - 1) / -step
  if step = 0 then .error (.invalid (some "cannot create range with step of 0"))
  else if maxRange < count.toNat then .error (.invalid (some "range has too many elements"))
  else
    .ok (.sequence true ((List.range count.toNat).map fun (i : Nat) => .ofInt (first + step * i)))

/-- The function `range`: a last integer, or a first and a last one and a step. -/
def callRange (strict : Bool) (args : Arguments) : Datum.Result := do
  let form := "isize"
  let first ← (← args.required 0).integer strict form
  let last ← args.optionalInteger strict form 1
  let step ← args.optionalInteger strict form 2
  args.atMost 3
  match last with
  | some last => rangeOf first last (step.getD 1)
  | none => rangeOf 0 first (step.getD 1)

/-- The function `dict`: a map with the entries of another and with the named arguments. -/
def callDict (args : Arguments) : Datum.Result := do
  args.atMostPlaced 1
  let base ← match args.placed.head?.filter (!·.isAbsent) with
    | none => pure []
    | some d =>
      match d.entries? with
      | some entries => pure entries
      | none => .error (.invalid none)
  return .ofEntries (base ++ args.named.getD [])

/-- A call of a datum. -/
def callDatum (strict : Bool) (d : Datum) (args : Arguments) : Datum.Result :=
  match d with
  | .function "range" => callRange strict args
  | .function "dict" => callDict args
  | d => .error (.notCallable d.kind)

/-- A call of a method. -/
def callMethod (strict : Bool) (d : Datum) (name : String) (args : Arguments) : Datum.Result :=
  match d.member? name with
  | some value => callDatum strict value args
  | none => .error (.unknownMethod d.kind name)

/-! ## Evaluation -/

/-- The evaluated arguments of a call whose last line this is; those with names come after the
others. -/
def evaluateArguments (evaluate : Expression → Eval Datum) (line : Nat)
    (arguments : List (Passing × Expression)) : Eval Arguments := do
  let given := arguments.filter (!·.1.isNamed) ++ arguments.filter (·.1.isNamed)
  let args ← given.mapM fun (passing, e) => return (passing, ← evaluate e)
  located line (Arguments.ofEvaluated args)

/-- Whether each operand stands in its relation to the next; none is evaluated after one that does
not. -/
def evaluateChain (setting : Setting) (evaluate : Expression → Eval Datum) :
    Datum → List (Comparison × Expression) → Eval Bool
  | _, [] => return true
  | a, (c, e) :: others => do
    let b ← evaluate e
    if ← located e.lastLine (setting.compares c a b) then evaluateChain setting evaluate b others
    else return false

/-- Assigns data to a target. -/
def assign (evaluate : Expression → Eval Datum) : Nat → Target → Datum → Eval Unit
  | 0, _, _ => return ()
  | fuel + 1, target, d =>
    match target with
    | .name _ name => store name d
    | .tuple line targets => do
      let values ← located line (Datum.unpack targets.length d)
      (targets.zip values).forM fun (target, d) => assign evaluate fuel target d
    | .member line subject _ => do
      let subject ← evaluate subject
      fail line (.invalid (some ("can only assign to namespaces, not " ++ subject.kind.name)))

mutual

/-- The datum of an expression.  A filter without subject works on the given text. -/
def evaluate (setting : Setting) (text : Datum) : Nat → Expression → Eval Datum
  | 0, e => fail e.lastLine (.invalid (some "recursion limit exceeded"))
  | fuel + 1, e => do
    let eval := evaluate setting text fuel
    let here {α : Type} (result : Except Problem α) : Eval α := located e.lastLine result
    match e with
    | .constant _ _ value => return value
    | .variable _ name => return (← lookup setting name).getD .missing
    | .list _ items => return .sequence false (← items.mapM eval)
    | .map _ entries =>
      return .ofEntries (← entries.mapM fun (key, value) => return (← eval key, ← eval value))
    | .not _ operand =>
      let d ← eval operand
      return .boolean !(← here (setting.isTrue d))
    | .negate line operand => located line (← eval operand).negate
    | .binary _ operator left right =>
      let a ← eval left
      let b ← eval right
      here (setting.operate operator a b)
    | .comparison _ first others => return .boolean (← evaluateChain setting eval (← eval first) others)
    | .both _ left right =>
      let a ← eval left
      if ← located left.lastLine (setting.isTrue a) then eval right else return a
    | .either _ left right =>
      let a ← eval left
      if ← located left.lastLine (setting.isTrue a) then return a else eval right
    | .choice value condition otherwise =>
      let c ← eval condition
      if ← located condition.lastLine (setting.isTrue c) then eval value
      else
        match otherwise with
        | some other => eval other
        | none => return .undefined true
    | .filter _ name subject arguments =>
      let d ← match subject with
        | some e => eval e
        | none => pure text
      let args ← evaluateArguments eval e.lastLine arguments
      match Filter.named? name with
      | some filter => here (filter setting.strict d args)
      | none => here (.error (.unknownFilter name))
    | .test name subject arguments =>
      let d ← eval subject
      let args ← evaluateArguments eval e.lastLine arguments
      match Test.named? name with
      | some test => return .boolean (← here (test setting.strict d args))
      | none => here (.error (.unknownTest name))
    | .member subject name =>
      let d ← eval subject
      here (d.partOf (d.member? name))
    | .item subject index =>
      let d ← eval subject
      let i ← eval index
      here (d.partOf (d.item? i))
    | .slice subject start stop step =>
      let d ← eval subject
      let bound (part : Option Expression) : Eval Datum :=
        match part with
        | some e => eval e
        | none => pure .null
      let first ← bound start
      let last ← bound stop
      here (setting.slice d first last (← bound step))
    | .call _ callee arguments =>
      let line := e.lastLine
      match callee with
      | .variable _ name =>
        let args ← evaluateArguments eval line arguments
        if name = "loop" then
          match args.all with
          | [arg] => repeatLoop setting fuel line arg.datum
          | _ => here (.error (.invalid (some "loop() takes one argument")))
        else
          match ← lookup setting name with
          | some d => here (callDatum setting.strict d args)
          | none => here (.error (.unknownFunction name))
      | .member subject name =>
        let d ← eval subject
        here (callMethod setting.strict d name (← evaluateArguments eval line arguments))
      | callee =>
        let d ← eval callee
        here (callDatum setting.strict d (← evaluateArguments eval line arguments))

/-- The text that the current loop prints for the values of other data. -/
def repeatLoop (setting : Setting) : Nat → Nat → Datum → Eval Datum
  | 0, line, _ => fail line (.invalid (some "recursion limit exceeded"))
  | fuel + 1, line, d => do
    match ← currentLoop with
    | none => fail line (.unknownFunction "loop")
    | some loop =>
      match loop.repetition with
      | none => fail line (.invalid (some "cannot recurse outside of recursive loop"))
      | some repetition =>
        let values ← located line (setting.values d)
        let (_, text) ← captured (runLoop setting fuel line repetition true (loop.depth + 1) values)
        return text

/-- The body of a loop for each value, or what stands after `else` when the loop ends in its first
round. -/
def runLoop (setting : Setting) :
    Nat → Nat → Repetition → Bool → Nat → List Datum → Eval Flow
  | 0, line, _, _, _, _ => fail line (.invalid (some "recursion limit exceeded"))
  | fuel + 1, line, repetition, isRecursive, depth, values => do
    let eval := evaluate setting .missing fuel
    let frame : Frame := ⟨[], some ⟨none, depth, if isRecursive then some repetition else none⟩⟩
    let taken ← inFrame line frame <| eachRound values.length depth (fun d => do
      assign eval fuel repetition.target d
      eachStatement (execute setting fuel) repetition.body) 0 .missing values
    if taken = 0 then eachStatement (execute setting fuel) repetition.otherwise
    else return .onward

/-- Prints what a statement says. -/
def execute (setting : Setting) : Nat → Statement → Eval Flow
  | 0, _ => fail 0 (.invalid (some "recursion limit exceeded"))
  | fuel + 1, s => do
    let eval := evaluate setting .missing fuel
    let run := eachStatement (execute setting fuel)
    match s with
    | .text s => print s; return .onward
    | .print e =>
      let d ← eval e
      let d ← located e.lastLine (setting.refuse d)
      print (if (← get).escapesHtml then d.shownAsHtml else d.shown)
      return .onward
    | .branch condition body otherwise =>
      let c ← eval condition
      if ← located condition.lastLine (setting.isTrue c) then run body else run otherwise
    | .loop target source condition isRecursive body otherwise =>
      let line := source.lastLine
      let values ← located line (setting.values (← eval source))
      let values ← match condition with
        | none => pure values
        | some condition =>
          inFrame line ⟨[], some ⟨none, 0, none⟩⟩ <| values.filterM fun d => do
            assign eval fuel target d
            let c ← eval condition
            located condition.lastLine (setting.isTrue c)
      let depth := match ← currentLoop with
        | some loop => if loop.repetition.isSome then loop.depth + 1 else 0
        | none => 0
      runLoop setting fuel line ⟨target, body, otherwise⟩ isRecursive depth values
    | .leave => return .leave
    | .next => return .next
    | .assign target value =>
      let d ← eval value
      assign eval fuel target d
      return .onward
    | .capture target filter body =>
      let (flow, text) ← captured (run body)
      let d ← match filter with
        | some e => evaluate setting text fuel e
        | none => pure text
      assign eval fuel target d
      return flow
    | .scope assignments body =>
      inFrame 0 ⟨[], none⟩ do
        assignments.forM fun (target, value) => do
          let d ← eval value
          assign eval fuel target d
        run body
    | .filtered filter body =>
      let (flow, text) ← captured (run body)
      let d ← evaluate setting text fuel filter
      let d ← located filter.lastLine (setting.refuse d)
      print (if (← get).escapesHtml then d.shownAsHtml else d.shown)
      return flow
    | .escaping mode body =>
      let d ← eval mode
      let escapes ← match d with
        | .text _ "html" | .boolean true => pure true
        | .text _ "none" | .boolean false => pure false
        | _ => fail mode.lastLine (.invalid (some "invalid value to autoescape tag"))
      let before := (← get).escapesHtml
      modify fun scene => { scene with escapesHtml := escapes }
      let flow ← run body
      modify fun scene => { scene with escapesHtml := before }
      return flow
    | .run call =>
      let _ ← eval call
      return .onward

end

end Stencil.Template
