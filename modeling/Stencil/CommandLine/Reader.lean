import Stencil.CommandLine
/-!
# Reading command lines

Words are read from left to right.  A parameter waits for its value, which is checked only when the
next parameter or flag comes, or at the end; so a word that nothing accounts for is refused even
after a bad value.  Words after `--` are values.
-/

namespace Stencil.Arguments

/-- What takes no value. -/
inductive Flag where
  | force | verbose | strictPlaceholders | help | version
deriving DecidableEq

/-- What takes a value. -/
inductive Parameter where
  | template | output | bindings | data | onRenderError | suffix
deriving DecidableEq

/-- What a name on the command line stands for. -/
inductive Named where
  | flag (f : Flag)
  | parameter (p : Parameter)

/-- The names that follow two hyphens. -/
def longNames : List (String × Named) :=
  [("bindings", .parameter .bindings), ("data", .parameter .data), ("force", .flag .force),
    ("verbose", .flag .verbose), ("on-render-error", .parameter .onRenderError),
    ("strict-placeholders", .flag .strictPlaceholders), ("suffix", .parameter .suffix),
    ("help", .flag .help), ("version", .flag .version)]

/-- The letters that follow one hyphen. -/
def shortNames : List (Char × Named) :=
  [('b', .parameter .bindings), ('d', .parameter .data), ('f', .flag .force),
    ('v', .flag .verbose), ('h', .flag .help), ('V', .flag .version)]

/-- The policies by name. -/
def policies : List (String × FailurePolicy) := [("abort", .abort), ("embed", .embed)]

/-- What is known of a command line so far. -/
structure Draft where
  template : Option Path
  output : Option Path
  bindings : List Path
  data : List String
  policy : Option FailurePolicy
  suffixes : List String
  flags : List Flag
  /-- The parameters that values without a name are for. -/
  unnamed : List Parameter
  /-- The last parameter, with its value if that has come. -/
  pending : Option (Parameter × Option String)

namespace Draft

def empty : Draft where
  template := none
  output := none
  bindings := []
  data := []
  policy := none
  suffixes := []
  flags := []
  unnamed := [.template, .output]
  pending := none

/-- A path, which must not be empty. -/
def readPath (value : String) : Except Refusal Path :=
  if value = "" then .error .invalidValue else .ok ⟨value⟩

/-- A parameter takes a value. -/
def store (d : Draft) (p : Parameter) (value : String) : Except Refusal Draft :=
  match p with
  | .template => (readPath value).map fun p => { d with template := some p }
  | .output => (readPath value).map fun p => { d with output := some p }
  | .bindings => (readPath value).map fun p => { d with bindings := d.bindings ++ [p] }
  | .data => .ok { d with data := d.data ++ [value] }
  | .suffix => .ok { d with suffixes := d.suffixes ++ [value] }
  | .onRenderError =>
    if d.policy.isSome then .error .repeated
    else
      match policies.lookup value with
      | some policy => .ok { d with policy := some policy }
      | none => .error .invalidValue

/-- The parameter that waits takes its value. -/
def settle (d : Draft) : Except Refusal Draft :=
  match d.pending with
  | none => .ok d
  | some (_, none) => .error .invalidValue
  | some (p, some value) => { d with pending := none }.store p value

/-- A flag is given. -/
def raise (d : Draft) (f : Flag) : Except Refusal Draft := do
  let d ← d.settle
  match f with
  | .help => throw .helpWanted
  | .version => throw .versionWanted
  | f => if f ∈ d.flags then throw .repeated else return { d with flags := d.flags ++ [f] }

/-- A parameter is named, with or without a value attached to its name. -/
def await (d : Draft) (p : Parameter) (attached : Option String) : Except Refusal Draft := do
  let d ← d.settle
  match attached with
  | some value => d.store p value
  | none => return { d with pending := some (p, none) }

/-- A value without a name. -/
def place (d : Draft) (value : String) : Except Refusal Draft :=
  match d.unnamed with
  | [] => .error .unknownArgument
  | p :: unnamed =>
    d.settle.map fun d => { d with unnamed, pending := some (p, some value) }

/-- A word that starts with two hyphens. -/
def readLong (d : Draft) (word : List Char) : Except Refusal Draft :=
  let (name, attached) :=
    match Text.splitAtFirst ['='] word with
    | some (name, value) => (name, some (String.ofList value))
    | none => (word, none)
  match longNames.lookup (String.ofList name), attached with
  | some (.parameter p), attached => d.await p attached
  | some (.flag f), none => d.raise f
  | some (.flag _), some _ => .error .unwantedValue
  | none, _ => .error .unknownArgument

/-- What is attached to the letter of a parameter. -/
def attachedValue : List Char → Option String
  | [] => none
  | '=' :: value => some (String.ofList value)
  | value => some (String.ofList value)

/-- The letters after one hyphen: flags, then at most one parameter with all that follows. -/
def readShort (d : Draft) : List Char → Except Refusal Draft
  | [] => .ok d
  | c :: rest =>
    match shortNames.lookup c with
    | some (.parameter p) => d.await p (attachedValue rest)
    | some (.flag f) =>
      match d.raise f with
      | .ok d => readShort d rest
      | .error r => .error r
    | none => .error .unknownArgument

/-- A word that is no `--`. -/
def readWord (d : Draft) (word : String) : Except Refusal Draft :=
  match word.toList with
  | '-' :: '-' :: rest => d.readLong rest
  | '-' :: c :: rest => d.readShort (c :: rest)
  | _ =>
    match d.pending with
    | some (p, none) => .ok { d with pending := some (p, some word) }
    | _ => d.place word

/-- All words in turn. -/
def readWords (d : Draft) : List String → Except Refusal Draft
  | [] => d.settle
  | word :: words =>
    if word = "--" then
      match words.foldlM place d with
      | .ok d => d.settle
      | .error r => .error r
    else
      match d.readWord word with
      | .ok d => readWords d words
      | .error r => .error r

/-- What a complete draft asks for. -/
def finish (d : Draft) : Except Refusal Arguments :=
  match d.template, d.output with
  | some template, some output =>
    .ok
      { template, output
        bindings := d.bindings
        data := d.data
        force := d.flags.contains .force
        verbose := d.flags.contains .verbose
        policy := d.policy.getD .embed
        strictPlaceholders := d.flags.contains .strictPlaceholders
        suffixes := d.suffixes }
  | _, _ => .error .missingArgument

end Draft

/-- What the words of a command line ask for. -/
def read (words : List String) : Except Refusal Arguments :=
  match Draft.empty.readWords words with
  | .ok d => d.finish
  | .error r => .error r

end Stencil.Arguments
