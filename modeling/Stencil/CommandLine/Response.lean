import Stencil.CommandLine.Reader
/-!
# Responses

What the program answers to a command line: an exit code and what is shown.  A run is a generation
into the output directory, with the bindings that the command line names.
-/

namespace Stencil

/-- What the program answers. -/
inductive Response where
  | refused (refusal : Refusal)
  | failed (error : Error)
  | done (report : Report)

namespace Response

/-- The name and the version of the program. -/
def version : String := "fanout 0.1.0"

/-- How the program is called. -/
def usage : String :=
  "\n".intercalate
    ["fanout: clone a template tree, one file per value combination",
      "",
      "Usage: fanout [OPTIONS] <TEMPLATE> <OUTPUT_DIR>",
      "",
      "  <TEMPLATE>    Template directory (or single template file)",
      "  <OUTPUT_DIR>  Directory where the generated tree will be written",
      "",
      "  -b, --bindings <FILE>              JSON or YAML file with variable bindings",
      "  -d, --data <KEY=VALUE>             Bind a variable",
      "  -f, --force                        Force writing into an existing output directory",
      "  -v, --verbose                      Enable verbose logging output",
      "      --on-render-error <abort|embed>  What to do when a template fails to render",
      "      --strict-placeholders          Fail when a placeholder names an unbound variable",
      "      --suffix <SUFFIX>              Filename suffix marking files to render",
      "  -h, --help                         Print help",
      "  -V, --version                      Print version",
      ""]

/-- Whether the answer is the usage text. -/
def isUsage : Response → Bool
  | .refused .helpWanted => true
  | .refused .missingArgument => true
  | _ => false

/-- Zero tells success, two a command line that cannot be understood, one any other failure. -/
def code : Response → Nat
  | .refused .helpWanted => 0
  | .refused .versionWanted => 0
  | .refused .missingArgument => 1
  | .refused _ => 2
  | .failed _ => 1
  | .done _ => 0

/-- The lines that tell what was written, and the summary. -/
def reportLines (r : Report) : List String :=
  let line (what : String) (p : Path) : String := what ++ ": '" ++ p.text ++ "'"
  r.rendered.map (line "Rendered") ++ r.copied.map (line "Copied") ++
    r.failed.map (line "Render failed (diagnostic written)") ++
    r.overwritten.map (line "Overwritten by a later node") ++ r.skipped.map (line "Skipped") ++
    ["Template generation completed successfully in " ++ r.outputDirectory.text ++
      s!": {r.filesWritten} files written, {r.skipped.length} skipped."]

/-- What is shown of the answer. -/
def output : Response → String
  | .refused .helpWanted => usage
  | .refused .missingArgument => usage
  | .refused .versionWanted => version ++ "\n"
  | .refused _ => ""
  | .failed _ => ""
  | .done report => String.join ((reportLines report).map (· ++ "\n"))

/-- What is shown of a failure. -/
def errorOutput : Response → String
  | .failed e => e.message ++ "\n"
  | _ => ""

end Response

namespace Workspace

/-- What is asked for is done: first the output directory is checked, then the bindings are read,
then the tree is built and written. -/
def perform (w : Workspace) (a : Arguments) : Outcome Report :=
  match w.files.outputDirectory a.output a.force with
  | .error e => w.fail e
  | .ok output =>
    match a.loadBindings w.files with
    | .error e => w.fail e
    | .ok bindings => w.generate a.template (.directory output) bindings a.options

/-- The answer to a command line, and what it leaves behind. -/
def run (w : Workspace) (words : List String) : Workspace × Response :=
  match Arguments.read words with
  | .error refusal => (w, .refused refusal)
  | .ok a =>
    let outcome := w.perform a
    match outcome.result with
    | .ok report => (outcome.workspace, .done report)
    | .error e => (outcome.workspace, .failed e)

end Workspace

end Stencil
