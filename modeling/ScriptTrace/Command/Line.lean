import ScriptTrace.Check
import ScriptTrace.Command.Report

/-!
# The command line

What the words after the program's name ask for, which inputs that needs, and what is printed for
the contents of these inputs.
-/

namespace ScriptTrace

/-- What a command prints, and the code with which it ends. -/
structure Output where
  stdout : String
  stderr : String
  code : UInt32
deriving DecidableEq

/-- A command. -/
inductive Command where
  | usage
  | version
  | trace (arguments : Arguments)
  | check (paths : List String)
  /-- A check without inputs. -/
  | emptyCheck
  /-- A trace whose arguments are wrong. -/
  | wrongTrace (e : CommandError)
  | unknown (word : String)

namespace Command

/-- The explanation of all commands. -/
def usageText : String := "\n".intercalate [
  "Stepwise - line-by-line tracer for ESTree programs",
  "",
  "Usage: stepwise <command> [options]",
  "",
  "Commands:",
  "  trace <tree.json|->...   Run each tree and print its history as JSON",
  "  check <tree.json|->...   List constructs the tracer cannot run",
  "  help                     Show this help message",
  "  version                  Show version information",
  "",
  "Trace options:",
  "  --max-iterations=<n>     Body executions per loop before it is stopped (default 1000)",
  "  --dedup                  Drop events identical to the one before",
  "  --no-swap-detection      Trace swap idioms as plain assignments",
  "  --keep-partial           Include the history recorded before a failure",
  "  --pretty                 Indent the JSON output",
  "",
  "Environment:",
  "  STEPWISE_LOG=<filter>    Diagnostic logging to stderr (falls back to RUST_LOG)",
  "  STEPWISE_LOG_TREE=1      Hierarchical log output",
  "",
  "Examples:",
  "  stepwise trace sort.json --pretty",
  "  acorn --ecma2020 --locations sort.js | stepwise trace -",
  "  stepwise trace a.json b.json --max-iterations=50",
  "  stepwise check sort.json",
  ""]

/-- The last part of a path that names something, without the separators and the `.` after it. -/
def fileName? (path : String) : Option String :=
  let parts := path.splitOn "/"
  let name? := (parts.reverse.dropWhile fun part ↦ part = "" ∨ part = ".").head?
  name?.filter (· ≠ "..")

/-- The part of a file name after its last point, unless that point comes first. -/
def extension? (name : String) : Option String :=
  match (name.splitOn ".").reverse with
  | ending :: start :: rest => if rest.isEmpty ∧ start = "" then none else some ending
  | _ => none

/-- Whether a word is the path of a tree, which is traced without naming the command. -/
def isTreePath (word : String) : Bool :=
  ((fileName? word).bind extension?).any (·.toLower = "json")

/-- The command that words ask for. -/
def parse (words : List String) : Command :=
  let traceOf (words : List String) : Command :=
    match Arguments.parse words with
    | .ok arguments => trace arguments
    | .error e => wrongTrace e
  match words with
  | [] => usage
  | "trace" :: rest => traceOf rest
  | ["check"] => emptyCheck
  | "check" :: paths => check paths
  | "help" :: _ | "--help" :: _ | "-h" :: _ => usage
  | "version" :: _ | "--version" :: _ | "-V" :: _ => version
  | word :: _ => if isTreePath word then traceOf words else unknown word

/-- The inputs whose contents a command needs, in order. -/
def inputs : Command → List String
  | trace arguments => arguments.inputs
  | check paths => paths
  | _ => []

/-- What a check prints about one input. -/
def checkOutput (path : String) (content : Content) : Output :=
  let name := Input.displayName path
  match content.toText name >>= Input.decode name with
  | .error e => ⟨"", "error: " ++ e.message ++ "\n", 1⟩
  | .ok p =>
    let report := p.check
    if report.findings.isEmpty then
      ⟨"OK: " ++ name ++ " (" ++ report.statements.repr ++ " statements)\n", "", 0⟩
    else
      let finding (f : Finding) : String :=
        match f.line with
        | some line => name ++ ":" ++ line.toNat.repr ++ ": " ++ f.construct.message ++ "\n"
        | none => name ++ ": " ++ f.construct.message ++ "\n"
      ⟨"".intercalate (report.findings.map finding), "", 1⟩

/-- What a trace prints about one input. -/
def traceOutput (options : Options) (path : String) (content : Content) : Output :=
  let report := Report.ofContent path content options
  let text := if options.pretty then report.toJson.pretty else report.toJson.compact
  ⟨text ++ "\n", "", if report.isSuccess then 0 else 1⟩

/-- The outputs of one command on several inputs together: it succeeds if all of them do. -/
def gather (outputs : List Output) : Output :=
  ⟨"".intercalate (outputs.map (·.stdout)), "".intercalate (outputs.map (·.stderr)),
    if outputs.all (·.code = 0) then 0 else 1⟩

/-- What a command prints for the contents of its inputs. -/
def output (contents : List Content) : Command → Output
  | usage => ⟨usageText, "", 0⟩
  | version => ⟨"stepwise 0.1.0\n", "", 0⟩
  | trace arguments =>
    gather (arguments.inputs.zipWith (traceOutput arguments.options) contents)
  | check paths => gather (paths.zipWith checkOutput contents)
  | emptyCheck => ⟨"", "Usage: stepwise check <tree.json|->...\n", 1⟩
  | wrongTrace e =>
    ⟨"", "error: " ++ e.message ++
      "\nUsage: stepwise trace <tree.json|->... [options]\n", 1⟩
  | unknown word => ⟨usageText, "Unknown command: " ++ word ++ "\n\n", 1⟩

end Command

end ScriptTrace
