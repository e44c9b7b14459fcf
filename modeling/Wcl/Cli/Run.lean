import Wcl.Cli.Options
import Wcl.Command
import Wcl.Document.Json
import Wcl.Document.Writer
import Wcl.Document.Yaml
import Wcl.Markup.Reader
import Wcl.Template.Variables

/-!
# The program

The program reads a document from a file or from standard input and prints the
variables it refers to, a command line, the values of keys, or the document
itself.  What it prints before an error stays printed.
-/

namespace Wcl.Cli

/-- The name of the program. -/
def programName : Text := "wclkit".toList

/-- The version of the program. -/
def programVersion : Text := "0.1.0".toList

/-- The text of the help. -/
def usage : Text :=
  ["Usage: wclkit [OPTIONS] [WCL_FILE]",
    "",
    "Arguments:",
    "  [WCL_FILE]          WCL file to read (default: stdin)",
    "",
    "Options:",
    "  --sorted            Alphabetize keys (cmdline order is kept)",
    "  --indent N          Spaces per nesting level (default: 4)",
    "  --format FORMAT     Output format: wcl, json or yaml (default: wcl)",
    "  --search-order L    Comma-separated sections used for scoped lookup",
    "  --get KEY           Print the fully resolved value of KEY (repeatable)",
    "  --command N         Print the command line built from exec_N",
    "  --vars              List variables referenced by $\x7b...\x7d forms",
    "  --verbose           Enable debug logging",
    "  --help              Show this help message",
    "  --version           Show version information",
    "",
    "Examples:",
    "  wclkit wrapper_input.wcl --sorted",
    "  wclkit wrapper_input.wcl --format json",
    "  wclkit wrapper_input.wcl --search-order module --get filename",
    "  cat config.wcl | wclkit --command 1"].flatMap (·.toList ++ ['\n'])

/-- Prints a line. -/
def printLine (line : Text) : Traced Unit := .note (.printed (line ++ ['\n']))

/-- Prints lines. -/
def printLines (lines : List Text) : Traced Unit := .note (.printed (lines.flatMap (· ++ ['\n'])))

/-- Reads the document that the options name. -/
def loadDocument (host : Host) (stdin : Source) (o : Options) : Traced Document :=
  let reader : Reader := { host }
  match o.path with
  | some path => reader.load path
  | none => do
    .note (.message .info "Reading WCL from stdin".toList)
    reader.parse "stdin".toList stdin

/-- Prints the values of a key, one for each combination. -/
def printValues (d : Document) (key : Text) : Traced Unit := do
  match ← .ofExcept (d.search {} true key) with
  | none => .fail (.missingKey key)
  | some (.nested _) => .fail (.notScalar key)
  | some (.scalar value) =>
    let resolved ← Context.resolve { document := d, expand := true } value
    .debug (key ++ " resolved to ".toList ++ Text.natText resolved.size ++ " value(s)".toList)
    printLines (resolved.combinations.map Combination.text)

/-- Prints the values of keys in turn. -/
def printAllValues (d : Document) : List Text → Traced Unit
  | [] => pure ()
  | key :: keys => do
    printValues d key
    printAllValues d keys

/-- Prints the whole document. -/
def printDocument (d : Document) (o : Options) : Traced Unit := do
  .debug ("Writing document as ".toList ++ o.format.name)
  match o.format with
  | .wcl => .note (.printed (d.write o.sorted o.indent))
  | .json => printLine d.prettyJson
  | .yaml => .note (.printed d.yaml)

/-- Does what the options ask for. -/
def perform (host : Host) (stdin : Source) (o : Options) : Traced Unit := do
  .debug (programName ++ " v".toList ++ programVersion)
  let loaded ← loadDocument host stdin o
  .note (.message .info ("Loaded document with ".toList ++ Text.natText loaded.size
    ++ " top-level entries".toList))
  let d := loaded.withSearchOrder o.searchOrder
  if o.listVariables then printLines d.referencedVariables
  else match o.exec with
    | some exec => do printLine (← Context.commandLine { document := d } exec).line
    | none =>
      if o.keys.isEmpty then printDocument d o else printAllValues d o.keys

/-- What the program leaves behind, and the log of how it came about. -/
structure Outcome where
  code : Nat
  stdout : Text
  stderr : Text
  log : Log := []

/-- How an event shows on standard error. -/
def logLine (verbose : Bool) : Event → Text
  | .message .debug t => if verbose then t ++ ['\n'] else []
  | .message .info t => t ++ ['\n']
  | .message .warning t => "[WARN] ".toList ++ t ++ ['\n']
  | _ => []

/-- How an error shows on standard error. -/
def errorLine (message : Text) : Text := "\nError: ".toList ++ message ++ ['\n']

/-- What the program leaves behind at an error.  Where it breaks off there is a bare
message, and the code is another one. -/
def failed (e : Error) (stdout stderr : Text) (log : Log) : Outcome :=
  match e with
  | .tooWide _ => ⟨101, stdout, stderr ++ e.message ++ ['\n'], log⟩
  | _ => ⟨1, stdout, stderr ++ errorLine e.message, log⟩

/-- Runs the program. -/
def run (host : Host) (stdin : Source) (args : List Text) : Outcome :=
  match Options.parse {} args with
  | .error message => ⟨1, usage, "Error: ".toList ++ message ++ "\n\n".toList ++ errorLine message, []⟩
  | .ok .help => ⟨0, usage, [], []⟩
  | .ok .version => ⟨0, programName ++ ' ' :: programVersion ++ ['\n'], [], []⟩
  | .ok (.run o) =>
    let x := perform host stdin o
    let log := x.log.flatMap (logLine o.verbose)
    match x.result with
    | .ok _ => ⟨0, x.log.output, log, x.log⟩
    | .error e => failed e x.log.output log x.log

end Wcl.Cli
