import Bindery.Command.Job
import Bindery.Text.CommandWords

/-!
# Driving a binding

The command that drives the work on one module: the external parser of the headers writes the
declaration dump, unless an existing dump is to be used, and then the module is prepared. A program
that fails ends the command with its own exit status.
-/

namespace Bindery

/-- What a drive is asked to do. -/
structure DriveOptions where
  /-- The configuration file. -/
  config : String
  /-- The command of the external parser. -/
  parser : Option String := none
  /-- The directory for the dump and the results. -/
  outDir : WrittenPath
  /-- Whether the library of inline functions is built. -/
  buildInlines : Bool := false
  /-- Whether the preparation is a rehearsal. -/
  dryRun : Bool := false

namespace DriveOptions

/-- The arguments of the command. -/
def grammar : Grammar where
  options := [("--config", .value), ("--parser-cmd", .value), ("--out-dir", .value),
    ("--build-inlines", .flag), ("--dry-run", .flag)]
  required := ["--config"]
  purpose := "Parse a Qt module and prepare its declarations for binding."
  explanations := [
    ("--config", "Path to the module configuration file"),
    ("--parser-cmd", "External parser command writing the declaration dump; '\x7bout\x7d' is " ++
      "replaced with the dump path. Skipped when omitted."),
    ("--out-dir", "Output directory (default: bindings_out)"),
    ("--build-inlines", "Build the inlines shim library after processing"),
    ("--dry-run", "Process and report without writing the declaration tree")]

/-- How it is written that no value was given. -/
def noValue : String := "[]"

/-- The directory for the results, unless one is given. -/
def defaultOutDir : String := "bindings_out"

/-- What the arguments of the command ask for. If a directory is given it must have a name. -/
def ofArguments (a : Arguments) : Except Fault DriveOptions := do
  let outDir ← match a.has "--out-dir", a.value? "--out-dir" with
    | false, _ => .ok defaultOutDir
    | true, some path => .ok path
    | true, none => .error .wrongKind
  return {
    config := (a.value? "--config").getD noValue
    parser := a.given? "--parser-cmd"
    outDir := .ofString outDir
    buildInlines := a.hasFlag "--build-inlines"
    dryRun := a.hasFlag "--dry-run" }

/-- The declaration dump. -/
def dump (o : DriveOptions) : WrittenPath := o.outDir.append (.ofString "declarations.yml")

/-- The program and the arguments that prepare the module, given how the preparing program is
called. -/
def preparation (o : DriveOptions) (program : List String) : List String :=
  program ++ [o.dump.render, o.outDir.render, "--config", o.config, "--request-inlines"] ++
    (if o.buildInlines then ["--build-inlines"] else []) ++
    (if o.dryRun then ["--dry-run"] else [])

/-- The mark for the dump in the parser's command. -/
def dumpMark : String := "\x7bout\x7d"

/-- The program and the arguments of a parser's command; the mark stands for the dump. -/
def parserWords (o : DriveOptions) (command : String) : Except Fault (List String) :=
  match Text.commandWords command with
  | some words => .ok (words.map fun word =>
    String.ofList (Text.replaceAll dumpMark.toList o.dump.render.toList word.toList))
  | none => .error .malformedText

end DriveOptions

/-- Runs a program that has to succeed. -/
def runStep (arguments : List String) : Job Unit := do
  let command := " ".intercalate arguments
  Job.say ("Running: " ++ command)
  match ← Job.runProgram arguments with
  | .exited 0 => pure ()
  | .exited status =>
    Job.say ("Error executing command: " ++ command)
    throw (.exit status "")
  | .missing => Job.fail .missingProgram

/-- Has the headers parsed, if a parser is given. -/
def DriveOptions.parseHeaders (o : DriveOptions) : Job Unit := do
  match o.parser with
  | some command =>
    Job.say "--- Step 1: Parsing module headers ---"
    let words ← Job.ofExcept (o.parserWords command)
    runStep words
  | none => Job.say "--- Step 1: Skipped (using existing declaration dump) ---"

/-- Drives the work on a module. -/
def drive (program : List String) (o : DriveOptions) : Job Unit := do
  Job.makeDirectories o.outDir
  o.parseHeaders
  Job.say "\n--- Step 2: Processing declarations ---"
  runStep (o.preparation program)
  Job.say ("\nSUCCESS: Processed declarations written to " ++ o.outDir.render)

/-- The command that drives the work on a module. -/
def driveCommand (program given : List String) : Job Unit := do
  let arguments ← Job.arguments DriveOptions.grammar given
  drive program (← Job.ofExcept (DriveOptions.ofArguments arguments))

end Bindery
