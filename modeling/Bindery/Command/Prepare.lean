import Bindery.Command.Sources
import Bindery.Run
import Bindery.Template

/-!
# Preparing a module

The command that prepares the declarations of one module. It settles everything first: the
configuration, the dump, the documentation and all passes. Only then does it deliver, that is, write
the report and, unless the run is a rehearsal, the prepared tree.
-/

namespace Bindery

/-- What a preparation is asked to do. -/
structure PrepareOptions where
  /-- The declaration dump. -/
  dump : Option WrittenPath
  /-- The directory for the report and the tree. -/
  outDir : Option WrittenPath
  /-- The file with the user's configuration. -/
  config : Option String := none
  /-- Settings of the module that replace the configured ones. -/
  overrides : List (String × String) := []
  /-- The directory of the documentation, in place of the configured one. -/
  docs : Option String := none
  /-- Whether the report mentions the library of inline functions. -/
  requestInlines : Bool := false
  /-- Whether the library of inline functions is built. -/
  buildInlines : Bool := false
  /-- Whether the run is a rehearsal, which writes the report alone. -/
  dryRun : Bool := false

namespace PrepareOptions

/-- The arguments of the command. -/
def grammar : Grammar where
  options := [("--config", .value), ("--library", .value), ("--include-path", .value),
    ("--library-path", .value), ("--platform", .choice ["linux", "macos", "windows"]),
    ("--docs", .value), ("--request-inlines", .flag), ("--build-inlines", .flag),
    ("--dry-run", .flag), ("--verbose", .flag)]
  operands := ["tree", "out_dir"]
  purpose := "Classify, normalize and document the parsed declarations of a Qt module before " ++
    "binding emission."
  explanations := [
    ("tree", "Declaration dump written by the parser (YAML or JSON)"),
    ("out_dir", "Output directory for the processed tree and the run report"),
    ("--config", "Path to configuration file"),
    ("--library", "Qt library file name, e.g. Qt5Core"),
    ("--include-path", "Qt include directory"),
    ("--library-path", "Qt library directory"),
    ("--platform", "Target platform (default: the host platform)"),
    ("--docs", "Directory holding the documentation corpus"),
    ("--request-inlines", "Record the inlines shim build request in the report"),
    ("--build-inlines", "Build the inlines shim with qmake and make after processing"),
    ("--dry-run", "Run every pass and write the report, but not the processed tree"),
    ("--verbose", "Enable debug logging")]

/-- The settings that options replace. -/
def overriding : List (String × String) :=
  [("--library", "library"), ("--include-path", "include_path"),
    ("--library-path", "library_path"), ("--platform", "platform")]

/-- What the arguments of the command ask for. -/
def ofArguments (a : Arguments) : PrepareOptions where
  dump := (a.value? "tree").map .ofString
  outDir := (a.value? "out_dir").map .ofString
  config := a.given? "--config"
  overrides := overriding.filterMap fun o => (a.given? o.1).map fun value => (o.2, value)
  docs := a.given? "--docs"
  requestInlines := a.hasFlag "--request-inlines"
  buildInlines := a.hasFlag "--build-inlines"
  dryRun := a.hasFlag "--dry-run"

end PrepareOptions

/-- A module that is prepared but not yet delivered. -/
structure Prepared where
  /-- The configuration. -/
  config : Value
  /-- The module. -/
  info : ModuleInfo
  /-- What the parser of the headers is told. -/
  parserOptions : ParserOptions
  /-- The directory for the report and the tree. -/
  outDir : WrittenPath
  /-- The passes with what they recorded. -/
  pipeline : Pipeline
  /-- The prepared tree. -/
  tree : Tree

namespace Prepared

/-- The report on the preparation. -/
def report (p : Prepared) : Value :=
  Report.toValue
    { configHash := Config.fingerprint p.config
      module := .text p.info.module
      passes := p.pipeline.stats
      extra := [("parser_options", p.parserOptions.toValue)] }
    p.tree

/-- Where the report goes. -/
def reportPath (p : Prepared) : Except Fault WrittenPath := do
  match ← (← p.config.require "output").require "report_file" with
  | .text file => return p.outDir.append (.ofString file)
  | _ => throw .wrongKind

/-- Where the tree goes; its file is named by a template that may mention the module. -/
def treePath (p : Prepared) : Except Fault WrittenPath := do
  match ← (← p.config.require "output").require "tree_file" with
  | .text template =>
    return p.outDir.append (.ofString (← Template.fill "module" p.info.module template))
  | v => throw (.noSuchPart v.kindWord "format")

end Prepared

/-- The configuration of a preparation. -/
def PrepareOptions.settings (o : PrepareOptions) : Job Value := do
  let config ← Sources.loadConfig o.config
  Job.ofExcept (o.overrides.foldlM (fun config e => Config.override config e.1 e.2) config)

/-- The library of inline functions that a preparation asks for, if it does. -/
def PrepareOptions.inlinesRequest (o : PrepareOptions) (info : ModuleInfo)
    (parserOptions : ParserOptions) (outDir : WrittenPath) : Option InlinesRequest :=
  if o.buildInlines || o.requestInlines then
    some
      { module := .text info.module
        libraryName := .text parserOptions.inlinesLibraryName
        outputDir := .text outDir.render
        qmake := info.qmake
        make := info.make
        platform := info.platform }
  else none

/-- Runs the passes on a tree. -/
def runPrepared (info : ModuleInfo) (config : Value) (corpus : Corpus)
    (request : Option InlinesRequest) (hasBuilder : Bool) (tree : Tree) : Job (Pipeline × Tree) :=
  fun b =>
    let (pipeline, w) :=
      runModule info config corpus request hasBuilder { tree, outcomes := b.outcomes }
    let b := { b with
      outcomes := w.outcomes
      commands := b.commands ++ w.commands
      warnings := b.warnings ++ w.warnings
      printed := b.printed ++ w.printed }
    match w.fault with
    | some fault => .error (.ofFault fault) b
    | none => .ok (pipeline.getD [], w.tree) b

/-- Settles everything about a module; of the disk only the directory for the results changes. -/
def PrepareOptions.settle (o : PrepareOptions) : Job Prepared := do
  let config ← o.settings
  let info ← Job.ofExcept (ModuleInfo.ofConfig config)
  Job.say ("Processing module " ++ info.module ++ " (include root: " ++ info.includeRoot ++ ")")
  let tree ← Sources.loadTree (← Job.operand o.dump)
  let corpus ← Sources.loadCorpus ((o.docs.map Value.text).getD info.docs) info.module
  let disk ← Job.disk
  let parserOptions := ParserOptions.ofInfo info "" disk.isDirectoryAt
  let outDir ← Job.ofExcept (disk.absolute (← Job.operand o.outDir))
  Job.makeDirectories outDir
  let request := o.inlinesRequest info parserOptions outDir
  let (pipeline, tree) ←
    runPrepared info config corpus request (o.buildInlines && !o.dryRun) tree
  return { config, info, parserOptions, outDir, pipeline, tree }

/-- Writes the report. -/
def Prepared.deliverReport (p : Prepared) : Job WrittenPath := do
  let path ← Job.ofExcept p.reportPath
  Job.changeDisk fun d => d.write path (.document p.report)
  return path

/-- Writes the tree, in a directory that is made if it is missing. -/
def Prepared.deliverTree (p : Prepared) : Job WrittenPath := do
  let path ← Job.ofExcept p.treePath
  Job.makeDirectories path.parent
  Job.changeDisk fun d => d.write path (.document p.tree.toDocument)
  return path

/-- Prepares a module. -/
def prepare (o : PrepareOptions) : Job Unit := do
  let prepared ← o.settle
  let report ← prepared.deliverReport
  if o.dryRun then
    Job.say ("Dry run complete. Report generated at " ++ report.render)
  else
    let tree ← prepared.deliverTree
    Job.say ("Wrote processed declaration tree to: " ++ tree.render)

/-- The command that prepares a module. -/
def prepareCommand (given : List String) : Job Unit := do
  let arguments ← Job.arguments PrepareOptions.grammar given
  prepare (.ofArguments arguments)

end Bindery
