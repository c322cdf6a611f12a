import Bindery.Command.Job
import Bindery.Config.Defaults
import Bindery.Corpus

/-!
# Sources of a run

The files that a run starts from: the configuration, the declaration dump and the documentation of
the module. A configuration or a documentation that is not there stands for an empty one; a dump
must be there.
-/

namespace Bindery.Sources

/-- The document in a file. -/
def readDocument (path : WrittenPath) : Job Value := do
  Job.ofExcept ((← Job.disk).read path)

/-- The configuration: the user's settings, if a path leads to some, over the defaults. -/
def loadConfig (path : Option String) : Job Value := do
  match path.map WrittenPath.ofString with
  | none => Job.ofExcept (Config.load none)
  | some path =>
    if ← Job.ofExcept ((← Job.disk).holds path) then
      let user ← readDocument path
      Job.ofExcept (Config.load (some user))
    else Job.ofExcept (Config.load none)

/-- The complaint that a dump is missing. -/
def missingDump (path : WrittenPath) : String :=
  "Declaration dump not found: " ++ path.render ++ "\n"

/-- A fault of reading a dump: a text that is no document is a fault of the dump. -/
def dumpFault (source : String) (fault : Fault) : Fault :=
  match fault with
  | .disk (.unreadable why) => if why.isOfText then .unreadableDump source else fault
  | _ => fault

/-- The tree in a declaration dump. -/
def loadTree (path : WrittenPath) : Job Tree := do
  if ← Job.ofExcept ((← Job.disk).holds path) then
    let document ← Job.ofExcept (((← Job.disk).read path).mapError (dumpFault path.render))
    Job.ofExcept (Tree.ofDocument path.render document)
  else throw (.exit 1 (missingDump path))

/-- Where the documentation of a module may be: under the module's full name or its own. -/
def corpusPaths (directory : WrittenPath) (module : String) : List WrittenPath :=
  ["Qt" ++ module ++ ".yml", module ++ ".yml"].map fun file =>
    directory.append (WrittenPath.ofString file)

/-- The warning that a module has no documentation. -/
def missingCorpus (directory : WrittenPath) (module : String) : String :=
  "No documentation corpus for module " ++ module ++ " under " ++ directory.render

/-- The documentation of a module in a directory, empty if no directory is given. -/
def loadCorpus (directory : Value) (module : String) : Job Corpus := do
  if directory.isGiven then
    match directory with
    | .text directory =>
      let directory := WrittenPath.ofString directory
      let disk ← Job.disk
      match ← Job.ofExcept ((corpusPaths directory module).findM? disk.holds) with
      | some path =>
        let document ← readDocument path
        Job.ofExcept (Corpus.ofDocument document)
      | none =>
        Job.warn (missingCorpus directory module)
        return {}
    | _ => Job.fail .wrongKind
  else return {}

end Bindery.Sources
