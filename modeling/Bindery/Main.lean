import Bindery.Command.Drive
import Bindery.Command.Prepare
import Bindery.Document.Reading

/-!
# The program

The program looks at the part of the disk that a command can read, lets the command do its job on
that picture, and carries out what the command changed. The word `drive` in front of the arguments
asks for a drive, everything else for a preparation. No other programs are started: the preparation
that is a step of a drive runs inside the program, and every other program counts as missing.
-/

namespace Bindery.Program

/-- A place as an absolute path. -/
def pathText (p : Place) : String := (WrittenPath.mk 1 p).render

/-- Whether a directory stands at a path. -/
def isDirectory (path : String) : IO Bool := do
  try
    let _ ← IO.FS.realPath (path ++ "/.")
    return true
  catch _ => return false

/-- The text of the file at a path, if there is one. -/
def fileText? (path : String) : IO (Option String) := do
  try
    return some (← IO.FS.readFile path)
  catch _ => return none

/-- What a text holds. -/
def contentOf (text : String) : FileContent :=
  match Value.ofDocument text with
  | .ok v => .document v
  | .error why => .unreadable why

/-- The picture with everything on the way along the names of a path. -/
def lookAlong (d : Disk) (here : Place) : List String → IO Disk
  | [] => return d
  | name :: rest => do
    let next := Disk.step here name
    if ← isDirectory (pathText next) then
      lookAlong { d with directories := d.directories ++ [next] } next rest
    else
      match ← fileText? (pathText next) with
      | some text => return { d with files := Disk.putFile next (contentOf text) d.files }
      | none => return d

/-- The picture with everything on the way along a path. -/
def look (d : Disk) (p : WrittenPath) : IO Disk := lookAlong d (d.start p) p.components

/-- The paths that a preparation reads whatever its configuration says. -/
def firstPaths (o : PrepareOptions) : List WrittenPath :=
  (o.config.map WrittenPath.ofString).toList ++ o.dump.toList ++ o.outDir.toList

/-- The further paths that a preparation reads under its configuration. -/
def configuredPaths (o : PrepareOptions) : Job (List WrittenPath) := do
  let info ← Job.ofExcept (ModuleInfo.ofConfig (← o.settings))
  let docs := ((o.docs.map Value.text).getD info.docs).display
  let headers := WrittenPath.join info.includePath info.qualifiedModule
  return .ofString headers :: Sources.corpusPaths (.ofString docs) info.module

/-- The part of the disk that a preparation can read. -/
def picture (given : List String) : IO Disk := do
  let here := (WrittenPath.ofString (toString (← IO.currentDir))).components
  let empty : Disk := { workingDirectory := here }
  match PrepareOptions.grammar.parse given with
  | .error _ => return empty
  | .ok arguments =>
    let o := PrepareOptions.ofArguments arguments
    let d ← (firstPaths o).foldlM look empty
    match (configuredPaths o).run { disk := d } with
    | .ok paths _ => paths.foldlM look d
    | .error _ _ => return d

/-- Makes the directories and writes the files that a command left on its picture of the disk. -/
def carryOut (older newer : Disk) : IO Unit := do
  for p in newer.directories do
    if !older.hasDirectory p then IO.FS.createDirAll (pathText p)
  for f in newer.files do
    if older.files.lookup f.1 ≠ some f.2 then
      match f.2 with
      | .document v => IO.FS.writeFile (pathText f.1) (v.canonical ++ "\n")
      | .unreadable _ => pure ()

/-- What an ending has to say. -/
def complaint : Ending → String
  | .exit _ text => text
  | .refused => "The arguments are not understood; --help shows them.\n"
  | .crash fault => "Unexpected input: " ++ fault.message ++ "\n"

/-- Shows what a command printed and said, and gives its exit status. -/
def showEnd (b : Bench) (ending : Ending) : IO UInt32 := do
  IO.print b.printed
  for warning in b.warnings do
    IO.eprintln ("WARNING: " ++ warning)
  IO.eprint (complaint ending)
  return UInt32.ofNat ending.status.toNat

/-- Prepares a module. -/
def runPrepare (given : List String) : IO UInt32 := do
  let disk ← picture given
  let outcomes := [Outcome.missing, .missing]
  let (b, ending) := Job.conclude (prepareCommand given) { disk, outcomes }
  carryOut disk b.disk
  showEnd b ending

/-- The name under which the preparation is called as a step of a drive. -/
def preparationName : List String := ["bindery"]

/-- How the steps of a drive end, up to the first that fails. -/
def runSteps : List Command → IO (List Outcome)
  | [] => return []
  | step :: rest => do
    if preparationName.isPrefixOf step.arguments then
      let status ← runPrepare (step.arguments.drop preparationName.length)
      if status = 0 then return .exited 0 :: (← runSteps rest)
      else return [.exited status.toNat]
    else return [.missing]

/-- Drives the work on a module. -/
def runDrive (given : List String) : IO UInt32 := do
  let disk ← picture []
  let job := driveCommand preparationName given
  let (plan, _) := job.conclude { disk }
  carryOut disk plan.disk
  let outcomes ← runSteps plan.commands
  let (b, ending) := job.conclude { disk, outcomes }
  showEnd b ending

end Bindery.Program

/-- Runs the command that the arguments ask for. -/
def main (arguments : List String) : IO UInt32 :=
  match arguments with
  | "drive" :: given => Bindery.Program.runDrive given
  | given => Bindery.Program.runPrepare given
