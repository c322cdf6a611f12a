import Bindery.Module.Info
import Bindery.Work

/-!
# The library of inline functions

Inline functions have no symbols that a binding could call. A small library that instantiates them
is built by external tools; the request says what to build and where.
-/

namespace Bindery

/-- What to build. Requests are made outside of the library too, so nobody has checked what kind of
value each part is. -/
structure InlinesRequest where
  /-- The module the library is for. -/
  module : Value
  /-- The name of the library. -/
  libraryName : Value
  /-- The directory with the project file. -/
  outputDir : Value
  /-- The program that writes makefiles. -/
  qmake : Value := .text "qmake"
  /-- The program that builds. -/
  make : Value := .text "make"
  /-- The platform the library is for. -/
  platform : Value := Platform.host
  deriving DecidableEq

namespace InlinesRequest

/-- The file name of the library on its platform. -/
def libraryFile (r : InlinesRequest) : String :=
  let name := r.libraryName.display
  if Platform.isWindows r.platform then name ++ ".dll"
  else if Platform.isMacos r.platform then "lib" ++ name ++ ".dylib"
  else "lib" ++ name ++ ".so"

/-- The directory with the project file, which must be a text. -/
def directory (r : InlinesRequest) : Except Fault String :=
  match r.outputDir with
  | .text directory => .ok directory
  | _ => .error .wrongKind

/-- Where the library is expected to land. -/
def libraryPath (r : InlinesRequest) : Except Fault String :=
  r.directory.map fun directory =>
    let target :=
      if Platform.isWindows r.platform then WrittenPath.join directory "release" else directory
    WrittenPath.join target r.libraryFile

/-- The project file. -/
def projectFile (r : InlinesRequest) : Except Fault String :=
  r.directory.map fun directory =>
    WrittenPath.join directory (r.libraryName.display ++ ".pro")

end InlinesRequest

/-- The status that stands for a program that does not exist. -/
def missingStatus : Int := 127

/-- How a tool failed, if it did. -/
def Outcome.failure? : Outcome → Option Int
  | .exited status => if status = 0 then none else some status
  | .missing => some missingStatus

/-- Runs a tool, which must be named by a text, and stops if it fails. -/
def runTool (tool : Value) (arguments : List String) (directory : String) (w : Work) : Work :=
  match tool with
  | .text program =>
    let command : Command := ⟨program :: arguments, some directory⟩
    let started := { w with
      printed := w.printed ++ "Running: " ++ " ".intercalate command.arguments ++ "\n"
      commands := w.commands ++ [command]
      outcomes := w.outcomes.drop 1 }
    match (w.outcomes.head?.getD (.exited 0)).failure? with
    | some status => started.stop (.toolFailed (WrittenPath.ofString program).fileName status)
    | none => started
  | _ => w.stop .wrongKind

/-- Builds the library of inline functions. -/
def buildInlines (r : InlinesRequest) (w : Work) : Work :=
  w.require r.directory fun directory w =>
    w.require r.projectFile fun projectFile w =>
      (runTool r.qmake [projectFile] directory w).andThen (runTool r.make [] directory)

/-- Records the request, and builds the library if a builder is at hand. -/
def requestInlines (r : InlinesRequest) (hasBuilder : Bool) (w : Work) : Work :=
  w.require r.libraryPath fun libraryPath w =>
    let w := { w with tally := { w.tally with libraryPath := some libraryPath } }
    if hasBuilder then (buildInlines r w).andThen fun w => w.count "built" else w

end Bindery
