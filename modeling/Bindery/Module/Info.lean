import Bindery.WrittenPath
import Bindery.Module.Name
import Bindery.Value.Access

/-!
# Module information

What the configuration says about the library that is being bound. Settings that are only handed on
keep whatever value they were given; absent ones take their defaults.
-/

namespace Bindery

namespace Platform

/-- The platform the program runs on. -/
def host : Value := .text "linux"

/-- Whether a setting names the family with framework bundles. -/
def isMacos (setting : Value) : Bool := setting == .text "macos"

/-- Whether a setting names the family with release subdirectories. -/
def isWindows (setting : Value) : Bool := setting == .text "windows"

end Platform

/-- Everything that is known about the module being bound. -/
structure ModuleInfo where
  /-- The library's file name. -/
  library : String
  /-- The directory with the headers of all modules. -/
  includePath : String
  /-- The directory with the libraries. -/
  libraryPath : String
  /-- The target of the parser. -/
  target : Value
  /-- Further directories with headers. -/
  systemIncludeDirs : List Value
  /-- Directories with framework bundles. -/
  frameworkDirs : List Value
  /-- The directory of the documentation corpus. -/
  docs : Value
  /-- The program that writes makefiles. -/
  qmake : Value
  /-- The program that builds. -/
  make : Value
  /-- The platform the binding is for. -/
  platform : Value
  /-- The module. -/
  module : String
  deriving DecidableEq

namespace ModuleInfo

/-- A path setting, which must be a text. -/
def pathOf (v : Value) : Except Fault String :=
  match v.orElse (.text "") with
  | .text s => .ok s
  | v => .error (.noSuchPart v.kindWord "replace")

/-- Reads the module's section of a configuration. -/
def ofConfig (config : Value) : Except Fault ModuleInfo := do
  let configured ← match config with
    | .mapping es => pure ((es.lookup "module").getD (.mapping []))
    | v => throw (.noSuchPart v.kindWord "get")
  let library ← configured.entry "library"
  if !library.isGiven then throw .missingLibrary
  let setting (key : String) (default : Value) : Except Fault Value :=
    (configured.entry key).map fun v => v.orElse default
  let includePath ← configured.entry "include_path"
  let libraryPath ← configured.entry "library_path"
  let target ← setting "target" (.text "")
  let systemIncludeDirs ← (← configured.entry "system_include_dirs").elementsIfGiven
  let frameworkDirs ← (← configured.entry "framework_dirs").elementsIfGiven
  let docs ← setting "docs" (.text "")
  let qmake ← setting "qmake" (.text "qmake")
  let make ← setting "make" (.text "make")
  let platform ← setting "platform" Platform.host
  let includePath ← pathOf includePath
  let libraryPath ← pathOf libraryPath
  let module ← ModuleName.ofValue library
  return {
    library := library.display
    includePath, libraryPath, target, systemIncludeDirs, frameworkDirs, docs, qmake, make
    platform, module }

/-- The module's name with the library's prefix. -/
def qualifiedModule (info : ModuleInfo) : String := "Qt" ++ info.module

/-- The bundle of the library. -/
def framework (info : ModuleInfo) : String :=
  WrittenPath.join info.libraryPath (info.library ++ ".framework")

/-- The directory with the module's own headers. -/
def includeRoot (info : ModuleInfo) : String :=
  if Platform.isMacos info.platform then WrittenPath.join info.framework "Headers"
  else WrittenPath.join info.includePath info.qualifiedModule

end ModuleInfo

end Bindery
