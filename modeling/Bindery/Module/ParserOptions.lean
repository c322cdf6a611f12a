import Bindery.Module.Info

/-!
# Parser options

What the external parser and the driver of the binding are told about a module.
-/

namespace Bindery

/-- Options for the parser and the binding's driver. -/
structure ParserOptions where
  /-- The name of the binding library. -/
  libraryName : String
  /-- The namespace of the binding. -/
  outputNamespace : String
  /-- The target the headers are parsed for. -/
  targetTriple : Value
  /-- The headers to parse. -/
  headers : List String
  /-- Directories with system headers. -/
  systemIncludeDirs : List Value
  /-- Directories with headers. -/
  includeDirs : List String
  /-- Directories with libraries. -/
  libraryDirs : List String
  /-- The libraries to read symbols from. -/
  libraries : List String
  /-- Further arguments. -/
  arguments : List String
  /-- Hand-written sources of the binding. -/
  codeFiles : List String
  /-- Virtual functions that the binding patches. -/
  patchedVirtualFunctions : List String
  deriving DecidableEq

namespace ParserOptions

/-- The hand-written sources that belong to some modules. -/
def moduleCodeFiles (module : String) : List String :=
  match module with
  | "Core" => ["QObject.cs", "QChar.cs", "_iobuf.cs"]
  | "Gui" => ["IQAccessibleActionInterface.cs"]
  | "Qml" => ["IQQmlParserStatus.cs"]
  | _ => []

/-- The options of a module. `isDirectory` says which directories exist. -/
def ofInfo (info : ModuleInfo) (codeFilesDir : String) (isDirectory : String → Bool) :
    ParserOptions :=
  let onMacos {α : Type} (items : List α) : List α :=
    if Platform.isMacos info.platform then items else []
  let moduleInclude := WrittenPath.join info.includePath info.qualifiedModule
  { libraryName := info.qualifiedModule ++ "Sharp"
    outputNamespace := info.qualifiedModule
    targetTriple := info.target
    headers := [info.qualifiedModule]
    systemIncludeDirs := info.systemIncludeDirs
    includeDirs :=
      onMacos [WrittenPath.join info.framework "Headers"] ++ [info.includePath] ++
        (if isDirectory moduleInclude then [moduleInclude] else [])
    libraryDirs := onMacos [info.framework] ++ [info.libraryPath]
    libraries := [info.library]
    arguments :=
      onMacos (info.frameworkDirs.map (fun d => "-F" ++ d.display) ++ ["-F" ++ info.libraryPath])
    codeFiles := (moduleCodeFiles info.module).map (WrittenPath.join codeFilesDir)
    patchedVirtualFunctions := ["qt_metacall"] }

/-- The name of the library of inline functions. -/
def inlinesLibraryName (o : ParserOptions) : String := o.libraryName ++ "-inlines"

/-- The file name of the binding library. -/
def bindingLibraryFile (o : ParserOptions) : String := o.libraryName ++ ".dll"

/-- The options as a record. -/
def toValue (o : ParserOptions) : Value :=
  let texts (ss : List String) : Value := .list (ss.map Value.text)
  .mapping [("library_name", .text o.libraryName), ("output_namespace", .text o.outputNamespace),
    ("target_triple", o.targetTriple), ("headers", texts o.headers),
    ("system_include_dirs", .list o.systemIncludeDirs), ("include_dirs", texts o.includeDirs),
    ("library_dirs", texts o.libraryDirs), ("libraries", texts o.libraries),
    ("arguments", texts o.arguments), ("code_files", texts o.codeFiles),
    ("patched_virtual_functions", texts o.patchedVirtualFunctions)]

end ParserOptions

end Bindery
