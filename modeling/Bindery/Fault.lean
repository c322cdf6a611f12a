import Bindery.Stage
import Bindery.Value.Display
import Bindery.Document.Cursor

/-!
# Faults

Everything that can stop an operation, by its cause. The causes that a user of the library can act
on have a message; the others say which kind of input was not foreseen.
-/

namespace Bindery

/-- Why something on a disk cannot be read or made. -/
inductive DiskFault where
  /-- Nothing is there. -/
  | missing
  /-- A step of the path leads through a file. -/
  | throughFile
  /-- A directory stands where a file is needed. -/
  | isDirectory
  /-- A file stands where a directory is to be made. -/
  | isFile
  /-- A name, or the path as a whole, is longer than a disk allows. -/
  | tooLong
  /-- The path holds a character that no path may hold. -/
  | illegalPath
  /-- The path holds half of a character. -/
  | brokenPath
  /-- The file's text is no document. -/
  | unreadable (why : DocumentFault)
  deriving DecidableEq, Repr

/-- Why an operation stopped. -/
inductive Fault where
  /-- A value is of a kind that the operation does not take. -/
  | wrongKind
  /-- A value of the given kind has no part of the given name. -/
  | noSuchPart (kind part : String)
  /-- A mapping lacks a key that it must have. -/
  | missingKey (key : String)
  /-- A value is none of the choices known under the given name. -/
  | unknownChoice (value : Value) (choices : String)
  /-- A text does not follow the form that it must have. -/
  | malformedText
  /-- A step was left open by whoever declared it. -/
  | undefinedStep
  /-- A program to be run does not exist. -/
  | missingProgram
  /-- Something on the disk is not as it should be. -/
  | disk (cause : DiskFault)
  /-- A position lies outside of what it counts in. -/
  | outOfRange
  /-- A text would be longer than any memory. -/
  | outOfMemory
  /-- A number is beyond all code points. -/
  | codeTooLarge
  /-- The configuration names a kind of declaration that cannot be renamed. -/
  | unknownTarget (name : Value)
  /-- The configuration names no known casing pattern. -/
  | unknownPattern (pattern : Value)
  /-- The configuration names no library. -/
  | missingLibrary
  /-- No module name can be read off the library's file name. -/
  | unnamedModule (library : String)
  /-- A dump record is of no known kind of declaration. -/
  | unknownKind (source : String) (kind : Value)
  /-- A dump cannot be read at all. -/
  | unreadableDump (source : String)
  /-- A dump is not a mapping. -/
  | shapelessDump (source : String)
  /-- A unit record of a dump is not a mapping. -/
  | malformedUnit (source : String) (record : Value)
  /-- A declaration record of a dump cannot be used. -/
  | malformedRecord (source : String) (reason : Fault)
  /-- A policy names a declaration that the tree does not define. -/
  | missingDeclaration (step : String) (module : Value) (name : String)
  /-- A pass was to run on a tree that is not ready for it. -/
  | tooEarly (pass : String) (needed current : Stage)
  /-- An external tool failed. -/
  | toolFailed (tool : String) (status : Int)
  deriving DecidableEq

namespace Fault

/-- What a fault says. -/
def message : Fault → String
  | wrongKind => "unexpected kind of value"
  | noSuchPart kind part => "'" ++ kind ++ "' object has no attribute '" ++ part ++ "'"
  | missingKey key => (Value.text key).literal
  | unknownChoice value choices => value.literal ++ " is not a valid " ++ choices
  | malformedText => "malformed text"
  | undefinedStep => ""
  | missingProgram => "no such program"
  | disk _ => "the disk is not as expected"
  | outOfRange => "position out of range"
  | outOfMemory => "text too long"
  | codeTooLarge => "no such code point"
  | unknownTarget name => "Unknown rename target '" ++ name.display ++ "' in 'rename.targets'"
  | unknownPattern pattern => "Unknown rename pattern '" ++ pattern.display ++ "'"
  | missingLibrary => "Configuration is missing 'module.library'"
  | unnamedModule library => "Cannot derive a Qt module name from library '" ++ library ++ "'"
  | unknownKind source kind => source ++ ": unknown declaration kind '" ++ kind.display ++ "'"
  | unreadableDump source => source ++ ": cannot parse declaration dump"
  | shapelessDump source =>
    source ++ ": declaration dump must be a mapping with 'translation_units'"
  | malformedUnit source record =>
    source ++ ": malformed translation unit record: " ++ record.literal
  | malformedRecord source reason =>
    source ++ ": malformed declaration record: " ++ reason.message
  | missingDeclaration step module name =>
    "[" ++ step ++ "] module '" ++ module.display ++ "': expected declaration '" ++ name ++
      "' was not found in the parsed tree"
  | tooEarly pass needed current =>
    "Pass '" ++ pass ++ "' requires stage " ++ needed.title ++ " but the tree is at " ++
      current.title
  | toolFailed tool status => tool ++ " failed with exit status " ++ toString status

/-- Why an operation stopped, if it did. -/
def of? {α : Type} : Except Fault α → Option Fault
  | .ok _ => none
  | .error fault => some fault

/-- Whether the configuration or the dump is to blame. -/
def isConfiguration : Fault → Bool
  | unknownTarget _ | unknownPattern _ | missingLibrary | unnamedModule _ | unknownKind _ _
  | unreadableDump _ | shapelessDump _ | malformedUnit _ _ | malformedRecord _ _ => true
  | _ => false

/-- Whether the fault is reported to the user; all others are defects of the input that no step
foresees. -/
def isReported : Fault → Bool
  | missingDeclaration _ _ _ | tooEarly _ _ _ | toolFailed _ _ => true
  | fault => fault.isConfiguration

end Fault

end Bindery
