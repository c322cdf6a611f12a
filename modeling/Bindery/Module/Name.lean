import Bindery.Fault
import Bindery.Text.Pattern
import Bindery.Text.Word

/-!
# Module names

The name of a module is read off the file name of its library: behind `Qt`, an optional digit for
the major version, the name, an optional `d` for a debug build, and an optional extension. Of
several places where such a name ends the text, the leftmost counts.
-/

namespace Bindery.ModuleName

open Text

/-- What a library is called. The name of the module is as short as what may be behind it admits, so
that it leaves the mark of a debug build over. -/
def pattern : Pattern :=
  .followedBy (.char 'Q') <| .followedBy (.char 't') <|
    .followedBy (.optional (.oneOf isDecimalDigit)) <|
    .followedBy (.remembered (.fewest isWord)) <|
    .followedBy (.optional (.char 'd')) <|
    .followedBy (.optional (.followedBy (.char '.') (.most isWord))) .atEnd

/-- The module name at the leftmost place where a library name ends the text. -/
def find? (cs : List Char) : Option (List Char) := (pattern.search? cs).bind (·.remembered?)

/-- The module a library belongs to. -/
def ofLibrary (library : String) : Except Fault String :=
  match find? library.toList with
  | some (c :: name) => .ok (String.ofList (c :: name))
  | _ => .error (.unnamedModule library)

/-- The module a configured library belongs to. -/
def ofValue (library : Value) : Except Fault String :=
  match library with
  | .text s => ofLibrary s
  | _ => .error .wrongKind

example : find? "libQt5Widgetsd.so".toList = some "Widgets".toList := by decide

example : find? "Qt5".toList = some "5".toList ∧ find? "Qtd".toList = some "d".toList := by decide

end Bindery.ModuleName
