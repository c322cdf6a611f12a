import Bindery.Text.Blank
import Bindery.Text.Word

/-!
# Type spellings

A type of the bound library is known by its spelling. Two reductions of a spelling are used: the
normal spelling, in which blanks are uniform and pointer and reference marks sit at the type, and
the bare type, which names the underlying type alone. Documentation is filed under normal
spellings; base classes and operator directives are matched against bare types.
-/

namespace Bindery.TypeSpelling

open Text

/-- Removes every space that stands directly before the mark. -/
def glue (mark : Char) : List Char → List Char
  | [] => []
  | c :: cs => if c = ' ' ∧ cs.head? = some mark then glue mark cs else c :: glue mark cs

/-- Single spaces between words, and none before a pointer or reference mark. -/
def normalChars (cs : List Char) : List Char := glue '&' (glue '*' (unwords (words cs)))

/-- The normal spelling of a type. -/
def normalize (spelling : String) : String := String.ofList (normalChars spelling.toList)

/-- The words that qualify or elaborate a type without naming it. -/
def qualifiers : List (List Char) :=
  ["const".toList, "volatile".toList, "struct".toList, "class".toList, "enum".toList]

/-- Blanks out every whole word that is a qualifier. -/
def dropQualifiers (cs : List Char) : List Char :=
  mapStretches (fun w => if w ∈ qualifiers then [' '] else w) cs

/-- Blanks out the pointer and reference marks. -/
def dropMarks (cs : List Char) : List Char :=
  cs.map fun c => if c = '*' ∨ c = '&' then ' ' else c

/-- The words of a spelling that name the underlying type, one space apart. -/
def bareChars (cs : List Char) : List Char := unwords (words (dropMarks (dropQualifiers cs)))

/-- The underlying type of a spelling. -/
def bare (spelling : String) : String := String.ofList (bareChars spelling.toList)

example : bare "const QMouseEvent *" = "QMouseEvent" := by decide

example : bare "unsigned  int&" = "unsigned int" := by decide

example : normalize " const  QString  & " = "const QString&" := by decide

end Bindery.TypeSpelling
