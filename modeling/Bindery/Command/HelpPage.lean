import Bindery.Command.Arguments
import Bindery.Text.Blank
import Bindery.Text.Filling

/-!
# Help pages

The page that explains a command: how it is called, what it is for, and what its operands and
options mean. A page has a greatest width. Explanations form a column of their own, which begins on
a new line where a heading is too long to stand beside it.
-/

namespace Bindery

open Text

namespace HelpPage

/-- The greatest width of a page. -/
def pageWidth : Nat := 78

/-- How far headings are moved in. -/
def headingIndent : Nat := 2

/-- The column in which explanations begin. -/
def explanationColumn : Nat := 24

/-- So many spaces. -/
def spaces (n : Nat) : String := "".pushn ' ' n

/-- Words in lines of a width. -/
def lines (width : Nat) (words : List String) : List String :=
  (fill width (words.map String.toList)).map String.ofList

/-- A text in lines of a width. -/
def paragraph (width : Nat) (text : String) : List String :=
  (fill width (Text.words text.toList)).map String.ofList

/-- Lines with the same beginning. -/
def indented (indent : Nat) (lines : List String) : List String :=
  lines.map (spaces indent ++ ·)

end HelpPage

/-- What a page says of one operand or option. -/
structure HelpEntry where
  /-- How it is written, in full. -/
  heading : String
  /-- What it is for. -/
  explanation : String
  deriving DecidableEq, Repr

namespace HelpEntry

open HelpPage

/-- The lines of an entry: the first line of the explanation stands beside the heading if there are
two spaces left between them. -/
def render (e : HelpEntry) : List String :=
  let explained := paragraph (pageWidth - explanationColumn) e.explanation
  let heading := spaces headingIndent ++ e.heading
  match explained with
  | first :: rest =>
    if heading.length + 2 ≤ explanationColumn then
      (heading ++ spaces (explanationColumn - heading.length) ++ first) ::
        indented explanationColumn rest
    else heading :: indented explanationColumn explained
  | [] => [heading]

example : render ⟨"--docs DOCS", "The documentation"⟩ =
    ["  --docs DOCS           The documentation"] := by
  decide +kernel

example : render ⟨"--include-path INCLUDE_PATH", "The headers"⟩ =
    ["  --include-path INCLUDE_PATH", "                        The headers"] := by
  decide +kernel

end HelpEntry

namespace Grammar

open HelpPage

/-- The word that stands for the value of an option. -/
def placeholder (name : String) : String :=
  name.map fun c => if c = '-' then '_' else c.toUpper

/-- How the value of an option is written. -/
def valueWords (name : String) : OptionKind → List String
  | .value => [placeholder (name.drop 2).toString]
  | .choice allowed => ["\x7b" ++ ",".intercalate allowed ++ "\x7d"]
  | .flag | .help => []

/-- How an option can be named, the shortest first. -/
def names : String × OptionKind → List String
  | (name, .help) => ["-" ++ String.singleton helpMark, name]
  | (name, _) => [name]

/-- How an option is called; one that may be left out stands in brackets. -/
def usageWords (g : Grammar) (o : String × OptionKind) : List String :=
  let words := (names o).take 1 ++ valueWords o.1 o.2
  if o.1 ∈ g.required then words else ["[" ++ " ".intercalate words ++ "]"]

/-- How a command is called, on one line or with operands on lines of their own. -/
def usage (g : Grammar) (program : String) : List String :=
  let start := "usage: " ++ program ++ " "
  let options := g.allOptions.flatMap g.usageWords
  let width := pageWidth - start.length
  let whole := " ".intercalate (options ++ g.operands)
  if whole.length ≤ width then [start ++ whole]
  else
    match lines width options ++ lines width g.operands with
    | first :: rest => (start ++ first) :: indented start.length rest
    | [] => [start]

/-- What a command says of an operand or option. -/
def explanation (g : Grammar) (name : String) : String :=
  (g.explanations.lookup name).getD ""

/-- The entries of the operands. -/
def operandEntries (g : Grammar) : List HelpEntry :=
  g.operands.map fun name => ⟨name, g.explanation name⟩

/-- The entries of the options. -/
def optionEntries (g : Grammar) : List HelpEntry :=
  g.allOptions.map fun o =>
    let heading := (names o).map fun name => " ".intercalate (name :: valueWords o.1 o.2)
    let explanation := if o.2 = .help then "show this help message and exit" else g.explanation o.1
    ⟨", ".intercalate heading, explanation⟩

/-- Entries under a title, if there are any. -/
def helpSection (title : String) (entries : List HelpEntry) : List (List String) :=
  if entries.isEmpty then [] else [(title ++ ":") :: entries.flatMap HelpEntry.render]

/-- The page that explains a command under the name by which it was called. -/
def helpPage (g : Grammar) (program : String) : String :=
  let parts := [g.usage program, paragraph pageWidth g.purpose] ++
    helpSection "positional arguments" g.operandEntries ++ helpSection "options" g.optionEntries
  "\n\n".intercalate (parts.map "\n".intercalate)

end Grammar

end Bindery
