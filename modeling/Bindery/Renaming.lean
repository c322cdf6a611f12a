import Bindery.Text.Casing
import Bindery.Value.Key
import Bindery.Work

/-!
# Renaming

The target language has its own convention for the case of names. Renaming recases the first letter
of the names of chosen kinds of declarations; names in the header stay, since documentation and
native symbols are found by them. Renaming stops at a name whose first letter cannot be looked at.
-/

namespace Bindery

/-- A kind of declaration that can be renamed. -/
inductive RenameTarget where
  /-- Free functions. -/
  | function
  /-- Methods that are no operators. -/
  | method
  /-- Properties. -/
  | property
  /-- Callback types. -/
  | delegate
  /-- Fields. -/
  | field
  /-- Free variables. -/
  | freeVariable
  /-- Events. -/
  | event
  deriving DecidableEq, Repr

namespace RenameTarget

/-- All kinds, in the order of their names. -/
def all : List RenameTarget :=
  [.delegate, .event, .field, .function, .method, .property, .freeVariable]

/-- The name of a kind in a configuration, in upper case. -/
def title : RenameTarget → String
  | function => "FUNCTION"
  | method => "METHOD"
  | property => "PROPERTY"
  | delegate => "DELEGATE"
  | field => "FIELD"
  | freeVariable => "VARIABLE"
  | event => "EVENT"

/-- The kind of a declaration. -/
def ofForm? : Form → Option RenameTarget
  | .method _ _ => some method
  | .delegate _ => some delegate
  | .function _ => some function
  | .event _ => some event
  | .property _ => some property
  | .field _ => some field
  | .freeVariable _ => some freeVariable
  | _ => none

/-- The name that stands for no kind at all. -/
def noneTitle : String := "NONE"

/-- The kinds that a configured name stands for; case does not matter. -/
def ofName (name : Value) : Except Fault (List RenameTarget) :=
  let title := String.ofList (Text.upperCase name.display.toList)
  if title = noneTitle then .ok []
  else
    match all.find? fun t => t.title == title with
    | some target => .ok [target]
    | none => .error (.unknownTarget name)

/-- The kinds that configured names stand for. -/
def ofNames (names : Value) : Except Fault (List RenameTarget) := do
  let found ← (← names.elements).mapM ofName
  return all.filter fun t => found.flatten.contains t

end RenameTarget

/-- A convention for the first letter of a name. -/
inductive CasePattern where
  /-- Names begin in upper case. -/
  | upperCamel
  /-- Names begin in lower case. -/
  | lowerCamel
  deriving DecidableEq, Repr

namespace CasePattern

/-- The name of a pattern in a configuration. -/
def name : CasePattern → String
  | upperCamel => "upper_camel_case"
  | lowerCamel => "lower_camel_case"

/-- The pattern that a configured value names. -/
def ofValue (v : Value) : Except Fault CasePattern :=
  if !v.isSimple then .error .wrongKind
  else
    match [upperCamel, lowerCamel].find? fun p => v == .text p.name with
    | some pattern => .ok pattern
    | none => .error (.unknownPattern v)

/-- The text recased. -/
def recase (p : CasePattern) (s : String) : String :=
  String.ofList (match p with
    | upperCamel => Text.capitalize s.toList
    | lowerCamel => Text.uncapitalize s.toList)

/-- The name recased. A list that begins with anything but a word, and what is not given, has no
letter to recase. -/
def convert (p : CasePattern) (name : Value) : Except Fault Value :=
  match name with
  | .text s => .ok (.text (p.recase s))
  | .list (.text s :: _) =>
    if !s.isEmpty && s.toList.all Text.isLetter then .error .wrongKind else .ok name
  | .list (first :: _) => .error (.noSuchPart first.kindWord "isalpha")
  | .mapping (_ :: _) => .error (.missingKey "0")
  | name => if name.isGiven then .error .wrongKind else .ok name

end CasePattern

/-- Whether the declaration at a site is renamed: it is of a chosen kind, no operator, and will be
generated. -/
def isRenameable (targets : List RenameTarget) (s : Site) (l : Label) : Bool :=
  (RenameTarget.ofForm? l.form).any targets.contains &&
    !(l.form.methodTraits?.any fun traits => traits.operator != .plain) && s.isGenerated l

/-- The label with its name recased, if it is renamed. -/
def renamedLabel (targets : List RenameTarget) (pattern : CasePattern) (s : Site) (l : Label) :
    Label :=
  if isRenameable targets s l then
    match pattern.convert l.name with
    | .ok name => { l with name }
    | .error _ => l
  else l

/-- Where renaming stops: at the first name that cannot be recased. -/
def renamingStop? (targets : List RenameTarget) (pattern : CasePattern) (t : Tree) : Option Stop :=
  Stop.first? (fun x => Fault.of? (pattern.convert x.label.name))
    (t.survey.filter fun x => isRenameable targets x.site x.label)

/-- Recases the names of the chosen kinds of declarations. -/
def rename (targets : List RenameTarget) (pattern : CasePattern) (w : Work) : Work :=
  let stop := renamingStop? targets pattern w.tree
  let change (s : Site) (l : Label) : Label :=
    if s.isBefore stop then renamedLabel targets pattern s l else l
  let found := w.tree.survey.countP fun x => (change x.site x.label).name != x.label.name
  ({ w with tree := w.tree.relabel change }.countSome "renamed" found).stopAt stop

end Bindery
