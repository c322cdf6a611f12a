import Bindery.Declaration.Dump
import Bindery.Declaration.Record
import Bindery.Declaration.Site
import Bindery.Stage

/-!
# Trees

The tree of one module run: a unit for every parsed header, and the stage the tree has reached.
-/

namespace Bindery

/-- The declarations of one module run. -/
structure Tree where
  /-- How far the tree has been prepared. -/
  stage : Stage := .parsed
  /-- One declaration for every header, in the order of the dump. -/
  units : List Decl := []

namespace Tree

/-- The path that stands for a unit without a file. -/
def invalidPath : String := "<invalid>"

/-- Whether a unit belongs to a real file. -/
def isValidPath (path : String) : Bool := !path.isEmpty && path != invalidPath

/-- Reads a unit record. -/
def unitOf (source : String) (record : Value) : Except Fault Decl :=
  match record with
  | .mapping es => do
    let name := Value.text ((← record.entry "name").displayOr "")
    let path := (← record.entry "file_path").displayOr invalidPath
    let label : Label := { name, headerName := name, form := .unit path }
    return Decl.owning label (← Decl.nestedRecords source es)
  | v => .error (.malformedUnit source v)

/-- Faults of a declaration record that are reported as faults of the dump; a record whose parts
are of an unexpected kind is not. -/
def reportRecord (source : String) : Fault → Fault
  | .noSuchPart kind part => .malformedRecord source (.noSuchPart kind part)
  | .missingKey key => .malformedRecord source (.missingKey key)
  | .unknownChoice value choices => .malformedRecord source (.unknownChoice value choices)
  | fault => fault

/-- Reads the document of a dump. The `source` names the dump in messages. -/
def ofDocument (source : String) (document : Value) : Except Fault Tree :=
  match document.orElse (.mapping []) with
  | .mapping es => do
    let records ← ((es.lookup "translation_units").getD .null).elementsIfGiven
    let units ← records.mapM fun r => (unitOf source r).mapError (reportRecord source)
    return { units }
  | _ => .error (.shapelessDump source)

/-- Every declaration with its site, owners before members, in the order of the units. -/
def survey (t : Tree) : List Located := Decl.surveyAll t.units Site.top 0

/-- Maps every label by its site. -/
def relabel (f : Site → Label → Label) (t : Tree) : Tree :=
  { t with units := Decl.relabelAll f t.units Site.top 0 }

/-- Appends members, chosen by the site. -/
def extend (f : Site → Decl → List Decl) (t : Tree) : Tree :=
  { t with units := Decl.extendAll f t.units Site.top 0 }

/-- The declaration at an address. -/
def locate? (t : Tree) (address : List Nat) : Option Located :=
  Decl.locate? t.units Site.top address

/-- Changes the declaration at an address with everything below it. -/
def modifyAt (f : Decl → Decl) (address : List Nat) (t : Tree) : Tree :=
  { t with units := Decl.modifyAt f address t.units }

/-- Changes the label at an address. -/
def relabelAt (address : List Nat) (f : Label → Label) (t : Tree) : Tree :=
  t.relabel fun s l => if s.address = address then f l else l

/-- The current name of the source of the event at an address. -/
def sourceName (t : Tree) (address : List Nat) (source : EventSource) : Option Value :=
  match source.target with
  | .sibling i =>
    ((t.locate? address.dropLast).bind fun owner => owner.decl.methods[i]?).map Decl.name
  | .elsewhere steps => (Decl.follow? t.units steps).map Decl.name

/-- Whether every class has a full name. -/
def hasNamedClasses (t : Tree) : Bool :=
  t.survey.all fun x => !x.label.form.isClass || x.chain.isNamed

/-- The classes of the given full name, in order. -/
def findClasses (t : Tree) (name : String) : List Located :=
  t.survey.filter fun x => x.label.form.isClass && x.qualifiedName == name

/-- The first class of the given full name that is not a forward declaration. -/
def findCompleteClass? (t : Tree) (name : String) : Option Located :=
  (t.findClasses name).find? fun x => x.label.form.classTraits?.any fun c => !c.isIncomplete

/-- The defining class of the given full name, which the given step of work for a module needs. What
is no text names no class, and no class can be looked for where one has no full name. -/
def requireClass (t : Tree) (step : String) (module name : Value) : Except Fault Located :=
  if t.hasNamedClasses then
    match name.text?.bind t.findCompleteClass? with
    | some x => .ok x
    | none => .error (.missingDeclaration step module name.display)
  else .error .wrongKind

/-- The record of a unit. -/
def unitRecord (t : Tree) (i : Nat) (unit : Decl) : Value :=
  let path := match unit.form with
    | .unit path => path
    | _ => ""
  .mapping [("file_path", .text path), ("generation_kind", .text unit.label.treatment.word),
    ("declarations", .list (Decl.toRecords t.sourceName unit.members [i] 0))]

/-- The document in which a tree is handed to the binding's emission. -/
def toDocument (t : Tree) : Value :=
  .mapping [("stage", .text t.stage.name),
    ("translation_units", .list (t.units.mapIdx t.unitRecord))]

end Tree

end Bindery
