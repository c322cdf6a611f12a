import Bindery.Declaration.Basic
import Bindery.Value.Access

/-!
# Declarations from dump records

A record of the parser's dump is a mapping that names its kind. Parts that are absent or empty take
a default; parts of an unexpected shape are faults. Every record becomes one declaration, and the
records below it become its members.
-/

namespace Bindery.Decl

/-- The parts that records of every kind have. -/
structure CommonParts where
  /-- The kind, as given. -/
  kind : Value
  /-- The target-facing name. -/
  name : String
  /-- The name in the header, the target-facing one unless given. -/
  headerName : String
  /-- Who may use it. -/
  access : Access
  /-- The parser's comment, as given. -/
  comment : Value

/-- The access a part stands for; public unless given. -/
def accessOf (v : Value) : Except Fault Access :=
  let given := v.orElse (.text Access.publicAccess.word)
  match given.text?.bind Access.ofWord? with
  | some access => .ok access
  | none => .error (.unknownChoice given "AccessSpecifier")

/-- The kind of operator a part stands for; none unless given. -/
def operatorOf (v : Value) : Except Fault OperatorKind :=
  let given := v.orElse (.text OperatorKind.plain.word)
  match given.text?.bind OperatorKind.ofWord? with
  | some kind => .ok kind
  | none => .error (.unknownChoice given "CxxOperatorKind")

/-- Reads the parts that records of every kind have. -/
def commonParts (record : Value) : Except Fault CommonParts := do
  let kind ← record.entry "kind"
  let name := (← record.entry "name").displayOr ""
  let given := (← record.entry "original_name").displayOr ""
  let access ← accessOf (← record.entry "access")
  let comment ← record.entry "comment"
  return { kind, name, headerName := if given.isEmpty then name else given, access, comment }

/-- The label of a declaration with the common parts. -/
def CommonParts.label (parts : CommonParts) (form : Form) : Label where
  name := .text parts.name
  headerName := .text parts.headerName
  access := parts.access
  comment := parts.comment
  form := form

/-- Reads a parameter. -/
def parameterOf (record : Value) : Except Fault Parameter := do
  let name := (← record.entry "name").displayOr ""
  let type := (← record.entry "type").displayOr ""
  return { name, type }

/-- Reads parameters and return type. -/
def signatureOf (record : Value) : Except Fault Signature := do
  let parameters ← (← (← record.entry "parameters").elementsIfGiven).mapM parameterOf
  let returnType := (← record.entry "return_type").displayOr "void"
  return { parameters, returnType }

/-- Whether a part is given. -/
def flagOf (record : Value) (key : String) : Except Fault Bool :=
  (record.entry key).map Value.isGiven

/-- Reads what sets a method apart. -/
def methodTraitsOf (record : Value) : Except Fault MethodTraits := do
  let isVirtual ← flagOf record "virtual"
  let isOverride ← flagOf record "override"
  let isStatic ← flagOf record "static"
  let hasBody ← flagOf record "has_body"
  let sectionLabel ← record.entry "section"
  let operator ← operatorOf (← record.entry "operator")
  return { isVirtual, isOverride, isStatic, hasBody, sectionLabel, operator }

/-- Reads what sets a class apart. -/
def classTraitsOf (record : Value) : Except Fault ClassTraits := do
  let bases := (← (← record.entry "bases").elementsIfGiven).map Value.display
  let isIncomplete ← flagOf record "incomplete"
  return { bases, isIncomplete, isValue := false }

/-- Reads an enumerator, which must have a name. -/
def enumItemOf (record : Value) : Except Fault Decl := do
  let name := Value.text (← record.require "name").display
  let value ← record.entry "value"
  return .node { name, headerName := name, form := .enumItem value } []

/-- Reads the type of a variable. -/
def typeOf (record : Value) : Except Fault String :=
  (record.entry "type").map fun v => v.displayOr ""

/-- Reads everything about a declaration but the records below it. -/
def labelOf (source : String) (record : Value) : Except Fault Label := do
  let parts ← commonParts record
  match parts.kind with
  | .text "namespace" => return parts.label .nameSpace
  | .text "class" => return parts.label (.classType (← classTraitsOf record))
  | .text "enum" => return parts.label .enumeration
  | .text "method" =>
    let signature ← signatureOf record
    return parts.label (.method signature (← methodTraitsOf record))
  | .text "function" => return parts.label (.function (← signatureOf record))
  | .text "delegate" => return parts.label (.delegate (← signatureOf record))
  | .text "field" => return parts.label (.field (← typeOf record))
  | .text "variable" => return parts.label (.freeVariable (← typeOf record))
  | .text "property" => return parts.label (.property (← typeOf record))
  | kind => throw (.unknownKind source kind)

mutual

/-- Reads a record with everything below it. The `source` names the dump in messages. -/
def ofRecord (source : String) (record : Value) : Except Fault Decl :=
  match record with
  | .mapping es => do
    let label ← labelOf source (.mapping es)
    match label.form with
    | .nameSpace | .classType _ => return owning label (← nestedRecords source es)
    | .enumeration =>
      let items ← (← (Value.mapping es).entry "items").elementsIfGiven
      return owning label (← items.mapM enumItemOf)
    | _ => return .node label []
  | v => .error (.noSuchPart v.kindWord "get")
termination_by structural record

/-- Reads the records under the key for nested declarations, none if it is absent. -/
def nestedRecords (source : String) (es : List (String × Value)) : Except Fault (List Decl) :=
  match es with
  | [] => .ok []
  | (key, v) :: es =>
    if key = "declarations" then ofRecords source v else nestedRecords source es
termination_by structural es

/-- Reads the records a part holds, none unless it is given. The characters of a text and the keys
of a mapping are no records. -/
def ofRecords (source : String) (v : Value) : Except Fault (List Decl) :=
  match v with
  | .list items => ofItems source items
  | .text s => if s.isEmpty then .ok [] else .error (.noSuchPart "str" "get")
  | .mapping es => if es.isEmpty then .ok [] else .error (.noSuchPart "str" "get")
  | v => if v.isGiven then .error .wrongKind else .ok []
termination_by structural v

/-- Reads a list of records in order. -/
def ofItems (source : String) (vs : List Value) : Except Fault (List Decl) :=
  match vs with
  | [] => .ok []
  | v :: vs => do
    let d ← ofRecord source v
    return d :: (← ofItems source vs)
termination_by structural vs

end

end Bindery.Decl
