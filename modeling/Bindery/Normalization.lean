import Bindery.Policy
import Bindery.Work

/-!
# Applying a policy

A policy is applied directive by directive, each to the tree the one before it left. A directive
that names a class the tree does not define stops the pass.
-/

namespace Bindery

namespace Policy

/-- The step that applies a policy. -/
def applicationStep : String := "structural normalization"

/-- Makes a class a value type. -/
def markValue (l : Label) : Label :=
  match l.form with
  | .classType traits => { l with form := .classType { traits with isValue := true } }
  | _ => l

/-- Marks the classes that are copied by value. -/
def setValueTypes (p : Policy) (w : Work) : Work :=
  let found := (p.valueTypes.map fun name =>
    ((name.text?.map fun n => (w.tree.findClasses n).length).getD 0)).foldl Nat.add 0
  let tree := w.tree.relabel fun s l =>
    if l.form.isClass && p.isValueType (s.chain l).qualifiedName then markValue l else l
  { w with tree }.countSome "value_types" found

/-- Whether the declaration at a site is a method that no module binds. -/
def isUnbound (method : String × String) (s : Site) (l : Label) : Bool :=
  l.role == .method && l.headerName == .text method.2 &&
    match s.scope with
    | owner :: outer => owner.form.isClass && Chain.qualifiedName (owner :: outer) == method.1
    | [] => false

/-- Suppresses the methods that no module binds. -/
def ignoreUnbound (method : String × String) (w : Work) : Work :=
  let found := w.tree.survey.countP fun x => isUnbound method x.site x.label
  let tree := w.tree.relabel fun s l => if isUnbound method s l then l.suppress else l
  { w with tree }.countSome "ignored_methods" found

/-- Whether a member of the string class is bound all the same. -/
def isKept (p : Policy) (l : Label) : Bool :=
  l.form.isMethod && p.stringKeptMethods.contains l.headerName

/-- Suppresses the members of the string class that are not kept. The names of those that are kept
form a set, which must have simple members. -/
def specializeString (p : Policy) (w : Work) : Work :=
  w.require (w.tree.requireClass applicationStep p.module p.stringClass) fun (found : Located) w =>
    if p.stringKeptMethods.all Value.isSimple then
      let tree := w.tree.relabel fun s l =>
        if s.address ≠ [] ∧ s.address.dropLast = found.site.address ∧ !p.isKept l then l.suppress
        else l
      { w with tree }.countSome "string_ignored"
        (found.decl.members.countP fun (m : Decl) => !p.isKept m.label)
    else w.stop .wrongKind

/-- Whether a member is an enumeration without a name. -/
def isAnonymousEnum (l : Label) : Bool :=
  l.role == .nested && l.form.isEnumeration && !l.name.isGiven

/-- Names the anonymous enumerations of a class. -/
def nameTypedEnums (p : Policy) (className : Value) (w : Work) : Work :=
  w.require (w.tree.requireClass applicationStep p.module className) fun (found : Located) w =>
    let tree := w.tree.relabel fun s l =>
      if s.address ≠ [] ∧ s.address.dropLast = found.site.address ∧ isAnonymousEnum l then
        { l with name := p.typedEnumName }
      else l
    { w with tree }.countSome "named_enums"
      (found.decl.members.countP fun (m : Decl) => isAnonymousEnum m.label)

/-- The number of the first member that satisfies a condition. -/
def memberIndex? (d : Decl) (condition : Decl → Bool) : Option Nat :=
  d.members.findIdx? condition

/-- Makes an enumeration of a class accessible. -/
def publishEnum (p : Policy) (entry : Option ClassEnum) (w : Work) : Work :=
  match entry with
  | none => w.stop .malformedText
  | some e =>
    w.require (w.tree.requireClass applicationStep p.module e.className) fun (found : Located) w =>
      match memberIndex? found.decl fun m =>
          m.role == .nested && m.form.isEnumeration && m.name.alike e.enumName with
      | some i =>
        let tree := w.tree.relabelAt (found.site.address ++ [i]) fun l =>
          { l with access := .publicAccess }
        { w with tree }.count "public_enums"
      | none => w.stop (p.missingMember applicationStep e.className e.enumName)

/-- Whether a method is an operator that the removal is meant for. -/
def OperatorRemoval.applies (removal : OperatorRemoval) (d : Decl) : Bool :=
  d.role == .method && d.isOperator removal.operator &&
    ((d.form.signature?.bind fun s => s.parameters.head?).any fun p =>
      .text (TypeSpelling.bare p.type) == removal.parameterType)

/-- Suppresses the first operator of a class that the removal is meant for, if there is one. -/
def ignoreOperator (p : Policy) (removal : OperatorRemoval) (w : Work) : Work :=
  let found := w.tree.requireClass applicationStep p.module removal.className
  w.require found fun (found : Located) w =>
    w.require (found.decl.operators removal.operator) fun _ w =>
      match memberIndex? found.decl (OperatorRemoval.applies removal) with
      | some i =>
        let tree := w.tree.relabelAt (found.site.address ++ [i]) Label.suppress
        { w with tree }.count "ignored_operators"
      | none => w

/-- Applies the directives of a policy in order. -/
def applyAll (p : Policy) (w : Work) : Work :=
  let w := p.setValueTypes w
  let w := w.forEach unboundMethods ignoreUnbound
  let w := if p.stringClass.isGiven then p.specializeString w else w
  let w := w.andThen fun w => w.forEach p.typedEnumClasses p.nameTypedEnums
  let w := w.andThen fun w => w.forEach p.publicEnums p.publishEnum
  w.andThen fun w => w.forEach p.ignoredOperators p.ignoreOperator

/-- Applies every directive of a policy, unless a class has no full name. -/
def apply (p : Policy) (w : Work) : Work :=
  if w.tree.hasNamedClasses then p.applyAll w else w.stop .wrongKind

end Policy

end Bindery
