import Bindery.TypeSpelling
import Bindery.Value.Key

/-!
# Declarations

What a header of the bound library declares, as a tree. Every declaration has a label with its
names, its access and what is to be done with it, and members of its own if it is a scope. A scope
keeps its members by role: first the nested declarations, then methods, fields, properties and
events, each in the order they came. Declarations know nothing of their owners; whatever depends
on the owners is read off the place of a declaration in the tree.

The names in a dump are texts. Whoever edits a tree by hand may give a declaration any value for a
name; such a name is shown and compared like any other, but is not part of a full name.
-/

namespace Bindery

/-- Who may use a member of a class. -/
inductive Access where
  /-- Everyone. -/
  | publicAccess
  /-- The class and its heirs. -/
  | protectedAccess
  /-- The class alone. -/
  | privateAccess
  deriving DecidableEq, Repr

/-- What the emission of a binding does with a declaration. -/
inductive Treatment where
  /-- Binding text is emitted. -/
  | generate
  /-- The binding of another module is referred to. -/
  | link
  /-- Nothing is emitted. -/
  | ignore
  deriving DecidableEq, Repr

/-- What kind of operator a method is. -/
inductive OperatorKind where
  /-- Not an operator. -/
  | plain
  /-- A conversion. -/
  | conversion
  /-- A conversion that has to be asked for. -/
  | explicitConversion
  /-- Any other operator. -/
  | other
  deriving DecidableEq, Repr

namespace Access

/-- The word for an access in dumps. -/
def word : Access → String
  | publicAccess => "public"
  | protectedAccess => "protected"
  | privateAccess => "private"

/-- The access a word stands for. -/
def ofWord? (w : String) : Option Access :=
  [publicAccess, protectedAccess, privateAccess].find? fun a => a.word == w

end Access

namespace Treatment

/-- The word for a treatment in dumps and reports. -/
def word : Treatment → String
  | generate => "generate"
  | link => "link"
  | ignore => "ignore"

/-- The treatment a word stands for. -/
def ofWord? (w : String) : Option Treatment :=
  [generate, link, ignore].find? fun t => t.word == w

end Treatment

namespace OperatorKind

/-- The word for a kind of operator in dumps. -/
def word : OperatorKind → String
  | plain => "none"
  | conversion => "conversion"
  | explicitConversion => "explicit_conversion"
  | other => "other"

/-- The kind of operator a word stands for. -/
def ofWord? (w : String) : Option OperatorKind :=
  [plain, conversion, explicitConversion, other].find? fun k => k.word == w

end OperatorKind

/-- A parameter of something callable. -/
structure Parameter where
  /-- Its name, which may be empty. -/
  name : String
  /-- The spelling of its type. -/
  type : String
  deriving DecidableEq, Repr

/-- What something callable takes and returns. -/
structure Signature where
  /-- The parameters in order. -/
  parameters : List Parameter
  /-- The spelling of the return type. -/
  returnType : String
  deriving DecidableEq, Repr

/-- What sets one method apart from another of the same signature. -/
structure MethodTraits where
  /-- Heirs may override it. -/
  isVirtual : Bool
  /-- It overrides a method of a base class. -/
  isOverride : Bool
  /-- It belongs to the class and not to its objects. -/
  isStatic : Bool
  /-- The header itself defines it. -/
  hasBody : Bool
  /-- The label of the section it stands under, as the header writes it. -/
  sectionLabel : Value
  /-- The kind of operator it is. -/
  operator : OperatorKind
  deriving DecidableEq

/-- What sets one class apart from another of the same name. -/
structure ClassTraits where
  /-- The names of the direct base classes. -/
  bases : List String
  /-- It is a forward declaration without members. -/
  isIncomplete : Bool
  /-- The binding copies its objects instead of referring to them. -/
  isValue : Bool
  deriving DecidableEq, Repr

/-- The list of its owner that keeps a declaration. -/
inductive Role where
  /-- A nested declaration. -/
  | nested
  /-- A method of a class. -/
  | method
  /-- A field of a class. -/
  | field
  /-- A property of a class. -/
  | property
  /-- An event of a class. -/
  | event
  deriving DecidableEq, Repr

/-- The roles in the order in which an owner lists its members. -/
def Role.all : List Role := [.nested, .method, .field, .property, .event]

/-- The member an event was made from. -/
inductive SourceTarget where
  /-- A method of the class that has the event, by its number among the methods. -/
  | sibling (index : Nat)
  /-- Any other declaration, by role and number at every level from the units down. -/
  | elsewhere (steps : List (Role × Nat))
  deriving DecidableEq, Repr

/-- The source of an event, with the signature under which it is documented. -/
structure EventSource where
  /-- Which declaration it is. -/
  target : SourceTarget
  /-- Its documented signature, which no pass changes. -/
  signature : Value
  deriving DecidableEq

/-- How an event adapts a native member. -/
structure Adapter where
  /-- The word for the family of events it belongs to, as whoever made it gave it. -/
  origin : Value
  /-- The adapted member. -/
  source : Option EventSource
  /-- The parameters that are handed on. -/
  parameters : List Parameter
  deriving DecidableEq

/-- What kind of declaration it is, with what only this kind has. -/
inductive Form where
  /-- Everything from one header file. -/
  | unit (path : String)
  /-- A namespace. -/
  | nameSpace
  /-- A class or struct. -/
  | classType (traits : ClassTraits)
  /-- An enumeration; it is anonymous unless its name is given. -/
  | enumeration
  /-- An enumerator, with its value as the dump gives it. -/
  | enumItem (value : Value)
  /-- A member function. -/
  | method (signature : Signature) (traits : MethodTraits)
  /-- A free function. -/
  | function (signature : Signature)
  /-- A callback type. -/
  | delegate (signature : Signature)
  /-- A member variable. -/
  | field (type : String)
  /-- A free variable. -/
  | freeVariable (type : String)
  /-- A property. -/
  | property (type : String)
  /-- A synthesized notification handle. -/
  | event (adapter : Adapter)
  deriving DecidableEq

namespace Form

/-- The word for a kind of declaration. -/
def word : Form → String
  | unit _ => "translation_unit"
  | nameSpace => "namespace"
  | classType _ => "class"
  | enumeration => "enum"
  | enumItem _ => "enum_item"
  | method _ _ => "method"
  | function _ => "function"
  | delegate _ => "delegate"
  | field _ => "field"
  | freeVariable _ => "variable"
  | property _ => "property"
  | event _ => "event"

/-- Whether it is a unit. -/
def isUnit : Form → Bool
  | unit _ => true
  | _ => false

/-- The traits of a class. -/
def classTraits? : Form → Option ClassTraits
  | classType traits => some traits
  | _ => none

/-- Whether it is a class. -/
def isClass (f : Form) : Bool := f.classTraits?.isSome

/-- Whether it is an enumeration. -/
def isEnumeration : Form → Bool
  | enumeration => true
  | _ => false

/-- Whether it is an enumerator. -/
def isEnumItem : Form → Bool
  | enumItem _ => true
  | _ => false

/-- Whether it can have members. -/
def isScope : Form → Bool
  | unit _ | nameSpace | classType _ | enumeration => true
  | _ => false

/-- The traits of a method. -/
def methodTraits? : Form → Option MethodTraits
  | method _ traits => some traits
  | _ => none

/-- Whether it is a method. -/
def isMethod (f : Form) : Bool := f.methodTraits?.isSome

/-- The signature of something callable. -/
def signature? : Form → Option Signature
  | method s _ | function s | delegate s => some s
  | _ => none

/-- The adapter of an event. -/
def adapter? : Form → Option Adapter
  | event adapter => some adapter
  | _ => none

/-- Whether it is an event. -/
def isEvent (f : Form) : Bool := f.adapter?.isSome

/-- The role a declaration of this form takes among the members of an owner: only classes tell
their members apart. -/
def roleIn (owner f : Form) : Role :=
  if owner.isClass then
    match f with
    | method _ _ => .method
    | field _ => .field
    | property _ => .property
    | event _ => .event
    | _ => .nested
  else .nested

end Form

/-- Everything about a declaration but its members. -/
structure Label where
  /-- The name the binding will show. -/
  name : Value
  /-- The name in the header. -/
  headerName : Value
  /-- Who may use it. -/
  access : Access := .publicAccess
  /-- What emission does with it. -/
  treatment : Treatment := .generate
  /-- Whether it was suppressed on purpose, as whoever said so gave it. -/
  suppression : Value := .bool false
  /-- Its documentation, as the dump or the corpus gives it. -/
  comment : Value := .null
  /-- Which list of its owner keeps it. -/
  role : Role := .nested
  /-- What kind of declaration it is. -/
  form : Form
  deriving DecidableEq

namespace Label

/-- Suppresses a declaration on purpose. -/
def suppress (l : Label) : Label := { l with suppression := .bool true, treatment := .ignore }

/-- Whether the declaration was suppressed on purpose. -/
def isSuppressed (l : Label) : Bool := l.suppression.isGiven

/-- Whether the declaration itself is out, whatever its owners are. -/
def isOut (l : Label) : Bool := l.isSuppressed || l.treatment == .ignore

/-- The signature a declaration is documented under: callables are told apart by the types of
their parameters, and an event by its source. -/
def signature (l : Label) : Value :=
  match l.form with
  | .method s _ | .function s | .delegate s =>
    .text (l.headerName.display ++ "(" ++
      ", ".intercalate (s.parameters.map fun p => TypeSpelling.normalize p.type) ++ ")")
  | .event adapter => (adapter.source.map EventSource.signature).getD l.headerName
  | _ => l.headerName

/-- A suppressed declaration is out. -/
@[simp] theorem isOut_suppress (l : Label) : l.suppress.isOut = true := rfl

end Label

/-- A declaration with its members, in the order of their roles. -/
inductive Decl where
  /-- A label and the members below it. -/
  | node (label : Label) (members : List Decl)

namespace Decl

/-- The label. -/
def label : Decl → Label
  | node l _ => l

/-- The members, in order. -/
def members : Decl → List Decl
  | node _ ms => ms

/-- The target-facing name. -/
def name (d : Decl) : Value := d.label.name

/-- The name in the header. -/
def headerName (d : Decl) : Value := d.label.headerName

/-- What kind of declaration it is. -/
def form (d : Decl) : Form := d.label.form

/-- Which list of its owner keeps it. -/
def role (d : Decl) : Role := d.label.role

/-- A declaration is its label and its members. -/
@[simp] theorem node_label_members (d : Decl) : node d.label d.members = d := by cases d; rfl

@[simp] theorem label_node (l : Label) (ms : List Decl) : (node l ms).label = l := rfl

@[simp] theorem members_node (l : Label) (ms : List Decl) : (node l ms).members = ms := rfl

/-- What holds of every declaration whose members all have it holds of every declaration. -/
theorem induction {P : Decl → Prop} (h : ∀ l ms, (∀ m ∈ ms, P m) → P (node l ms)) :
    ∀ d, P d := by
  intro d
  induction d using Decl.rec (motive_2 := fun ms => ∀ m ∈ ms, P m) with
  | node l ms ih => exact h l ms ih
  | nil => cases ‹_ ∈ []›
  | cons m ms hm ih n hn =>
    rcases List.mem_cons.1 hn with rfl | hn
    · exact hm
    · exact ih n hn

/-- The members of one role, in order. -/
def membersIn (role : Role) (d : Decl) : List Decl := d.members.filter fun m => m.role == role

/-- The methods of a class. -/
def methods (d : Decl) : List Decl := d.membersIn .method

/-- The events of a class. -/
def events (d : Decl) : List Decl := d.membersIn .event

/-- Members in the order in which an owner lists them. -/
def arrange (ms : List Decl) : List Decl :=
  Role.all.flatMap fun role => ms.filter fun m => m.role == role

/-- The declaration in the given role. -/
def withRole (role : Role) : Decl → Decl
  | node l ms => node { l with role } ms

/-- The declaration in the role it takes in an owner of the given form. -/
def ownedBy (owner : Form) (d : Decl) : Decl := d.withRole (owner.roleIn d.form)

/-- An owner with the given members, each in its role. -/
def owning (l : Label) (ms : List Decl) : Decl := node l (arrange (ms.map (ownedBy l.form)))

/-- The owner with one more member, which comes last in its role. -/
def add (owner d : Decl) : Decl :=
  node owner.label (arrange (owner.members ++ [d.ownedBy owner.form]))

/-- The first member with the given target-facing name. -/
def findMember? (d : Decl) (name : Value) : Option Decl :=
  d.members.find? fun m => m.name.alike name

/-- The first nested class with the given target-facing name. -/
def findClass? (d : Decl) (name : Value) : Option Decl :=
  (d.membersIn .nested).find? fun m => m.form.isClass && m.name.alike name

/-- The first nested enumeration with the given target-facing name. -/
def findEnum? (d : Decl) (name : Value) : Option Decl :=
  (d.membersIn .nested).find? fun m => m.form.isEnumeration && m.name.alike name

/-- The overloads of a method, by its name in the header. -/
def overloads (d : Decl) (headerName : Value) : List Decl :=
  d.methods.filter fun m => m.headerName.alike headerName

/-- Whether a declaration is a method of the given kind of operator. -/
def isOperator (kind : OperatorKind) (d : Decl) : Bool :=
  d.form.methodTraits?.any fun traits => traits.operator == kind

/-- The fault of asking a declaration that is no method for what only methods have. -/
def noMethod (l : Label) (part : String) : Fault := .noSuchPart l.form.word part

/-- The operators of a kind. Everything that stands among the methods must be one. -/
def operators (d : Decl) (kind : OperatorKind) : Except Fault (List Decl) :=
  match d.methods.find? fun m => !m.form.isMethod with
  | some m => .error (noMethod m.label "operator")
  | none => .ok (d.methods.filter (isOperator kind))

end Decl

end Bindery
