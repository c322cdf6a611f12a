import Bindery.Event.Attachment
import Bindery.Inheritance
import Bindery.Value.Key

/-!
# Signals and hooks

Two families of methods become events. A signal stands in a section for signals and has no body; it
is only ever invoked by the library. A hook is a virtual method that the library calls with an event
object, named after the event; its class is the one that declares it first.
-/

namespace Bindery

/-- The usual ending of event names and of the names of hooks. -/
def eventSuffix : String := "Event"

/-- What is usually put in front of a name that is taken. -/
def defaultCollisionMark : String := "On"

/-- How signals are recognised and named. -/
structure SignalOptions where
  /-- The labels of the sections for signals. -/
  sections : List Value
  /-- What is put behind the name of the method. -/
  ending : String := eventSuffix
  /-- What is put in front of a name that is taken. -/
  collisionMark : String := defaultCollisionMark
  deriving DecidableEq

/-- Whether a method is a signal. Nothing else may stand among the methods of a class. -/
def SignalOptions.qualifies (o : SignalOptions) (method : Label) : Except Fault Bool :=
  match method.form.methodTraits? with
  | some traits => do
    let inSection ← traits.sectionLabel.isMember o.sections
    return inSection && !traits.hasBody && !traits.isStatic && traits.operator == .plain
  | none => .error (Decl.noMethod method "section")

/-- The rule for signals. -/
def SignalOptions.rule (o : SignalOptions) : EventRule where
  origin := "signal"
  collisionMark := o.collisionMark
  qualifies := o.qualifies
  wantedName := fun method => .ok (.text (method.name.display ++ o.ending))

/-- How hooks are recognised. -/
structure HookOptions where
  /-- The root class of event objects; none if no class can have the configured name. -/
  eventBase : Option String := some "QEvent"
  /-- What is put in front of a name that is taken. -/
  collisionMark : String := defaultCollisionMark
  deriving DecidableEq, Repr

/-- The text without its last `n` characters. -/
def dropLastChars (n : Nat) (s : String) : String :=
  let glyphs := Text.glyphs s.toList
  String.ofList (glyphs.take (glyphs.length - n)).flatten

/-- Whether a type is the root class of event objects or inherits from it. -/
def HookOptions.isEventType (o : HookOptions) (index : BaseIndex) (type : String) : Bool :=
  o.eventBase.any fun base => index.derives (TypeSpelling.bare type) base

/-- The name of a hook without its ending. A list loses as many items as the ending has
characters. -/
def withoutEnding (name : Value) : Except Fault Value :=
  match name with
  | .text s => .ok (.text (dropLastChars eventSuffix.length s))
  | .list items => .ok (.list (items.take (items.length - eventSuffix.length)))
  | _ => .error .wrongKind

/-- Whether a name in the header ends like the name of a hook and names an event. -/
def isHookName (headerName : Value) : Bool :=
  headerName.text?.any fun s => eventSuffix.toList.isSuffixOf s.toList && s != eventSuffix

/-- Whether a signature is that of a hook: it returns nothing and takes one event object. -/
def HookOptions.isHookSignature (o : HookOptions) (index : BaseIndex) (s : Signature) : Bool :=
  TypeSpelling.bare s.returnType == "void" &&
    match s.parameters with
    | [p] => o.isEventType index p.type
    | _ => false

/-- Whether a method is a hook. Nothing else may stand among the methods of a class. -/
def HookOptions.qualifies (o : HookOptions) (index : BaseIndex) (method : Label) :
    Except Fault Bool :=
  match method.form with
  | .method s traits =>
    .ok (traits.isVirtual && !traits.isOverride && !traits.isStatic &&
      isHookName method.headerName && o.isHookSignature index s)
  | _ => .error (Decl.noMethod method "virtual")

/-- The rule for hooks in a tree with the given base classes. -/
def HookOptions.rule (o : HookOptions) (index : BaseIndex) : EventRule where
  origin := "event"
  collisionMark := o.collisionMark
  qualifies := o.qualifies index
  wantedName := fun method => withoutEnding method.name

end Bindery
