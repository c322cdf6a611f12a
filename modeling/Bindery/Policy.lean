import Bindery.Tree
import Bindery.Value.Key

/-!
# Policies

Each module of the bound library has special cases: types that are copied by value, a string class
of which only the conversions are bound, anonymous enumerations that need a name, enumerations that
must be accessible, and conversions that the target cannot express. A policy is data, and every
class it names must be defined in the tree.
-/

namespace Bindery

/-- A conversion operator to drop, picked by the type of its first parameter. -/
structure OperatorRemoval where
  /-- The class that has the operator. -/
  className : Value
  /-- The kind of operator. -/
  operator : OperatorKind
  /-- The bare type of its first parameter. -/
  parameterType : Value
  deriving DecidableEq

/-- An enumeration of a class. -/
structure ClassEnum where
  /-- The class. -/
  className : Value
  /-- The enumeration. -/
  enumName : Value
  deriving DecidableEq

/-- The types that every module copies by value. -/
def commonValueTypes : List String :=
  ["QByteArray", "QListData", "QListData::Data", "QLocale", "QModelIndex", "QPoint", "QPointF",
    "QSize", "QSizeF", "QRect", "QRectF", "QGenericArgument", "QGenericReturnArgument", "QVariant"]

/-- The methods that no module binds: a class and a method of it. -/
def unboundMethods : List (String × String) :=
  [("QString", "fromStdWString"), ("QString", "toStdWString")]

/-- The special cases of one module. Names are values: what is no text names nothing. -/
structure Policy where
  /-- The module, as it was asked for. -/
  module : Value := .text ""
  /-- The class that becomes the target's string type, if it is given. -/
  stringClass : Value := .null
  /-- The methods of the string class that are bound all the same. -/
  stringKeptMethods : List Value := []
  /-- The classes whose anonymous enumerations get a name. -/
  typedEnumClasses : List Value := []
  /-- That name. -/
  typedEnumName : Value := .text "TypeEnum"
  /-- Enumerations to be made accessible. An entry that names none is a fault when its turn
  comes. -/
  publicEnums : List (Option ClassEnum) := []
  /-- The conversions to be dropped. -/
  ignoredOperators : List OperatorRemoval := []
  /-- The full names of the classes that are copied by value. -/
  valueTypes : List Value := commonValueTypes.map Value.text
  deriving DecidableEq

namespace Policy

/-- The policies of the modules that have special cases. -/
def known : List (String × Policy) :=
  [("Core",
      { module := .text "Core"
        stringClass := .text "QString"
        stringKeptMethods := [.text "utf16", .text "fromUtf16"]
        ignoredOperators :=
          [⟨.text "QChar", .explicitConversion, .text "char"⟩,
            ⟨.text "QChar", .conversion, .text "int"⟩] }),
    ("Widgets",
      { module := .text "Widgets"
        typedEnumClasses :=
          ["QGraphicsEllipseItem", "QGraphicsItemGroup", "QGraphicsLineItem", "QGraphicsPathItem",
            "QGraphicsPixmapItem", "QGraphicsPolygonItem", "QGraphicsProxyWidget",
            "QGraphicsRectItem", "QGraphicsSimpleTextItem", "QGraphicsTextItem",
            "QGraphicsWidget"].map Value.text
        publicEnums :=
          [("QGraphicsItem", "Extension"), ("QAbstractSlider", "SliderChange"),
            ("QAbstractItemView", "CursorAction"), ("QAbstractItemView", "State"),
            ("QAbstractItemView", "DropIndicatorPosition")].map fun (className, enumName) =>
              some ⟨.text className, .text enumName⟩ }),
    ("Svg", { module := .text "Svg", typedEnumClasses := [.text "QGraphicsSvgItem"] })]

/-- The policy of a module without extra value types. -/
def base (module : Value) : Policy :=
  match module.text?.bind fun name => known.lookup name with
  | some policy => policy
  | none => { module }

/-- The policy of a module, with extra value types appended unless they are there already. -/
def forModule (module extra : Value) : Except Fault Policy := do
  if !module.isSimple then throw .wrongKind
  let policy := base module
  if !extra.isGiven then return policy
  let added ← extra.elements
  if !added.all Value.isSimple then throw .wrongKind
  return { policy with valueTypes := Value.distinct (policy.valueTypes ++ added) }

/-- Whether the policy makes a class of the given full name a value type. -/
def isValueType (p : Policy) (name : String) : Bool := p.valueTypes.contains (.text name)

/-- The step that checks a policy. -/
def validationStep : String := "policy validation"

/-- Goes through a list until a check fails. -/
def checkAll {α : Type} (check : α → Except Fault Unit) : List α → Except Fault Unit
  | [] => .ok ()
  | a :: rest => do
    check a
    checkAll check rest

/-- The fault of a class that does not have what a step needs. -/
def missingMember (p : Policy) (step : String) (className member : Value) : Fault :=
  .missingDeclaration step p.module (className.display ++ "::" ++ member.display)

/-- Checks that a class has a method of the given name. -/
def checkMethod (p : Policy) (found : Located) (method : Value) : Except Fault Unit :=
  if !(found.decl.overloads method).isEmpty then .ok ()
  else .error (p.missingMember validationStep p.stringClass method)

/-- Checks that the tree defines an enumeration to be made accessible. -/
def checkEnum (p : Policy) (t : Tree) : Option ClassEnum → Except Fault Unit
  | none => .error .malformedText
  | some e => do
    let found ← t.requireClass validationStep p.module e.className
    if (found.decl.findEnum? e.enumName).isNone then
      throw (p.missingMember validationStep e.className e.enumName)

/-- Checks that the tree defines every class, enumeration and kept method that the policy names.
Value types are optional and not checked. -/
def validate (p : Policy) (t : Tree) : Except Fault Unit := do
  let need := t.requireClass validationStep p.module
  if p.stringClass.isGiven then
    let found ← need p.stringClass
    checkAll (p.checkMethod found) p.stringKeptMethods
  checkAll (fun name => (need name).map fun _ => ()) p.typedEnumClasses
  checkAll (p.checkEnum t) p.publicEnums
  checkAll (fun removal => (need removal.className).map fun _ => ()) p.ignoredOperators

end Policy

end Bindery
