import Bindery.Declaration.Basic

/-!
# What no pass changes

The passes rename, tag, mark and document declarations. The role of a declaration, its name in the
header, its form but for the mark of value types, and the name of whatever holds declarations of any
kind are the same from the dump to the end. Looking classes up rests on these alone.
-/

namespace Bindery

namespace Form

/-- The form without the mark of value types. -/
def unmarked : Form → Form
  | classType traits => classType { traits with isValue := false }
  | f => f

/-- Whether declarations of any kind can stand in it. -/
def isOpen : Form → Bool
  | unit _ | nameSpace | classType _ => true
  | _ => false

@[simp] theorem isOpen_unmarked (f : Form) : f.unmarked.isOpen = f.isOpen := by cases f <;> rfl

@[simp] theorem isClass_unmarked (f : Form) : f.unmarked.isClass = f.isClass := by
  cases f <;> rfl

@[simp] theorem isUnit_unmarked (f : Form) : f.unmarked.isUnit = f.isUnit := by cases f <;> rfl

@[simp] theorem isEnumeration_unmarked (f : Form) :
    f.unmarked.isEnumeration = f.isEnumeration := by
  cases f <;> rfl

@[simp] theorem isEnumItem_unmarked (f : Form) : f.unmarked.isEnumItem = f.isEnumItem := by
  cases f <;> rfl

@[simp] theorem isScope_unmarked (f : Form) : f.unmarked.isScope = f.isScope := by
  cases f <;> rfl

@[simp] theorem methodTraits?_unmarked (f : Form) : f.unmarked.methodTraits? = f.methodTraits? := by
  cases f <;> rfl

@[simp] theorem signature?_unmarked (f : Form) : f.unmarked.signature? = f.signature? := by
  cases f <;> rfl

@[simp] theorem adapter?_unmarked (f : Form) : f.unmarked.adapter? = f.adapter? := by
  cases f <;> rfl

/-- Classes are open. -/
theorem isOpen_of_isClass {f : Form} (h : f.isClass = true) : f.isOpen = true := by
  cases f <;> first | rfl | simp [isClass, classTraits?] at h

/-- What is open is a scope. -/
theorem isScope_of_isOpen {f : Form} (h : f.isOpen = true) : f.isScope = true := by
  cases f <;> first | rfl | simp [isOpen] at h

/-- Enumerations are scopes. -/
theorem isScope_of_isEnumeration {f : Form} (h : f.isEnumeration = true) : f.isScope = true := by
  cases f <;> first | rfl | simp [isEnumeration] at h

/-- Scopes are no methods. -/
theorem isMethod_of_isScope {f : Form} (h : f.isScope = true) : f.isMethod = false := by
  cases f <;> first | rfl | simp [isScope] at h

/-- Scopes are no events. -/
theorem isEvent_of_isScope {f : Form} (h : f.isScope = true) : f.isEvent = false := by
  cases f <;> first | rfl | simp [isScope] at h

/-- Only enumerators can stand in enumerations. -/
theorem isOpen_of_isEnumeration {f : Form} (h : f.isEnumeration = true) : f.isOpen = false := by
  cases f <;> first | rfl | simp [isEnumeration] at h

/-- Whether a class is only declared is not a matter of its mark. -/
theorem any_classTraits?_unmarked (f : Form) :
    (f.unmarked.classTraits?.any fun c => !c.isIncomplete) =
      f.classTraits?.any fun c => !c.isIncomplete := by
  cases f <;> rfl

end Form

namespace Label

/-- Two labels that one declaration can have at different times. -/
structure Agrees (l l' : Label) : Prop where
  /-- The role is the same. -/
  role : l'.role = l.role
  /-- The name in the header is the same. -/
  headerName : l'.headerName = l.headerName
  /-- The form is the same but for the mark of value types. -/
  form : l'.form.unmarked = l.form.unmarked
  /-- What declarations of any kind can stand in keeps its name. -/
  name : l.form.isOpen = true → l'.name = l.name

namespace Agrees

variable {l l' l'' : Label}

/-- A label agrees with itself. -/
theorem refl (l : Label) : l.Agrees l := ⟨rfl, rfl, rfl, fun _ => rfl⟩

/-- Whatever does not depend on the mark of value types is the same. -/
theorem congr_form {α : Type} (h : l.Agrees l') (g : Form → α) (hg : ∀ f, g f.unmarked = g f) :
    g l'.form = g l.form := by
  rw [← hg, h.form, hg]

/-- Agreement goes on from one time to the next. -/
theorem trans (h : l.Agrees l') (h' : l'.Agrees l'') : l.Agrees l'' where
  role := h'.role.trans h.role
  headerName := h'.headerName.trans h.headerName
  form := h'.form.trans h.form
  name ho := (h'.name ((h.congr_form _ Form.isOpen_unmarked).trans ho)).trans (h.name ho)

theorem isOpen (h : l.Agrees l') : l'.form.isOpen = l.form.isOpen :=
  h.congr_form _ Form.isOpen_unmarked

theorem isClass (h : l.Agrees l') : l'.form.isClass = l.form.isClass :=
  h.congr_form _ Form.isClass_unmarked

theorem isUnit (h : l.Agrees l') : l'.form.isUnit = l.form.isUnit :=
  h.congr_form _ Form.isUnit_unmarked

theorem isEnumeration (h : l.Agrees l') : l'.form.isEnumeration = l.form.isEnumeration :=
  h.congr_form _ Form.isEnumeration_unmarked

theorem isEnumItem (h : l.Agrees l') : l'.form.isEnumItem = l.form.isEnumItem :=
  h.congr_form _ Form.isEnumItem_unmarked

theorem isScope (h : l.Agrees l') : l'.form.isScope = l.form.isScope :=
  h.congr_form _ Form.isScope_unmarked

theorem methodTraits? (h : l.Agrees l') : l'.form.methodTraits? = l.form.methodTraits? :=
  h.congr_form _ Form.methodTraits?_unmarked

theorem isMethod (h : l.Agrees l') : l'.form.isMethod = l.form.isMethod :=
  congrArg Option.isSome h.methodTraits?

theorem signature? (h : l.Agrees l') : l'.form.signature? = l.form.signature? :=
  h.congr_form _ Form.signature?_unmarked

theorem isEvent (h : l.Agrees l') : l'.form.isEvent = l.form.isEvent :=
  congrArg Option.isSome (h.congr_form _ Form.adapter?_unmarked)

end Agrees

/-- A suppressed declaration is still the same declaration. -/
theorem agrees_suppress (l : Label) : l.Agrees l.suppress := ⟨rfl, rfl, rfl, fun _ => rfl⟩

end Label

end Bindery
