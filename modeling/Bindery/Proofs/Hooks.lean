import Bindery.Proofs.Heirs
import Bindery.Proofs.Spelling
import Bindery.Proofs.Synthesis

/-!
# Which methods are hooks

A hook is a virtual method that its class declares first, is named after an event and takes one
event object. It should return nothing, but what is looked at is the bare type of its return type,
from which the marks of pointers and references are gone: a method that returns a pointer to void is
taken for a hook as well. The pass for hooks offers an event for just these methods. Main statement:
`hooks_offered`.
-/

namespace Bindery

/-- Whether a method with the given return type is a hook but for that type: it is virtual, no
override and not static, its name in the header is that of an event with the ending, and it takes
one object of the root class of events or of a class that inherits from it. -/
def HookOptions.IsHookReturning (o : HookOptions) (index : BaseIndex) (returnType : String)
    (method : Label) : Prop :=
  ∃ traits parameter base event, method.form = .method ⟨[parameter], returnType⟩ traits ∧
    traits.isVirtual = true ∧ traits.isOverride = false ∧ traits.isStatic = false ∧
    method.headerName = .text (event ++ eventSuffix) ∧ event ≠ "" ∧ o.eventBase = some base ∧
    Relation.ReflTransGen index.Lists (TypeSpelling.bare parameter.type) base

/-- A name in the header is that of a hook if it is a text with the ending behind something. -/
theorem isHookName_iff {name : Value} :
    isHookName name = true ↔ ∃ event, name = .text (event ++ eventSuffix) ∧ event ≠ "" := by
  rw [isHookName, Option.any_eq_true]
  constructor
  · rintro ⟨s, hs, h⟩
    obtain rfl : name = .text s := by
      cases name <;> cases hs
      rfl
    rw [Bool.and_eq_true, List.isSuffixOf_iff_suffix, bne_iff_ne] at h
    obtain ⟨⟨event, he⟩, other⟩ := h
    have split : s = String.ofList event ++ eventSuffix := by
      rw [← String.ofList_toList (s := s), ← he, String.ofList_append, String.ofList_toList]
    refine ⟨String.ofList event, congrArg Value.text split, ?_⟩
    rintro empty
    rw [empty] at split
    exact other split
  · rintro ⟨event, rfl, he⟩
    refine ⟨event ++ eventSuffix, rfl, ?_⟩
    rw [Bool.and_eq_true, List.isSuffixOf_iff_suffix, bne_iff_ne, String.toList_append]
    exact ⟨List.suffix_append _ _, fun h => he (String.append_eq_right_iff.1 h)⟩

namespace HookOptions

variable {o : HookOptions} {index : BaseIndex}

/-- A method qualifies as a hook just if its return type is void or hides void. -/
theorem qualifies_iff {method : Label} : o.qualifies index method = .ok true ↔
    ∃ returnType, o.IsHookReturning index returnType method ∧
      (TypeSpelling.IsVoid returnType ∨ TypeSpelling.HidesVoid returnType) := by
  constructor
  · intro h
    rw [qualifies] at h
    split at h
    · next signature traits hf =>
      have h := Except.ok.inj h
      rw [Bool.and_eq_true, Bool.and_eq_true, Bool.and_eq_true, Bool.and_eq_true, isHookSignature,
        Bool.and_eq_true, beq_iff_eq, TypeSpelling.bare_eq_void_iff, isHookName_iff] at h
      obtain ⟨⟨⟨⟨isVirtual, isOverride⟩, isStatic⟩, event, name, given⟩, void, takes⟩ := h
      obtain ⟨parameters, returnType⟩ := signature
      cases parameters with
      | nil => cases takes
      | cons parameter others =>
        cases others with
        | nil =>
          obtain ⟨base, hb, derives⟩ := (Option.any_eq_true _ _).1 takes
          refine ⟨returnType, ⟨traits, parameter, base, event, hf, isVirtual, ?_, ?_, name, given,
            hb, (BaseIndex.derives_iff _ _ _).1 derives⟩, void⟩
          · simpa using isOverride
          · simpa using isStatic
        | cons _ _ => cases takes
    · cases h
  · rintro ⟨returnType, ⟨traits, parameter, base, event, hf, isVirtual, isOverride, isStatic, name,
      given, hb, derives⟩, void⟩
    have takes : o.isEventType index parameter.type = true := by
      rw [isEventType, hb, Option.any_some, BaseIndex.derives_iff]
      exact derives
    have named := isHookName_iff.2 ⟨event, name, given⟩
    have returns := (TypeSpelling.bare_eq_void_iff returnType).2 void
    rw [qualifies, hf]
    simp [isVirtual, isOverride, isStatic, named, isHookSignature, returns, takes]

/-- The methods that are to have an event by the rule for hooks: generated ones of generated
classes. -/
theorem mem_due_iff {s : Site} {d m : Decl} {i : Nat} :
    (m, i) ∈ (o.rule index).due s d ↔
      d.label.form.isClass = true ∧ s.isGenerated d.label = true ∧ d.methods[i]? = some m ∧
        (s.inside d.label).isGenerated m.label = true ∧
        ∃ returnType, o.IsHookReturning index returnType m.label ∧
          (TypeSpelling.IsVoid returnType ∨ TypeSpelling.HidesVoid returnType) := by
  rw [← and_assoc, ← Bool.and_eq_true, ← isEventful, EventRule.due]
  split
  · next eventful =>
    rw [List.mem_filter, List.mk_mem_zipIdx_iff_getElem?, EventRule.isDue, Bool.and_eq_true,
      EventRule.accepts_iff, ← qualifies_iff]
    exact (and_iff_right eventful).symm
  · next silent => exact iff_of_false List.not_mem_nil fun h => silent h.1

/-- The pass for hooks offers an event for each method that is to have one, in every tree: it
attaches events for some of them, in their order, and when it has come to an end all of them have
one. -/
theorem exists_offered (o : HookOptions) {w : Work} (running : w.fault = none) :
    ∃ g, ((Pass.hookEvents o).work w).tree = w.tree.extend g ∧ ∀ x ∈ w.tree.survey,
      (∃ sources, sources.Sublist ((o.rule w.tree.baseIndex).due x.site x.decl) ∧
        (o.rule w.tree.baseIndex).AreFor sources (g x.site x.decl)) ∧
      (((Pass.hookEvents o).work w).fault = none →
        ∀ v ∈ (o.rule w.tree.baseIndex).due x.site x.decl,
          ∃ e ∈ (x.extend g).decl.events, (o.rule w.tree.baseIndex).Adapts v.2 v.1.label e) := by
  cases hn : w.tree.hasNamedClasses with
  | true =>
    have rule : (Pass.hookEvents o).eventRule? w.tree = some (o.rule w.tree.baseIndex) := rfl
    rw [Pass.work_eq_attachEvents rule hn]
    refine ⟨_, tree_attachEvents _ w, fun x hx => ⟨?_, fun done v hv => ?_⟩⟩
    · exact EventRule.exists_sources_gains _ w.tree x.site x.decl
    · exact EventRule.isAdapted_of_mem_due ((fault_attachEvents _ running).1 done) hx hv
  | false =>
    -- The bases of classes cannot be indexed where one has no full name.
    have stops : (Pass.hookEvents o).work w = w.stop .wrongKind := by
      rw [Pass.work, Tree.bases, hn]
      rfl
    rw [stops]
    refine ⟨fun _ _ => [], (Tree.extend_eq_self fun _ _ => rfl).symm, fun x _ => ⟨?_, fun h => ?_⟩⟩
    · exact ⟨[], List.nil_sublist _, .nil⟩
    · cases h

end HookOptions

/-- An event is offered for just those methods that are generated, stand in a class that is
generated, are hooks but for their return type, and have a return type that is void or hides void.
The pass for hooks attaches events for such methods only, and for all of them if it comes to an
end. -/
theorem hooks_offered (o : HookOptions) :
    (∀ (index : BaseIndex) (s : Site) (d m : Decl) (i : Nat),
      (m, i) ∈ (o.rule index).due s d ↔
        d.label.form.isClass = true ∧ s.isGenerated d.label = true ∧ d.methods[i]? = some m ∧
          (s.inside d.label).isGenerated m.label = true ∧
          ∃ returnType, o.IsHookReturning index returnType m.label ∧
            (TypeSpelling.IsVoid returnType ∨ TypeSpelling.HidesVoid returnType)) ∧
    ∀ w : Work, w.fault = none →
      ∃ g, ((Pass.hookEvents o).work w).tree = w.tree.extend g ∧ ∀ x ∈ w.tree.survey,
        (∃ sources, sources.Sublist ((o.rule w.tree.baseIndex).due x.site x.decl) ∧
          (o.rule w.tree.baseIndex).AreFor sources (g x.site x.decl)) ∧
        (((Pass.hookEvents o).work w).fault = none →
          ∀ v ∈ (o.rule w.tree.baseIndex).due x.site x.decl,
            ∃ e ∈ (x.extend g).decl.events, (o.rule w.tree.baseIndex).Adapts v.2 v.1.label e) :=
  ⟨fun _ _ _ _ _ => HookOptions.mem_due_iff, fun _ running => o.exists_offered running⟩

/-- A class with two methods that are called with an event, one of which returns a pointer. -/
def hookClass : Decl :=
  .node { name := .text "QWidget", headerName := .text "QWidget",
          form := .classType ⟨[], false, false⟩ } [
    .node { name := .text "mouseEvent", headerName := .text "mouseEvent", role := .method,
            form := .method ⟨[⟨"event", "QEvent *"⟩], "void"⟩
              ⟨true, false, false, false, .null, .plain⟩ } [],
    .node { name := .text "nativeEvent", headerName := .text "nativeEvent", role := .method,
            form := .method ⟨[⟨"event", "QEvent *"⟩], "void *"⟩
              ⟨true, false, false, false, .null, .plain⟩ } []]

/-- The header of that class. -/
def hookUnit : Label where
  name := .text "qwidget.h"
  headerName := .text "qwidget.h"
  form := .unit "include/QtWidgets/qwidget.h"

/-- The tree of that header. -/
def hookTree : Tree where
  units := [.node hookUnit [hookClass]]

/-- The pass attaches events for both methods of the sample. -/
theorem hooks_offered_sample :
    let done := (Pass.hookEvents {}).work { tree := hookTree }
    done.tree.survey.map (·.label.name) = [.text "qwidget.h", .text "QWidget", .text "mouseEvent",
        .text "nativeEvent", .text "mouse", .text "native"] ∧
      ∃ g, done.tree = hookTree.extend g ∧ ∀ x ∈ hookTree.survey,
        ∀ v ∈ (HookOptions.rule {} hookTree.baseIndex).due x.site x.decl,
          ∃ e ∈ (x.extend g).decl.events,
            (HookOptions.rule {} hookTree.baseIndex).Adapts v.2 v.1.label e := by
  intro done
  have completes : done.fault = none := Option.isNone_iff_eq_none.1 (by decide +kernel)
  obtain ⟨g, tree, offered⟩ := (hooks_offered {}).2 { tree := hookTree } rfl
  exact ⟨by decide +kernel, g, tree, fun x hx => (offered x hx).2 completes⟩

/-- Not only methods that return void are offered an event: one that returns a pointer to void is,
too. -/
theorem not_only_void_hooks_offered :
    ¬ ∀ (o : HookOptions) (t : Tree), ∀ x ∈ t.survey, ∀ (m : Decl) (i : Nat),
      (m, i) ∈ (o.rule t.baseIndex).due x.site x.decl ↔
        x.label.form.isClass = true ∧ x.isGenerated = true ∧ x.decl.methods[i]? = some m ∧
          (x.site.inside x.label).isGenerated m.label = true ∧
          ∃ returnType, o.IsHookReturning t.baseIndex returnType m.label ∧
            TypeSpelling.IsVoid returnType := by
  intro h
  let x : Located := ⟨⟨[0, 0], [hookUnit]⟩, hookClass⟩
  have hx : x ∈ hookTree.survey := List.mem_of_getElem? (i := 1) rfl
  have due : ((HookOptions.rule {} hookTree.baseIndex).due x.site x.decl).any fun v =>
      v.1.form.signature?.any fun signature => signature.returnType.toList.contains '*' := by
    decide +kernel
  obtain ⟨⟨m, i⟩, hm, pointer⟩ := List.any_eq_true.1 due
  obtain ⟨-, -, -, -, returnType, ⟨traits, parameter, base, event, hf, -⟩, void⟩ :=
    (h {} hookTree x hx m i).1 hm
  rw [Decl.form, hf] at pointer
  have mark : '*' ∈ returnType.toList := by simpa [Form.signature?] using pointer
  exact void.not_mem_indirections '*' mark List.mem_cons_self

end Bindery
