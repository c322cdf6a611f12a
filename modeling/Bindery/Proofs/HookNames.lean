import Bindery.Proofs.Ending
import Bindery.Proofs.Hooks

/-!
# What the events of hooks are called

That a method is named after an event is read off its name in the header; the event is named by what
the target-facing name leaves when its last characters are taken away. A dump may give the two names
apart, and then the second need not end in what is taken away. Nothing that is done to a tree later
matters here: a method is recased at most, which neither takes the ending from its name nor gives it
one. So an event is called after its hook just if the hook had the ending in the dump. Main
statements: `Tree.isLasting_keepsEndings`, `hook_events_named`.
-/

namespace Bindery

/-! ## Methods since the dump -/

/-- A method as it was dumped and the same method at a later time, in whose name the ending is as it
was. -/
structure Located.KeepsEnding (x y : Located) : Prop where
  /-- It has kept its address. -/
  address : y.site.address = x.site.address
  /-- It is the same declaration. -/
  agrees : x.label.Agrees y.label
  /-- Its name has the ending just if it had it. -/
  ending : ∃ given current, x.label.name = .text given ∧ y.label.name = .text current ∧
    (IsEventName current ↔ IsEventName given)

/-- Whatever is done to the label of a method, its name has the ending just if it had it. -/
theorem Located.MayEdit.isEventName_iff {x : Located} {l : Label} {s : String} (h : x.MayEdit l)
    (method : x.label.form.isMethod = true) (named : x.label.name = .text s) :
    ∃ s', l.name = .text s' ∧ (IsEventName s' ↔ IsEventName s) := by
  rcases h.name_of_isMethod method named with same | ⟨pattern, recased⟩
  · exact ⟨s, same, Iff.rfl⟩
  · exact ⟨pattern.recase s, recased, isEventName_recase pattern s⟩

namespace Tree

/-- Whether every method was there in an earlier tree, and its name has the ending just if it had it
there. -/
def KeepsEndings (start t : Tree) : Prop :=
  ∀ y ∈ t.survey, y.label.form.isMethod = true → ∃ x ∈ start.survey, x.KeepsEnding y

/-- In the dump, methods are what they are. -/
theorem IsLoaded.keepsEndings {start : Tree} (h : start.IsLoaded) : start.KeepsEndings start := by
  intro x hx _
  obtain ⟨s, named⟩ := Value.exists_eq_text (h.label x hx).named
  exact ⟨x, hx, rfl, .refl _, s, s, named, named, Iff.rfl⟩

/-- From the dump on, the names of methods keep the ending, and get none. -/
theorem isLasting_keepsEndings (start : Tree) : IsLasting start.KeepsEndings where
  advance _ _ h := h
  relabel {t f} hf h := by
    intro y hy method
    obtain ⟨z, hz, rfl⟩ := mem_survey_relabel.1 hy
    rw [Located.label_relabel] at method
    have agrees := (hf z hz).agrees
    rw [agrees.isMethod] at method
    obtain ⟨x, hx, kept⟩ := h z hz method
    obtain ⟨given, before, hgiven, hbefore, same⟩ := kept.ending
    obtain ⟨current, hcurrent, recased⟩ := (hf z hz).isEventName_iff method hbefore
    rw [← Located.label_relabel f] at agrees hcurrent
    exact ⟨x, hx, kept.address, kept.agrees.trans agrees, given, current, hgiven, hcurrent,
      recased.trans same⟩
  extend {t rule g} hg h := by
    intro y hy method
    rcases hg.gainsUnder.cases y hy with ⟨z, hz, rfl⟩ | ⟨z, hz, i, e, he, rfl⟩
    · have label := Located.label_extend g z
      rw [label] at method
      obtain ⟨x, hx, kept⟩ := h z hz method
      exact ⟨x, hx, kept.address, label ▸ kept.agrees, label ▸ kept.ending⟩
    · -- What is gained are events.
      have event := he.event
      rw [Located.label_member] at method
      cases hf : e.label.form <;>
        simp [hf, Form.isMethod, Form.methodTraits?, Form.isEvent, Form.adapter?] at method event

end Tree

/-! ## Wanted names -/

/-- Whether a wanted name is that of a method without the ending, and is not empty. -/
def IsCalledAfter (wanted : String) (method : Label) : Prop :=
  wanted ≠ "" ∧ method.name = .text (wanted ++ eventSuffix)

namespace HookOptions

/-- What is wanted for a hook is its name without the ending just if it has the ending. -/
theorem exists_wantedName (o : HookOptions) (index : BaseIndex) {method : Label} {current : String}
    (named : method.name = .text current) : ∃ wanted,
      (o.rule index).wantedName method = .ok (.text wanted) ∧
        (IsCalledAfter wanted method ↔ IsEventName current) := by
  refine ⟨dropLastChars eventSuffix.length current, ?_, ?_⟩
  · change withoutEnding method.name = _
    rw [named]
    rfl
  · rw [IsCalledAfter, named, Value.text.injEq, eq_comm (a := current), append_dropLastChars_iff]

end HookOptions

/-- What is said of an event `e` among those that the class `x` gains: it is made from the hook `m`,
which was `y` in the dump and was called `given` there, and it should be called `wanted`. -/
structure HookOptions.Names (o : HookOptions) (start t : Tree) (x : Located) (gained : List Decl)
    (e m : Decl) (y : Located) (given wanted : String) : Prop where
  /-- The event is made from the hook, which is a method of the class. -/
  source : ∃ i, x.decl.methods[i]? = some m ∧ e.IsMadeFrom i m
  /-- The hook was there in the dump. -/
  dumped : y ∈ start.survey ∧ y.label.name = .text given
  /-- It stands where it stood. -/
  kept : ∃ j, x.decl.members[j]? = some m ∧ y.KeepsEnding (x.member j m)
  /-- What is wanted is told from the hook. -/
  wants : (o.rule t.baseIndex).wantedName m.label = .ok (.text wanted)
  /-- The event gets a name that is free for what is wanted among the members and the events that are
  gained before it. -/
  named : ∃ earlier later, gained = earlier ++ e :: later ∧
    e.name = (o.rule t.baseIndex).freeName (x.decl.members ++ earlier) (.text wanted)
  /-- What is wanted is the name of the hook without the ending just if the name in the dump had the
  ending. -/
  called : IsCalledAfter wanted m.label ↔ IsEventName given
  /-- That is so if the dump gives but one name. -/
  single : y.label.headerName = y.label.name → Text.HoldsCodes given →
    IsCalledAfter wanted m.label

/-- At any time from the dump on, the pass for hooks comes to an end; then every hook has an event,
and each event that was made is made from a hook. What it should be called is the name of the hook
without the ending just if the hook had the ending in the dump, for which it is enough that the dump
gave it but one name. -/
theorem hook_events_named {source : String} {document : Value} {start t : Tree}
    (loaded : Tree.ofDocument source document = .ok start) (steps : start.Steps t)
    (o : HookOptions) (w : Work) (tree : w.tree = t) (running : w.fault = none) :
    ((Pass.hookEvents o).work w).fault = none ∧
      ∃ g, ((Pass.hookEvents o).work w).tree = t.extend g ∧ ∀ x ∈ t.survey,
        (∀ v ∈ (o.rule t.baseIndex).due x.site x.decl,
          ∃ e ∈ (x.extend g).decl.events, (o.rule t.baseIndex).Adapts v.2 v.1.label e) ∧
        ∀ e ∈ g x.site x.decl,
          ∃ m y given wanted, o.Names start t x (g x.site x.decl) e m y given wanted := by
  subst tree
  have isLoaded := Tree.isLoaded_ofDocument loaded
  have orderly : w.tree.IsOrderly := Tree.isLasting_isOrderly.steps steps isLoaded.isOrderly
  have kept : start.KeepsEndings w.tree :=
    (Tree.isLasting_keepsEndings start).steps steps isLoaded.keepsEndings
  have rule : (Pass.hookEvents o).eventRule? w.tree = some (o.rule w.tree.baseIndex) := rfl
  have attachable := (orderly.isAttachable_iff rule).2 fun _ _ _ _ _ _ => rfl
  rw [Pass.work_eq_attachEvents rule orderly.named]
  refine ⟨(fault_attachEvents _ running).2 attachable, _, tree_attachEvents _ w, fun x hx =>
    ⟨fun v hv => EventRule.isAdapted_of_mem_due attachable hx hv, fun e he => ?_⟩⟩
  obtain ⟨earlier, later, split⟩ := List.append_of_mem he
  obtain ⟨⟨m, i⟩, hv, isFor, name, hname, named⟩ := EventRule.exists_due_of_gains _ _ split
  obtain ⟨-, -, hm, -, returnType, ⟨-, -, -, event, -, -, -, -, header, given, -⟩, -⟩ :=
    HookOptions.mem_due_iff.1 hv
  obtain ⟨parameters, form, -⟩ := isFor.adapter
  have member := List.mem_of_getElem? hm
  obtain ⟨j, hj⟩ := List.mem_iff_getElem?.1 (List.mem_filter.1 member).1
  obtain ⟨y, hy, keeps⟩ :=
    kept (x.member j m) (Tree.member_mem_survey hx hj) (orderly.isMethod hx member).1
  obtain ⟨dumped, current, hdumped, hcurrent, ending⟩ := keeps.ending
  obtain ⟨wanted, hwanted, called⟩ :=
    o.exists_wantedName w.tree.baseIndex (hcurrent : m.label.name = .text current)
  obtain rfl : name = .text wanted := Except.ok.inj (hname.symm.trans hwanted)
  refine ⟨m, y, dumped, wanted, {
    source := ⟨i, hm, _, congrArg Form.adapter? form, rfl⟩
    dumped := ⟨hy, hdumped⟩
    kept := ⟨j, hj, keeps⟩
    wants := hwanted
    named := ⟨earlier, later, split, named⟩
    called := called.trans ending
    single := fun one holds => (called.trans ending).2 ?_ }⟩
  -- With one name only, that of the dump is the one in the header, which has the ending.
  have same : Value.text (event ++ eventSuffix) = .text dumped :=
    header.symm.trans (keeps.agrees.headerName.trans (one.trans hdumped))
  obtain rfl := Value.text.inj same
  exact isEventName_of_holdsCodes holds given

/-- A dump of a class with two hooks, the second of which is given a name of its own. -/
def renamedHookDump : Value :=
  .mapping [("translation_units", .list [
    .mapping [("name", .text "qwidget.h"), ("file_path", .text "include/QtWidgets/qwidget.h"),
      ("declarations", .list [
        .mapping [("kind", .text "class"), ("name", .text "QWidget"), ("declarations", .list [
          .mapping [("kind", .text "method"), ("name", .text "mousePressEvent"),
            ("virtual", .bool true), ("parameters", .list [
              .mapping [("name", .text "event"), ("type", .text "QEvent *")]])],
          .mapping [("kind", .text "method"), ("name", .text "onKeyPress"),
            ("original_name", .text "keyPressEvent"), ("virtual", .bool true),
            ("parameters", .list [
              .mapping [("name", .text "event"), ("type", .text "QEvent *")]])]])]])]])]

/-- The second hook of that class. -/
def renamedHook : Decl :=
  .node { name := .text "onKeyPress", headerName := .text "keyPressEvent", role := .method,
          form := .method ⟨[⟨"event", "QEvent *"⟩], "void"⟩
            ⟨true, false, false, false, .null, .plain⟩ } []

/-- That class. -/
def renamedHookClass : Decl :=
  .node { name := .text "QWidget", headerName := .text "QWidget",
          form := .classType ⟨[], false, false⟩ } [
    .node { name := .text "mousePressEvent", headerName := .text "mousePressEvent", role := .method,
            form := .method ⟨[⟨"event", "QEvent *"⟩], "void"⟩
              ⟨true, false, false, false, .null, .plain⟩ } [],
    renamedHook]

/-- The tree of that dump. -/
def renamedHookTree : Tree where
  units := [.node hookUnit [renamedHookClass]]

/-- In the sample, the names are recased before events are made. The first event is called after its
hook, and the second is not. -/
theorem hook_events_named_sample :
    let t := ((Pass.rename [.method] .upperCamel).work { tree := renamedHookTree }).tree
    let done := (Pass.hookEvents {}).work { tree := t }
    done.tree.survey.map (·.label.name) = [.text "qwidget.h", .text "QWidget",
        .text "MousePressEvent", .text "OnKeyPress", .text "MousePress", .text "OnKey"] ∧
      done.fault = none ∧ ∃ g, done.tree = t.extend g ∧ ∀ x ∈ t.survey, ∀ e ∈ g x.site x.decl,
        ∃ m y given wanted,
          HookOptions.Names {} renamedHookTree t x (g x.site x.decl) e m y given wanted := by
  intro t done
  have loaded : Tree.ofDocument "dump.yml" renamedHookDump = .ok renamedHookTree := rfl
  have steps : renamedHookTree.Steps t := .single (.pass _ { tree := renamedHookTree } rfl)
  obtain ⟨fault, g, tree, named⟩ := hook_events_named loaded steps {} { tree := t } rfl rfl
  exact ⟨by decide +kernel, fault, g, tree, fun x hx => (named x hx).2⟩

/-- Not every event that is made from a hook is called after it: where the dump gives the hook a
name of its own, that name loses as many characters all the same. -/
theorem not_hook_events_called_after :
    ¬ ∀ (source : String) (document : Value) (start t : Tree),
      Tree.ofDocument source document = .ok start → start.Steps t →
      ∀ (o : HookOptions) (w : Work), w.tree = t → w.fault = none →
        ∀ g, ((Pass.hookEvents o).work w).tree = t.extend g →
          ∀ x ∈ t.survey, ∀ e ∈ g x.site x.decl, ∃ i m wanted, x.decl.methods[i]? = some m ∧
            e.IsMadeFrom i m ∧ (o.rule t.baseIndex).wantedName m.label = .ok (.text wanted) ∧
            IsCalledAfter wanted m.label := by
  intro called
  let rule := HookOptions.rule {} renamedHookTree.baseIndex
  let x : Located := ⟨⟨[0, 0], [hookUnit]⟩, renamedHookClass⟩
  have hx : x ∈ renamedHookTree.survey := List.mem_of_getElem? (i := 1) rfl
  have second : (rule.gains renamedHookTree x.site x.decl).any (fun e =>
      e.form.adapter?.any fun a => a.source.any fun s => s.target == .sibling 1) = true := by
    decide +kernel
  obtain ⟨e, he, target⟩ := List.any_eq_true.1 second
  obtain ⟨i, m, wanted, hm, ⟨a, ha, source⟩, -, -, name⟩ := called "dump.yml" renamedHookDump
    renamedHookTree renamedHookTree rfl .refl {} { tree := renamedHookTree } rfl rfl
    (rule.gains renamedHookTree) (tree_attachEvents rule { tree := renamedHookTree }) x hx e he
  rw [ha, Option.any_some, source, Option.any_some, beq_iff_eq] at target
  obtain rfl : i = 1 := SourceTarget.sibling.inj target
  obtain rfl : renamedHook = m := Option.some.inj hm
  have ending : eventSuffix.toList <:+ "onKeyPress".toList := by
    rw [Value.text.inj name, String.toList_append]
    exact List.suffix_append _ _
  revert ending
  decide

end Bindery
