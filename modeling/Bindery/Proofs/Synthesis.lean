import Bindery.Proofs.Order
import Bindery.Proofs.Sources
import Mathlib

/-!
# What a pass for events does

A pass for events appends events for methods that qualify, in their order, and counts them. If it
comes to an end, every method that qualifies is adapted; and whether it does depends only on whether
it can be told of every method if it qualifies, which for signals is a matter of the labels of the
sections. So at any time from the dump on, methods are adapted once. Main statement:
`Tree.adapts_methods_once`.
-/

namespace Bindery

namespace EventRule

variable {rule : EventRule} {site : Site} {label : Label}

/-! ## One class -/

/-- Whether an event adapts the `i`-th method of its class: this is its source, or it is of the family
of the rule and its source has the signature of the method. -/
def Adapts (rule : EventRule) (i : Nat) (method : Label) (e : Decl) : Prop :=
  ∃ a source, e.form.adapter? = some a ∧ a.source = some source ∧
    (source.target = .sibling i ∨
      a.origin = .text rule.origin ∧ source.signature.alike method.signature = true)

/-- A method is adapted in a class just if an event of the class adapts it. -/
theorem isAdapted_iff {d : Decl} {i : Nat} {method : Label} :
    rule.isAdapted d.members i method = true ↔ ∃ e ∈ d.events, rule.Adapts i method e := by
  have adapts : ∀ e : Decl, rule.adapts i method e = true ↔ rule.Adapts i method e := by
    intro e
    rw [EventRule.adapts, Adapts]
    cases e.form.adapter? with
    | none => simp
    | some a =>
      obtain ⟨origin, source, parameters⟩ := a
      cases source with
      | none => simp
      | some source => simp
  rw [isAdapted, List.any_eq_true]
  simp only [Bool.and_eq_true, adapts, Decl.events, Decl.membersIn, List.mem_filter, and_assoc]

/-- In a class with a full name, offering a method does not stop if it can be told whether it
qualifies and how its event should be called. -/
theorem fault_offer {i : Nat} {method : Label} {r : Roster} (running : r.fault = none)
    (named : (site.chain label).isNamed = true)
    (judged : (site.inside label).isGenerated method = true →
      ∃ b, rule.qualifies method = .ok b)
    (called : ∃ wanted, rule.wantedName method = .ok wanted) :
    (rule.offer site label i method r).fault = none := by
  have offered := rule.offered site label i method r
  generalize rule.offer site label i method r = r' at offered
  cases offered with
  | stopped why =>
    cases why with
    | earlier h =>
      rw [running] at h
      cases h
    | unjudged generated h =>
      obtain ⟨b, hb⟩ := judged generated
      rw [h] at hb
      cases hb
    | uncalled h =>
      obtain ⟨wanted, hw⟩ := called
      rw [h] at hw
      cases hw
    | unnamed h =>
      rw [named] at h
      cases h
  | spared => exact running
  | kept => exact running
  | taken _ _ _ _ _ _ _ _ fault => exact fault

/-- In a class with a full name, offering methods does not stop if it can be told of each whether it
qualifies and how its event should be called. -/
theorem fault_offerAll (named : (site.chain label).isNamed = true) (methods : List Decl) :
    ∀ (i : Nat) (r : Roster), r.fault = none →
      (∀ m ∈ methods, (site.inside label).isGenerated m.label = true →
        ∃ b, rule.qualifies m.label = .ok b) →
      (∀ m ∈ methods, ∃ wanted, rule.wantedName m.label = .ok wanted) →
        (rule.offerAll site label i methods r).fault = none := by
  induction methods with
  | nil => exact fun _ _ running _ _ => running
  | cons m methods ih =>
    intro i r running judged called
    refine ih (i + 1) _ ?_ (fun n hn => judged n (List.mem_cons_of_mem _ hn))
      fun n hn => called n (List.mem_cons_of_mem _ hn)
    exact fault_offer running named (judged m List.mem_cons_self) (called m List.mem_cons_self)

/-! ## All classes -/

/-- What the elements of a list that satisfy a condition add up to. -/
private theorem sum_map_filter {α : Type} (p : α → Bool) (f : α → Nat) (as : List α) :
    ((as.filter p).map f).sum = (as.map fun a => if p a then f a else 0).sum := by
  induction as with
  | nil => rfl
  | cons a as ih =>
    rw [List.filter_cons, List.map_cons, List.sum_cons, ← ih]
    cases hp : p a with
    | true => simp
    | false => simp

end EventRule

/-- What the declarations of a tree add up to. -/
def Tree.total (t : Tree) (f : Site → Decl → Nat) : Nat := (t.survey.map fun x => f x.site x.decl).sum

/-- What the visited classes add up to. -/
theorem EventRule.sum_visited (rule : EventRule) (t : Tree) (f : Roster → Nat) :
    ((rule.visited t).map fun v => f v.2).sum = t.total fun s d =>
      if isEventful s d.label && s.isVisited (Stop.ofRosters (rule.visited t)) then
        f (rule.roster s d)
      else 0 := by
  have visited := rule.visited_eq t
  generalize Stop.ofRosters (rule.visited t) = stop at visited ⊢
  rw [visited, sum_map_filter, List.map_map, sum_map_filter, Tree.total]
  refine congrArg List.sum (List.map_congr_left fun x _ => ?_)
  simp only [Bool.and_eq_true, ite_and]
  rfl

/-- What the visited classes got is what is gained. -/
theorem EventRule.sum_attached (rule : EventRule) (t : Tree) :
    ((rule.visited t).map fun v => v.2.attached.length).sum =
      t.total fun s d => (rule.gains t s d).length := by
  rw [rule.sum_visited t fun r => r.attached.length]
  refine congrArg t.total (funext fun s => funext fun d => ?_)
  rw [EventRule.gains]
  split <;> rfl

/-- Attaching events raises three counters by what the visited classes add up to. -/
theorem tally_attachEvents (rule : EventRule) (w : Work) : (attachEvents rule w).tally =
    ((w.tally.addSome "existing" ((rule.visited w.tree).map fun v => v.2.existing).sum).addSome
      "synthesized" ((rule.visited w.tree).map fun v => v.2.attached.length).sum).addSome
        "collisions" ((rule.visited w.tree).map fun v => v.2.collisions).sum := by
  have total : ∀ f : Roster → Nat, ((rule.visited w.tree).map fun v => f v.2).sum =
      ((rule.visited w.tree).map fun v => f v.2).foldl Nat.add 0 :=
    fun f => List.sum_eq_foldl
  rw [total Roster.existing, total fun r => r.attached.length, total Roster.collisions]
  change (Work.stopAt _ (Stop.ofRosters (rule.visited w.tree))).tally = _
  cases Stop.ofRosters (rule.visited w.tree) <;> rfl

/-- Two of the counters, read afterwards. -/
theorem count_attachEvents (rule : EventRule) (w : Work) :
    (attachEvents rule w).tally.count "existing" = w.tally.count "existing" +
        ((rule.visited w.tree).map fun v => v.2.existing).sum ∧
      (attachEvents rule w).tally.count "synthesized" = w.tally.count "synthesized" +
        ((rule.visited w.tree).map fun v => v.2.attached.length).sum := by
  rw [tally_attachEvents]
  constructor <;> simp [Tally.count_addSome]

/-- If classes have full names, a pass with a rule for events does nothing but attach them. -/
theorem Pass.work_eq_attachEvents {pass : Pass} {w : Work} {rule : EventRule}
    (h : pass.eventRule? w.tree = some rule) (named : w.tree.hasNamedClasses = true) :
    pass.work w = attachEvents rule w := by
  cases pass with
  | signalEvents options =>
    obtain rfl := Option.some.inj h
    rfl
  | hookEvents options =>
    obtain rfl := Option.some.inj h
    rw [work, Tree.bases, if_pos named]
    rfl
  | undefinedEvents =>
    obtain rfl := Option.some.inj h
    rfl
  | _ => cases h

namespace Pass

/-- Whether a pass for events can tell of a method if it qualifies: of a hook it always can, and of a
signal if the label of its section is simple. -/
def judges : Pass → Label → Bool
  | signalEvents _, method =>
    method.form.methodTraits?.any fun traits => traits.sectionLabel.isSimple
  | hookEvents _, _ => true
  | _, _ => false

variable {pass : Pass} {t : Tree} {rule : EventRule} {method : Label}

/-- A pass can tell of a method if it qualifies just if its rule can. -/
theorem judges_iff (h : pass.eventRule? t = some rule) (hm : method.form.isMethod = true) :
    pass.judges method = true ↔ ∃ b, rule.qualifies method = .ok b := by
  obtain ⟨traits, ht⟩ := Option.isSome_iff_exists.1 hm
  cases pass with
  | signalEvents options =>
    obtain rfl := Option.some.inj h
    change _ ↔ ∃ b, options.qualifies method = .ok b
    rw [judges, SignalOptions.qualifies, ht, Option.any_some]
    dsimp only
    rw [Value.isMember]
    cases traits.sectionLabel.isSimple with
    | true => exact iff_of_true rfl ⟨_, rfl⟩
    | false => simp
  | hookEvents options =>
    obtain rfl := Option.some.inj h
    refine iff_of_true rfl ?_
    change ∃ b, options.qualifies t.baseIndex method = .ok b
    cases hf : method.form with
    | method signature traits =>
      rw [HookOptions.qualifies, hf]
      exact ⟨_, rfl⟩
    | _ =>
      rw [hf] at ht
      cases ht
  | undefinedEvents =>
    obtain rfl := Option.some.inj h
    simp [judges, undefinedRule]
  | _ => cases h

/-- A pass can tell how the event of a method that is named by a text should be called. -/
theorem exists_wantedName (h : pass.eventRule? t = some rule) (text : method.name.isText = true) :
    ∃ wanted, rule.wantedName method = .ok wanted := by
  cases pass with
  | signalEvents options =>
    obtain rfl := Option.some.inj h
    exact ⟨_, rfl⟩
  | hookEvents options =>
    obtain rfl := Option.some.inj h
    change ∃ wanted, withoutEnding method.name = .ok wanted
    obtain ⟨s, hn⟩ := Value.exists_eq_text text
    rw [hn]
    exact ⟨_, rfl⟩
  | undefinedEvents =>
    obtain rfl := Option.some.inj h
    exact ⟨_, rfl⟩
  | _ => cases h

end Pass

namespace Tree

variable {t : Tree} {pass : Pass} {rule : EventRule}

/-- A method of a class is a method, and is named by a text. -/
theorem IsOrderly.isMethod (h : t.IsOrderly) {x : Located} (hx : x ∈ t.survey) {m : Decl}
    (hm : m ∈ x.decl.methods) : m.form.isMethod = true ∧ m.name.isText = true := by
  obtain ⟨hm, role⟩ := List.mem_filter.1 hm
  obtain ⟨i, hi⟩ := List.mem_iff_getElem?.1 hm
  have member := member_mem_survey hx hi
  have method : m.form.isMethod = true :=
    h.shaped.methods _ member (beq_iff_eq.1 role) (List.cons_ne_nil _ _)
  exact ⟨method, h.methods _ member method⟩

/-- In a tree whose classes have full names, attaching events comes to an end if it can be told of
every method of a class, both of which are generated, whether it qualifies and how its event should be
called. -/
theorem isAttachable_of_methods (named : t.hasNamedClasses = true)
    (judged : ∀ x ∈ t.survey, isEventful x.site x.label = true → ∀ m ∈ x.decl.methods,
      (x.site.inside x.label).isGenerated m.label = true → ∃ b, rule.qualifies m.label = .ok b)
    (called : ∀ x ∈ t.survey, isEventful x.site x.label = true → ∀ m ∈ x.decl.methods,
      ∃ wanted, rule.wantedName m.label = .ok wanted) : t.IsAttachable rule := by
  intro x hx eventful
  have hn : (x.site.chain x.label).isNamed = true := by
    rw [hasNamedClasses_eq, List.all_eq_true] at named
    have isClass := eventful
    rw [isEventful, Bool.and_eq_true] at isClass
    exact named x (List.mem_filter.2 ⟨hx, isClass.1⟩)
  exact EventRule.fault_offerAll hn x.decl.methods 0 _ rfl (judged x hx eventful)
    (called x hx eventful)

/-- A pass for events comes to an end just if it can tell of every method of a class, both of which
are generated, if it qualifies. -/
theorem IsOrderly.isAttachable_iff (h : t.IsOrderly) (hr : pass.eventRule? t = some rule) :
    t.IsAttachable rule ↔ ∀ x ∈ t.survey, isEventful x.site x.label = true →
      ∀ m ∈ x.decl.methods, (x.site.inside x.label).isGenerated m.label = true →
        pass.judges m.label = true := by
  constructor
  · intro attachable x hx eventful m hm generated
    obtain ⟨i, hi⟩ := List.mem_iff_getElem?.1 hm
    obtain ⟨b, hb, -⟩ := (rule.serves_of_offerAll x.site x.label x.decl.methods 0
      { members := x.decl.members } (attachable x hx eventful)).2 i m hi generated
    exact (Pass.judges_iff hr (h.isMethod hx hm).1).2 ⟨b, hb⟩
  · intro judged
    refine isAttachable_of_methods h.named (fun x hx eventful m hm generated => ?_)
      fun x hx _ m hm => Pass.exists_wantedName hr (h.isMethod hx hm).2
    exact (Pass.judges_iff hr (h.isMethod hx hm).1).1 (judged x hx eventful m hm generated)

end Tree

/-- What a pass with a rule for events does to a tree. -/
structure Work.HasAttached (rule : EventRule) (judges : Label → Bool) (w : Work)
    (g : Site → Decl → List Decl) (done : Work) : Prop where
  /-- It appends, and leaves alone what is there. -/
  tree : done.tree = w.tree.extend g
  /-- What a class gets are events for methods that are to have one, in their order. -/
  sources : ∀ x ∈ w.tree.survey, ∃ sources,
    sources.Sublist (rule.due x.site x.decl) ∧ rule.AreFor sources (g x.site x.decl)
  /-- They are counted. -/
  synthesized : done.tally.count "synthesized" =
    w.tally.count "synthesized" + w.tree.total fun s d => (g s d).length
  /-- It comes to an end just if it can tell of every method of a class, both of which are generated,
  if it qualifies. -/
  completes : done.fault = none ↔
    ∀ x ∈ w.tree.survey, isEventful x.site x.label = true →
      ∀ m ∈ x.decl.methods, (x.site.inside x.label).isGenerated m.label = true →
        judges m.label = true
  /-- In the end all methods that are to have an event have one. -/
  adapted : done.fault = none → ∀ x ∈ w.tree.survey, ∀ v ∈ rule.due x.site x.decl,
    ∃ e ∈ (x.extend g).decl.events, rule.Adapts v.2 v.1.label e
  /-- In the end all methods that are to have an event are counted. -/
  counted : done.fault = none →
    done.tally.count "synthesized" + done.tally.count "existing" =
      w.tally.count "synthesized" + w.tally.count "existing" +
        w.tree.total fun s d => (rule.due s d).length

namespace EventRule

variable {rule : EventRule} {t : Tree}

/-- What is gained is made for methods that are to have an event, in order. -/
theorem exists_sources_gains (rule : EventRule) (t : Tree) (s : Site) (d : Decl) : ∃ sources,
    sources.Sublist (rule.due s d) ∧ rule.AreFor sources (rule.gains t s d) := by
  rw [gains]
  split
  · next h =>
    rw [Bool.and_eq_true] at h
    obtain ⟨sources, hsub, hfor, -⟩ := rule.exists_sources h.1
    exact ⟨sources, hsub, hfor⟩
  · exact ⟨[], List.nil_sublist _, .nil⟩

/-- What is gained is made for a method that is to have an event, under a name that is free among the
members and what is gained before, for the name that is wanted. -/
theorem exists_due_of_gains (rule : EventRule) (t : Tree) {s : Site} {d e : Decl}
    {earlier later : List Decl} (h : rule.gains t s d = earlier ++ e :: later) :
    ∃ v ∈ rule.due s d, rule.IsFor v.2 v.1.label e ∧ ∃ wanted,
      rule.wantedName v.1.label = .ok wanted ∧
        e.name = rule.freeName (d.members ++ earlier) wanted := by
  obtain ⟨sources, due, areFor⟩ := rule.exists_sources_gains t s d
  rw [h] at areFor
  obtain ⟨v, hv, isFor⟩ := exists_partner_of_mem areFor (List.mem_append_right _ List.mem_cons_self)
  refine ⟨v, due.subset hv, isFor, ?_⟩
  rw [gains] at h
  split at h
  · next visited =>
    rw [Bool.and_eq_true] at visited
    obtain ⟨k, m, wanted, hm, hw, he⟩ := rule.exists_wantedName_of_offerAll s d.label d.methods 0
      { members := d.members } (List.append_nil _).symm earlier e later h (Nat.zero_le _)
    -- The event has one source, so both speak of the same method.
    obtain ⟨parameters, form, -⟩ := isFor.adapter
    rw [he, Nat.zero_add] at form
    obtain ⟨-, source, -⟩ := Adapter.mk.inj (Form.event.inj form)
    obtain rfl : k = v.2 := SourceTarget.sibling.inj (EventSource.mk.inj (Option.some.inj source)).1
    have hd := due.subset hv
    rw [EventRule.due, if_pos visited.1, List.mem_filter] at hd
    have same : d.methods[v.2]? = some v.1 := List.mem_zipIdx_iff_getElem?.1 hd.1
    obtain rfl := Option.some.inj (same.symm.trans hm)
    exact ⟨wanted, hw, by rw [he]; rfl⟩
  · exact absurd (congrArg List.length h) (by simp)

/-- Where attaching comes to an end, all methods of a class that are to have an event are adapted. -/
theorem isAdapted_of_mem_due (h : t.IsAttachable rule) {x : Located} (hx : x ∈ t.survey)
    {v : Decl × Nat} (hv : v ∈ rule.due x.site x.decl) :
    ∃ e ∈ (x.extend (rule.gains t)).decl.events, rule.Adapts v.2 v.1.label e := by
  rw [due] at hv
  split at hv
  · next eventful =>
    obtain ⟨hv, hdue⟩ := List.mem_filter.1 hv
    rw [isDue, Bool.and_eq_true] at hdue
    have hm : x.decl.methods[v.2]? = some v.1 := List.mk_mem_zipIdx_iff_getElem?.1 hv
    obtain ⟨b, hq, hb⟩ := serves_of_roster (h x hx eventful) hm hdue.1
    have qualifies : b = true := by
      have accepted := hdue.2
      rw [accepts, hq] at accepted
      exact accepted
    rw [← isAdapted_iff, isAdapted_congr (map_label_members_extend (rule.gains t) x),
      gains_of_isAttachable h,
      additions, if_pos eventful]
    exact hb qualifies
  · cases hv

/-- Where attaching comes to an end, the methods that have an event already and those that get one
are all that are to have one. -/
theorem total_due (h : t.IsAttachable rule) :
    (t.total fun s d => (rule.gains t s d).length) +
        ((rule.visited t).map fun v => v.2.existing).sum =
      t.total fun s d => (rule.due s d).length := by
  rw [sum_visited, Tree.total, Tree.total, Tree.total, ← List.sum_map_add]
  refine congrArg List.sum (List.map_congr_left fun x hx => ?_)
  rw [gains_of_isAttachable h, ofRosters_visited_eq_none_iff.2 h, additions]
  cases eventful : isEventful x.site x.decl.label with
  | false => simp [due, eventful]
  | true =>
    obtain ⟨sources, -, -, hcount⟩ := rule.exists_sources eventful
    have count := hcount (h x hx eventful)
    simp only [Site.isVisited, Site.isBefore, Option.all_none, Bool.true_or, Bool.and_true,
      if_true]
    omega

end EventRule

namespace Tree

/-- At any time from the dump on, events of a class adapt its methods, each at most once. A pass for
events only appends events, for methods that qualify, and counts them; and if it comes to an end,
every method that qualifies is adapted, and counted. -/
theorem adapts_methods_once {source : String} {document : Value} {start t : Tree}
    (loaded : ofDocument source document = .ok start) (steps : start.Steps t) :
    (∀ x ∈ t.survey, x.decl.AdaptsOnce) ∧
      ∀ (pass : Pass) (rule : EventRule) (w : Work), pass.eventRule? t = some rule →
        w.tree = t → w.fault = none → ∃ g, w.HasAttached rule pass.judges g (pass.work w) := by
  have orderly : t.IsOrderly :=
    isLasting_isOrderly.steps steps (isLoaded_ofDocument loaded).isOrderly
  refine ⟨orderly.once, fun pass rule w hr tree running => ?_⟩
  subst tree
  rw [Pass.work_eq_attachEvents hr orderly.named]
  obtain ⟨existing, synthesized⟩ := count_attachEvents rule w
  rw [rule.sum_attached] at synthesized
  have completes := fault_attachEvents rule running
  exact ⟨rule.gains w.tree, {
    tree := tree_attachEvents rule w
    sources := fun x _ => rule.exists_sources_gains w.tree x.site x.decl
    synthesized := synthesized
    completes := completes.trans (orderly.isAttachable_iff hr)
    adapted := fun hn x hx v hv => EventRule.isAdapted_of_mem_due (completes.1 hn) hx hv
    counted := fun hn => by
      have total := EventRule.total_due (completes.1 hn)
      omega }⟩

/-- In the sample, the signal of a class becomes an event. Then methods are adapted once, and running
the pass again adds nothing but finds the event. -/
theorem adapts_methods_once_sample :
    let pass := Pass.signalEvents { sections := [.text "Q_SIGNALS"] }
    let rule := SignalOptions.rule { sections := [.text "Q_SIGNALS"] }
    let t := (pass.work { tree := sampleTree }).tree
    (t.survey.map fun x => x.decl.events.length) = [0, 0, 0, 1, 0, 0, 0, 0] ∧
      (∀ x ∈ t.survey, x.decl.AdaptsOnce) ∧
      (t.total fun s d => (rule.due s d).length) = 1 ∧
      ∃ g, Work.HasAttached rule pass.judges { tree := t } g (pass.work { tree := t }) := by
  intro pass rule t
  have steps : sampleTree.Steps t := .single (.pass pass { tree := sampleTree } rfl)
  obtain ⟨once, attached⟩ := adapts_methods_once ofDocument_sampleDump steps
  exact ⟨by decide +kernel, once, by decide +kernel, attached pass rule { tree := t } rfl rfl rfl⟩

/-- A dump of a class with two methods, the first of which stands under a label that is a list. -/
def listedSectionDump : Value :=
  .mapping [("translation_units", .list [
    .mapping [("name", .text "palette.h"), ("file_path", .text "include/QtGui/palette.h"),
      ("declarations", .list [
        .mapping [("kind", .text "class"), ("name", .text "Palette"), ("declarations", .list [
          .mapping [("kind", .text "method"), ("name", .text "first"),
            ("section", .list [.text "Q_SIGNALS"])],
          .mapping [("kind", .text "method"), ("name", .text "changed"),
            ("section", .text "Q_SIGNALS")]])]])]])]

/-- The second method of that class. -/
def listedSectionSignal : Decl :=
  .node { name := .text "changed", headerName := .text "changed", role := .method,
          form := .method ⟨[], "void"⟩ ⟨false, false, false, false, .text "Q_SIGNALS", .plain⟩ } []

/-- That class. -/
def listedSectionClass : Decl :=
  .node { name := .text "Palette", headerName := .text "Palette",
          form := .classType ⟨[], false, false⟩ } [
    .node { name := .text "first", headerName := .text "first", role := .method,
            form := .method ⟨[], "void"⟩
              ⟨false, false, false, false, .list [.text "Q_SIGNALS"], .plain⟩ } [],
    listedSectionSignal]

/-- The unit with that class. -/
def listedSectionUnit : Label where
  name := .text "palette.h"
  headerName := .text "palette.h"
  form := .unit "include/QtGui/palette.h"

/-- The tree of that dump. -/
def listedSectionTree : Tree where
  units := [.node listedSectionUnit [listedSectionClass]]

/-- Not every run of the pass for signals leaves an event for every method that qualifies: it stops at
a method under a label that is no text, and a later method gets none. -/
theorem not_adapts_every_signal : ¬ ∀ (source : String) (document : Value) (t : Tree)
    (options : SignalOptions) (w : Work), ofDocument source document = .ok t → w.tree = t →
      w.fault = none → ∀ x ∈ t.survey, ∀ v ∈ options.rule.due x.site x.decl,
        ∃ y ∈ ((Pass.signalEvents options).work w).tree.survey,
          y.site.address = x.site.address ∧
            ∃ e ∈ y.decl.events, options.rule.Adapts v.2 v.1.label e := by
  intro adapted
  let options : SignalOptions := { sections := [.text "Q_SIGNALS"] }
  let x : Located := ⟨⟨[0, 0], [listedSectionUnit]⟩, listedSectionClass⟩
  have hx : x ∈ listedSectionTree.survey := List.mem_of_getElem? (i := 1) rfl
  have hv : (listedSectionSignal, 1) ∈ options.rule.due x.site x.decl :=
    List.mem_of_getElem? (i := 0) rfl
  obtain ⟨y, hy, ha, e, he, -⟩ := adapted "dump.yml" listedSectionDump listedSectionTree options
    { tree := listedSectionTree } rfl rfl rfl x hx _ hv
  have none : ∀ y ∈ ((Pass.signalEvents options).work { tree := listedSectionTree }).tree.survey,
      y.site.address = [0, 0] → y.decl.events.isEmpty = true := by
    decide +kernel
  rw [List.isEmpty_iff.1 (none y hy ha)] at he
  cases he

end Tree

end Bindery
