import Bindery.Proofs.Growth
import Bindery.Proofs.Validation
import Bindery.Proofs.Wording

/-!
# Sources of events

At any time from the dump on, every event of a class is made from one of its methods, and no two are
made from the same one, nor, within one family, from methods of the same signature: an event is only
attached for a method that none adapts, and nothing that happens to a tree later touches sources,
signatures or the numbering of methods. What is needed besides to attach events without a stop lasts
as well: classes have full names, and methods are named by texts. Main statement:
`Tree.isLasting_isOrderly`.
-/

namespace Bindery

/-- Whether two events may stand in one class: their sources differ, and also the signatures of these
if they are of one family. -/
def Adapter.IsApartFrom (a b : Adapter) : Prop :=
  ∀ p ∈ a.source, ∀ q ∈ b.source,
    p.target ≠ q.target ∧ (a.origin = b.origin → p.signature.alike q.signature = false)

/-- The same declarations have the same signature. -/
theorem Label.Agrees.signature {l l' : Label} (h : l.Agrees l') : l'.signature = l.signature := by
  have unmarked : ∀ l : Label, { l with form := l.form.unmarked }.signature = l.signature := by
    intro l
    obtain ⟨_, _, _, _, _, _, _, form⟩ := l
    cases form <;> rfl
  rw [← unmarked l', ← unmarked l]
  exact signature_congr h.headerName h.form

namespace Decl

/-- Whether an event is made from the `i`-th method of its class. -/
def IsMadeFrom (e : Decl) (i : Nat) (m : Decl) : Prop :=
  ∃ a, e.form.adapter? = some a ∧ a.source = some ⟨.sibling i, m.label.signature⟩

/-- Whether events may stand in one class. -/
def AreApart (events : List Decl) : Prop :=
  events.Pairwise fun d e => ∀ a ∈ d.form.adapter?, ∀ b ∈ e.form.adapter?, a.IsApartFrom b

/-- Whether the events of a class adapt its methods, each at most once. -/
structure AdaptsOnce (d : Decl) : Prop where
  /-- Every event is made from a method. -/
  source : ∀ e ∈ d.events, ∃ i m, d.methods[i]? = some m ∧ e.IsMadeFrom i m
  /-- No two events are made from the same method, nor, within one family, from methods of the same
  signature. -/
  apart : AreApart d.events

/-- What matters of a member for the sources of events. -/
def trace (d : Decl) : Role × Option Adapter × Value := (d.role, d.form.adapter?, d.label.signature)

/-- The traces of the members of a role are the traces of that role. -/
theorem map_trace_membersIn (role : Role) (d : Decl) :
    (d.membersIn role).map trace = (d.members.map trace).filter fun t => t.1 == role := by
  rw [List.filter_map]
  rfl

/-- Whether methods are adapted once is a matter of the traces of the members. -/
theorem AdaptsOnce.congr {d d' : Decl} (h : d'.members.map trace = d.members.map trace)
    (once : d.AdaptsOnce) : d'.AdaptsOnce := by
  have roles : ∀ role, (d'.membersIn role).map trace = (d.membersIn role).map trace := by
    intro role
    rw [map_trace_membersIn, map_trace_membersIn, h]
  constructor
  · intro e' he'
    obtain ⟨e, he, hee⟩ := List.mem_map.1 (roles .event ▸ List.mem_map_of_mem he')
    obtain ⟨i, m, hm, a, ha, hs⟩ := once.source e he
    have hm' : ((d'.membersIn .method).map trace)[i]? = some m.trace := by
      rw [roles, List.getElem?_map]
      exact congrArg (Option.map trace) hm
    rw [List.getElem?_map] at hm'
    obtain ⟨m', hm', hmm⟩ := Option.map_eq_some_iff.1 hm'
    have adapter : e'.form.adapter? = e.form.adapter? := congrArg (fun t => t.2.1) hee.symm
    have signature : m'.label.signature = m.label.signature := congrArg (fun t => t.2.2) hmm
    exact ⟨i, m', hm', a, adapter.trans ha, by rw [signature]; exact hs⟩
  · have adapters : ∀ d : Decl, AreApart d.events ↔ ((d.membersIn .event).map trace).Pairwise
        fun t t' => ∀ a ∈ t.2.1, ∀ b ∈ t'.2.1, a.IsApartFrom b := by
      intro d
      rw [List.pairwise_map]
      exact Iff.rfl
    rw [adapters, roles, ← adapters]
    exact once.apart

/-- Members with the same labels have the same traces. -/
theorem map_trace_congr {ms ms' : List Decl} (h : ms'.map label = ms.map label) :
    ms'.map trace = ms.map trace := by
  have traces : ∀ ms : List Decl, ms.map trace = (ms.map label).map fun l => (node l []).trace := by
    intro ms
    rw [List.map_map]
    rfl
  rw [traces, traces, h]

/-- Where there are no events, methods are adapted once at most. -/
theorem adaptsOnce_of_events_eq_nil {d : Decl} (h : d.events = []) : d.AdaptsOnce := by
  refine ⟨fun e he => ?_, ?_⟩
  · rw [h] at he
    cases he
  · rw [h]
    exact List.Pairwise.nil

/-- Another label makes no difference to a member that agrees with it. -/
theorem trace_of_agrees {d d' : Decl} (h : d.label.Agrees d'.label) : d'.trace = d.trace := by
  have adapter : d'.form.adapter? = d.form.adapter? := h.congr_form Form.adapter? Form.adapter?_unmarked
  rw [trace, trace, role, role, h.role, adapter, h.signature]

end Decl

/-- Where labels agree with those before, members have the traces that they had. -/
theorem Tree.AgreesUnder.map_trace {t : Tree} {f : Site → Label → Label} (hf : t.AgreesUnder f)
    {x : Located} (hx : x ∈ t.survey) :
    (x.relabel f).decl.members.map Decl.trace = x.decl.members.map Decl.trace := by
  refine List.ext_getElem? fun i => ?_
  rw [Located.members_relabel, List.getElem?_map, List.getElem?_map, Decl.getElem?_relabelAll]
  cases hm : x.decl.members[i]? with
  | none => rfl
  | some m =>
    have agrees := hf (x.member i m) (Tree.member_mem_survey hx hm)
    rw [Nat.zero_add]
    refine congrArg some (Decl.trace_of_agrees ?_)
    obtain ⟨l, ms⟩ := m
    exact agrees

namespace EventRule

variable {rule : EventRule}

/-- For a method that no event adapts, a class may get an event. -/
theorem areApart_append {i : Nat} {method : Label} {members : List Decl} (name : Value)
    (fresh : rule.isAdapted members i method = false)
    (apart : Decl.AreApart (members.filter fun m => m.role == .event)) :
    Decl.AreApart
      ((members ++ [rule.eventOf i method name]).filter fun m => m.role == .event) := by
  rw [isAdapted, List.any_eq_false] at fresh
  rw [List.filter_append]
  refine List.pairwise_append.2 ⟨apart, (List.pairwise_singleton _ _).filter _, ?_⟩
  intro m hm e he a ha b hb p hp q hq
  obtain ⟨hm, role⟩ := List.mem_filter.1 hm
  obtain rfl := List.mem_singleton.1 (List.mem_of_mem_filter he)
  obtain rfl := Option.some.inj hb
  obtain rfl := Option.some.inj hq
  have other : rule.adapts i method m = false := by
    have hn := fresh m hm
    rw [role, Bool.true_and, Bool.not_eq_true] at hn
    exact hn
  rw [adapts, ha, Option.any_some, hp, Option.any_some, Bool.or_eq_false_iff] at other
  refine ⟨ne_of_beq_false other.1, fun origin => ?_⟩
  have family : (a.origin == .text rule.origin) = true := beq_iff_eq.2 origin
  rw [family, Bool.true_and] at other
  exact other.2

/-- With the events that it gets, a class adapts its methods once if it did. -/
theorem adaptsOnce_roster (rule : EventRule) (s : Site) {d : Decl} (once : d.AdaptsOnce) :
    (Decl.node d.label (d.members ++ (rule.roster s d).attached)).AdaptsOnce := by
  have methods : (Decl.node d.label (d.members ++ (rule.roster s d).attached)).methods =
      d.methods := by
    have none : (rule.roster s d).attached.filter (fun m => m.role == .method) = [] := by
      rw [List.filter_eq_nil_iff]
      intro e he
      obtain ⟨k, m, name, -, -, rfl⟩ := mayAttach_of_mem_attached he
      exact nofun
    rw [Decl.methods, Decl.membersIn, Decl.members_node, List.filter_append, none, List.append_nil]
    rfl
  constructor
  · intro e he
    rw [methods]
    obtain ⟨he, role⟩ := List.mem_filter.1 he
    rcases List.mem_append.1 he with he | he
    · exact once.source e (List.mem_filter.2 ⟨he, role⟩)
    · obtain ⟨k, m, name, hm, -, rfl⟩ := mayAttach_of_mem_attached he
      rw [Nat.zero_add]
      exact ⟨k, m, hm, _, rfl, rfl⟩
  · exact rule.roster_keeps (P := fun ms => Decl.AreApart (ms.filter fun m => m.role == .event))
      (fun i method members wanted fresh apart => areApart_append _ fresh apart) once.apart

end EventRule

/-- An edited method that is named by a text keeps its name or has it recased. -/
theorem Located.MayEdit.name_of_isMethod {x : Located} {l : Label} {s : String} (h : x.MayEdit l)
    (method : x.label.form.isMethod = true) (named : x.label.name = .text s) :
    l.name = .text s ∨ ∃ pattern : CasePattern, l.name = .text (pattern.recase s) := by
  cases h with
  | markValue => exact Or.inl ((Policy.name_markValue x.label).trans named)
  | nameEnum name anonymous =>
    -- Only enumerations get a name in this way.
    rw [Policy.isAnonymousEnum, Bool.and_eq_true, Bool.and_eq_true] at anonymous
    have scope := Form.isMethod_of_isScope (Form.isScope_of_isEnumeration anonymous.1.2)
    rw [method] at scope
    cases scope
  | recase pattern name converted =>
    rw [named] at converted
    exact Or.inr ⟨pattern, (Except.ok.inj converted).symm⟩
  | _ => exact Or.inl named

/-- An edited method is named by a text if it was. -/
theorem Located.MayEdit.isText_name {x : Located} {l : Label} (h : x.MayEdit l)
    (method : x.label.form.isMethod = true) (text : x.label.name.isText = true) :
    l.name.isText = true := by
  obtain ⟨s, named⟩ := Value.exists_eq_text text
  rcases h.name_of_isMethod method named with same | ⟨pattern, recased⟩
  · rw [same]
    rfl
  · rw [recased]
    rfl

namespace Tree

/-- What a tree is like at any time from the dump on, as far as events are concerned. -/
structure IsOrderly (t : Tree) : Prop where
  /-- Forms and places fit together. -/
  shaped : t.IsShaped
  /-- Classes have full names. -/
  named : t.hasNamedClasses = true
  /-- Methods are named by texts. -/
  methods : ∀ x ∈ t.survey, x.label.form.isMethod = true → x.label.name.isText = true
  /-- Classes adapt their methods once. -/
  once : ∀ x ∈ t.survey, x.decl.AdaptsOnce

/-- Only events take the role of events. -/
theorem isEvent_of_roleIn {owner f : Form} (h : owner.roleIn f = .event) : f.isEvent = true := by
  cases owner <;> cases f <;> first | rfl | simp [Form.roleIn, Form.isClass, Form.classTraits?] at h

/-- A loaded tree has no events to begin with. -/
theorem IsLoaded.isOrderly {t : Tree} (h : t.IsLoaded) : t.IsOrderly where
  shaped := h.isShaped
  named := h.hasNamedClasses
  methods x hx _ := (h.label x hx).named
  once x hx := by
    refine Decl.adaptsOnce_of_events_eq_nil (List.filter_eq_nil_iff.2 fun e he role => ?_)
    have noEvent := (h.label_of_mem_members hx he).event
    have hd := h.decl x hx
    obtain ⟨s, d⟩ := x
    cases hd with
    | node l ms label members units scope items roles =>
      have event := isEvent_of_roleIn ((roles e he).symm.trans (beq_iff_eq.1 role))
      exact absurd event (Bool.eq_false_iff.1 noEvent)

/-- What a tree is like as far as events are concerned lasts. -/
theorem isLasting_isOrderly : IsLasting IsOrderly where
  advance t stage h := ⟨h.shaped.atStage stage, h.named, h.methods, h.once⟩
  relabel {t f} hf h := by
    have agrees : t.AgreesUnder f := fun x hx => (hf x hx).agrees
    refine ⟨h.shaped.relabel agrees, ?_, fun y hy hm => ?_, fun y hy => ?_⟩
    · rw [hasNamedClasses_relabel h.shaped agrees]
      exact h.named
    · obtain ⟨x, hx, rfl⟩ := mem_survey_relabel.1 hy
      rw [Located.label_relabel] at hm ⊢
      rw [(agrees x hx).isMethod] at hm
      exact (hf x hx).isText_name hm (h.methods x hx hm)
    · obtain ⟨x, hx, rfl⟩ := mem_survey_relabel.1 hy
      exact (h.once x hx).congr (agrees.map_trace hx)
  extend {t rule g} hg h := by
    have gains := hg.gainsUnder
    refine ⟨h.shaped.extend gains, ?_, fun y hy hm => ?_, fun y hy => ?_⟩
    · rw [hasNamedClasses_extend gains]
      exact h.named
    · rcases gains.cases y hy with ⟨x, hx, rfl⟩ | ⟨x, hx, i, e, he, rfl⟩
      · rw [Located.label_extend] at hm ⊢
        exact h.methods x hx hm
      · rw [Located.label_member] at hm
        have event := he.event
        cases hf : e.label.form <;>
          simp [hf, Form.isMethod, Form.methodTraits?, Form.isEvent, Form.adapter?] at hm event
    · rcases gains.cases y hy with ⟨x, hx, rfl⟩ | ⟨x, hx, i, e, he, rfl⟩
      · have once : (Decl.node x.label (x.decl.members ++ g x.site x.decl)).AdaptsOnce := by
          rcases hg x hx with hn | ⟨-, ha⟩
          · rw [hn, List.append_nil, Located.label, Decl.node_label_members]
            exact h.once x hx
          · rw [ha]
            exact rule.adaptsOnce_roster x.site (h.once x hx)
        refine once.congr ?_
        exact Decl.map_trace_congr (EventRule.map_label_members_extend g x)
      · refine Decl.adaptsOnce_of_events_eq_nil ?_
        rw [Located.decl_member, Decl.events, Decl.membersIn, he.leaf, List.filter_nil]

end Tree

end Bindery
