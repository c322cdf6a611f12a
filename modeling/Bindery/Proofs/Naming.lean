import Bindery.Proofs.Completion
import Bindery.Proofs.FinalTreatment
import Bindery.Proofs.Growth
import Mathlib.Data.Fintype.Card

/-!
# Names of events

An event gets the wanted name if no member of its class has it. Otherwise a number is put behind the
name, or behind the name with a mark in front if a member of another kind has it, and the numbers
are tried in order. No member has two of these choices for a name, so one of as many choices as
there are members and one more is free. Whatever is attached later gets a name that differs from
those before it; hence after a run on a tree without events no event shares its name with another
member of its class. Main statement: `names_events_apart`.
-/

namespace Bindery

/-! ## Choices for a name -/

namespace Value

/-- Only the same text is like a text. -/
theorem eq_text_of_alike {v : Value} {s : String} (h : v.alike (.text s) = true) : v = .text s := by
  cases v with
  | text t =>
    rw [alike_text, beq_iff_eq] at h
    rw [h]
  | _ => simp [alike, sameMember, order?, magnitude?] at h

/-- A text is like the same text only. -/
theorem eq_text_of_text_alike {v : Value} {s : String} (h : (Value.text s).alike v = true) :
    v = .text s := by
  cases v with
  | text t =>
    rw [alike_text, beq_iff_eq] at h
    rw [h]
  | _ => simp [alike, sameMember, order?, magnitude?] at h

end Value

namespace EventRule

variable {members : List Decl} {name : Value}

/-- Different numbers are written differently. -/
private theorem eq_of_append_number {s : String} {j k : Nat}
    (h : s ++ toString j = s ++ toString k) : j = k := by
  have written : toString j = toString k := (String.append_right_inj s).1 h
  have digits : Nat.toDigits 10 j = Nat.toDigits 10 k := by
    rw [Nat.toString_eq_repr, Nat.toString_eq_repr, Nat.repr, Nat.repr] at written
    simpa using congrArg String.toList written
  rw [← Nat.ofDigitChars_ten_toDigits (n := j), digits, Nat.ofDigitChars_ten_toDigits]

/-- With a number behind it, a name is another one. -/
private theorem append_number_ne (s : String) (k : Nat) : s ++ toString k ≠ s := by
  intro h
  have digits := congrArg String.length (String.append_eq_left_iff.1 h)
  simp at digits

/-- No name is like two choices. -/
theorem eq_of_alike_candidates {v : Value} {j k : Nat} (hj : v.alike (candidate name j) = true)
    (hk : v.alike (candidate name k) = true) : j = k := by
  -- A choice with a number is a text, so the name is that text and not the bare one.
  have numbered : ∀ {i : Nat}, i ≠ 0 → v.alike (candidate name i) = true →
      v = .text (name.display ++ toString (i + 1)) := by
    intro i hi h
    rw [candidate, if_neg hi] at h
    exact Value.eq_text_of_alike h
  have bare : ∀ {i : Nat}, i ≠ 0 → v.alike (candidate name i) = true →
      ¬ v.alike (candidate name 0) = true := by
    intro i hi h h0
    have hv := numbered hi h
    rw [candidate, if_pos rfl, hv] at h0
    have hn : name = .text (name.display ++ toString (i + 1)) := Value.eq_text_of_text_alike h0
    exact append_number_ne name.display (i + 1) (congrArg Value.display hn).symm
  rcases eq_or_ne j 0 with rfl | hj0
  · by_contra hne
    exact bare (Ne.symm hne) hk hj
  · rcases eq_or_ne k 0 with rfl | hk0
    · exact absurd hk (bare hj0 hj)
    · have same := (numbered hj0 hj).symm.trans (numbered hk0 hk)
      have numbers : j + 1 = k + 1 := eq_of_append_number (Value.text.inj same)
      exact Nat.succ_injective numbers

/-- Of as many choices as there are members and one more, one is free. -/
theorem exists_isTaken_eq_false (members : List Decl) (name : Value) :
    ∃ k ≤ members.length, isTaken members (candidate name k) = false := by
  by_contra hall
  have holder : ∀ k : Fin (members.length + 1), ∃ i : Fin members.length,
      members[i].name.alike (candidate name k) = true := by
    intro k
    have taken : isTaken members (candidate name k) = true := by
      by_contra hk
      rw [Bool.not_eq_true] at hk
      exact hall ⟨k, Nat.le_of_lt_succ k.isLt, hk⟩
    obtain ⟨m, hm, ha⟩ := List.any_eq_true.1 taken
    obtain ⟨i, hi, rfl⟩ := List.mem_iff_getElem.1 hm
    exact ⟨⟨i, hi⟩, ha⟩
  choose f hf using holder
  have injective : Function.Injective f := by
    intro j k hjk
    refine Fin.ext (eq_of_alike_candidates (hf j) ?_)
    rw [hjk]
    exact hf k
  have card := Fintype.card_le_of_injective f injective
  rw [Fintype.card_fin, Fintype.card_fin] at card
  omega

/-- Whether a name is the first choice for another name that is free among the given members: all
choices before it are taken. -/
def IsFirstFree (members : List Decl) (name chosen : Value) : Prop :=
  ∃ k ≤ members.length, chosen = candidate name k ∧
    isTaken members (candidate name k) = false ∧
    ∀ j < k, isTaken members (candidate name j) = true

/-- The search for a free choice comes to the first one. -/
theorem isFirstFree_firstFree (members : List Decl) (name : Value) :
    IsFirstFree members name (firstFree members name) := by
  obtain ⟨n, hn, hfree⟩ := exists_isTaken_eq_false members name
  rw [firstFree]
  cases hf : (List.range (members.length + 1)).find?
      fun k => !isTaken members (candidate name k) with
  | none =>
    have taken := List.find?_eq_none.1 hf n (List.mem_range.2 (Nat.lt_succ_of_le hn))
    rw [hfree] at taken
    exact absurd rfl taken
  | some k =>
    obtain ⟨free, hk, before⟩ := List.find?_range_eq_some.1 hf
    refine ⟨k, Nat.le_of_lt_succ (List.mem_range.1 hk), rfl, by simpa using free, fun j hj => ?_⟩
    simpa using before j hj

/-- What is free is the first choice. -/
theorem IsFirstFree.eq_of_isTaken {chosen : Value} (h : IsFirstFree members name chosen)
    (free : isTaken members name = false) : chosen = name := by
  obtain ⟨k, -, rfl, -, before⟩ := h
  rcases Nat.eq_zero_or_pos k with rfl | hk
  · rfl
  · have taken := before 0 hk
    rw [candidate, if_pos rfl, free] at taken
    cases taken

/-! ## The name of an event -/

/-- A name that clashes with no member of another kind is free or an event has it first. -/
theorem freeName_cases (rule : EventRule) (members : List Decl) (wanted : Value) :
    (members.find? fun m => m.name.alike wanted) = none ∧
        rule.freeName members wanted = firstFree members wanted ∨
      ∃ holder, (members.find? fun m => m.name.alike wanted) = some holder ∧
        rule.freeName members wanted = firstFree members
          (if holder.form.isEvent then wanted
            else .text (rule.collisionMark ++ wanted.display)) := by
  rw [freeName, clash?]
  cases members.find? fun m => m.name.alike wanted with
  | none => exact Or.inl ⟨rfl, rfl⟩
  | some holder =>
    refine Or.inr ⟨holder, rfl, ?_⟩
    cases he : holder.form.isEvent <;> simp [he]

/-- No member has the name that an event gets. -/
theorem isTaken_freeName (rule : EventRule) (members : List Decl) (wanted : Value) :
    isTaken members (rule.freeName members wanted) = false := by
  have free : ∀ name, isTaken members (firstFree members name) = false := by
    intro name
    obtain ⟨k, -, hk, hfree, -⟩ := isFirstFree_firstFree members name
    rw [hk]
    exact hfree
  rcases rule.freeName_cases members wanted with ⟨-, h⟩ | ⟨holder, -, h⟩
  · rw [h]
    exact free wanted
  · rw [h]
    exact free _

/-- A wanted name that is free is the name that the event gets. -/
theorem freeName_of_isTaken (rule : EventRule) {wanted : Value}
    (free : isTaken members wanted = false) : rule.freeName members wanted = wanted := by
  have none : (members.find? fun m => m.name.alike wanted) = none := by
    rw [List.find?_eq_none]
    intro m hm ha
    rw [isTaken, List.any_eq_false] at free
    exact free m hm ha
  rcases rule.freeName_cases members wanted with ⟨-, h⟩ | ⟨holder, hs, -⟩
  · rw [h]
    exact (isFirstFree_firstFree members wanted).eq_of_isTaken free
  · rw [none] at hs
    cases hs

end EventRule

/-! ## Names in a tree -/

/-- Whether the events among the members of a class have names of their own. -/
def Decl.NamesEventsApart (members : List Decl) : Prop :=
  members.Pairwise fun m e =>
    (m.form.isEvent || e.form.isEvent) = true → m.name.alike e.name = false

/-- Whether names are apart is a matter of the labels. -/
theorem Decl.NamesEventsApart.congr {ms ms' : List Decl}
    (h : ms'.map Decl.label = ms.map Decl.label) (apart : NamesEventsApart ms) :
    NamesEventsApart ms' := by
  have labels : ∀ ms : List Decl, NamesEventsApart ms ↔ (ms.map Decl.label).Pairwise
      fun l l' => (l.form.isEvent || l'.form.isEvent) = true → l.name.alike l'.name = false := by
    intro ms
    rw [List.pairwise_map]
    exact Iff.rfl
  rw [labels] at apart ⊢
  rwa [h]

/-- With the events that it gets, a class has its events' names apart if it had. -/
theorem EventRule.namesEventsApart_roster (rule : EventRule) (s : Site) {d : Decl}
    (apart : Decl.NamesEventsApart d.members) :
    Decl.NamesEventsApart (d.members ++ (rule.roster s d).attached) := by
  refine rule.roster_keeps (fun i method members wanted _ h => ?_) apart
  have free := rule.isTaken_freeName members wanted
  rw [isTaken, List.any_eq_false] at free
  refine List.pairwise_append.2 ⟨h, List.pairwise_singleton _ _, fun m hm e he _ => ?_⟩
  obtain rfl := List.mem_singleton.1 he
  exact Bool.not_eq_true _ ▸ free m hm

namespace Tree

/-- Whether there are no events in a tree. -/
def IsEventFree (t : Tree) : Prop := ∀ x ∈ t.survey, x.label.form.isEvent = false

/-- Whether everywhere in a tree events have names of their own. -/
def NamesEventsApart (t : Tree) : Prop := ∀ x ∈ t.survey, Decl.NamesEventsApart x.decl.members

/-- Relabelling makes no events as long as everything stays the declaration that it is. -/
theorem IsEventFree.relabel {t : Tree} {f : Site → Label → Label}
    (hf : ∀ x ∈ t.survey, x.label.Agrees (f x.site x.label)) (h : t.IsEventFree) :
    (t.relabel f).IsEventFree := by
  intro y hy
  obtain ⟨x, hx, rfl⟩ := mem_survey_relabel.1 hy
  rw [Located.label_relabel, (hf x hx).isEvent]
  exact h x hx

/-- Where there are no events, they have names of their own. -/
theorem IsEventFree.namesEventsApart {t : Tree} (h : t.IsEventFree) : t.NamesEventsApart := by
  intro x hx
  have none : ∀ m ∈ x.decl.members, m.form.isEvent = false := by
    intro m hm
    obtain ⟨i, hi⟩ := List.mem_iff_getElem?.1 hm
    exact h _ (member_mem_survey hx hi)
  refine List.pairwise_iff_forall_sublist.2 fun {m e} hsub hev => ?_
  rw [none m (hsub.subset (by simp)), none e (hsub.subset (by simp))] at hev
  cases hev

/-- With the events that its classes get, a tree has the names of events apart if it had. -/
theorem NamesEventsApart.extend {t : Tree} {rule : EventRule} {g : Site → Decl → List Decl}
    (hg : t.AttachesUnder rule g) (h : t.NamesEventsApart) : (t.extend g).NamesEventsApart := by
  intro y hy
  rcases hg.gainsUnder.cases y hy with ⟨x, hx, rfl⟩ | ⟨x, hx, i, e, he, rfl⟩
  · refine Decl.NamesEventsApart.congr (EventRule.map_label_members_extend g x) ?_
    rcases hg x hx with hn | ⟨-, ha⟩
    · rw [hn, List.append_nil]
      exact h x hx
    · rw [ha]
      exact rule.namesEventsApart_roster x.site (h x hx)
  · rw [Located.decl_member, he.leaf]
    exact List.Pairwise.nil

/-- A pass that attaches no events leaves a tree without events. -/
theorem IsEventFree.work {pass : Pass} {w : Work} (h : w.tree.IsEventFree)
    (hr : pass.eventRule? w.tree = none) : (pass.work w).tree.IsEventFree :=
  (Pass.work_relabels hr).keeps (fun hf => IsEventFree.relabel fun x hx => (hf x hx).agrees) h

/-- A pass that attaches events leaves their names apart. -/
theorem NamesEventsApart.work {pass : Pass} {rule : EventRule} {w : Work}
    (h : w.tree.NamesEventsApart) (hr : pass.eventRule? w.tree = some rule) :
    (pass.work w).tree.NamesEventsApart := by
  obtain ⟨g, attaches, ht⟩ := Pass.exists_work_eq_extend hr
  rw [ht]
  exact h.extend attaches

end Tree

/-- A run on a tree without events names the events apart, however far it gets. -/
theorem runModule_namesEventsApart (info : ModuleInfo) (config : Value) (corpus : Corpus)
    (request : Option InlinesRequest) (hasBuilder : Bool) {w : Work} (free : w.tree.IsEventFree) :
    (runModule info config corpus request hasBuilder w).2.tree.NamesEventsApart := by
  rw [runModule]
  cases hp : prepareRun w.tree info config corpus request hasBuilder with
  | error fault => exact free.namesEventsApart
  | ok pipeline =>
    obtain ⟨policy, settings, -, -, -, rfl⟩ := exists_of_prepareRun_eq_ok hp
    -- Up to the passes for events, labels are edited; from there on nothing else is renamed.
    let editing := settings.taggingPasses info.root policy ++
      [.clearComments, .backfillComments corpus, .rename settings.targets settings.pattern]
    let attaching := [.signalEvents settings.signals, .hookEvents settings.hooks] ++
      lastPasses request hasBuilder
    have parts : settings.taggingPasses info.root policy ++ settings.laterPasses corpus ++
        lastPasses request hasBuilder = editing ++ attaching := by
      simp [editing, attaching, RunSettings.laterPasses]
    rw [parts, Pipeline.ofPasses, List.map_append]
    refine Pipeline.run_append_keeps (P := Tree.IsEventFree) _ _ (fun _ _ h => h) ?_
      (fun _ h => h.namesEventsApart) (fun _ _ h => h) ?_ w free
    · simp only [editing, RunSettings.taggingPasses, List.forall_mem_map]
      intro pass hpass w h
      refine h.work ?_
      simp only [List.cons_append, List.nil_append, List.mem_cons, List.not_mem_nil,
        or_false] at hpass
      rcases hpass with rfl | rfl | rfl | rfl | rfl | rfl <;> rfl
    · simp only [List.forall_mem_map]
      intro pass hpass w h
      rcases List.mem_append.1 hpass with hpass | hpass
      · rcases List.mem_pair.1 hpass with rfl | rfl
        · exact h.work rfl
        · exact h.work rfl
      · cases request with
        | none => cases hpass
        | some request =>
          obtain rfl := List.mem_singleton.1 hpass
          rw [Pass.work, tree_requestInlines]
          exact h

/-- Events never share a name with another member of their class. Whatever the members of a class
and the wanted name are, the name that an event gets is free: it is the wanted one if that is free,
and else the first free choice for the wanted name, if an event has it, or for the name with the
mark in front, if another member does. Attaching gives events that name, in a class with a full
name. So after a run on a tree without events, the names of events are apart. -/
theorem names_events_apart :
    (∀ (rule : EventRule) (members : List Decl) (wanted : Value),
      EventRule.isTaken members (rule.freeName members wanted) = false ∧
      (EventRule.isTaken members wanted = false → rule.freeName members wanted = wanted) ∧
      ∀ holder, (members.find? fun m => m.name.alike wanted) = some holder →
        EventRule.IsFirstFree members
          (if holder.form.isEvent then wanted else .text (rule.collisionMark ++ wanted.display))
          (rule.freeName members wanted)) ∧
    (∀ (rule : EventRule) (chain : Chain) (i : Nat) (method : Label) (wanted : Value)
      (r : Roster), EventRule.clash? r.members wanted = none ∨ chain.isNamed = true →
        ∃ event : Decl, event.name = rule.freeName r.members wanted ∧
          (rule.attachAs chain i method wanted r).members = r.members ++ [event] ∧
          (rule.attachAs chain i method wanted r).attached = r.attached ++ [event] ∧
          (rule.attachAs chain i method wanted r).fault = r.fault) ∧
    ∀ (info : ModuleInfo) (config : Value) (corpus : Corpus) (request : Option InlinesRequest)
      (hasBuilder : Bool) (w : Work), w.tree.IsEventFree →
        (runModule info config corpus request hasBuilder w).2.tree.NamesEventsApart := by
  refine ⟨fun rule members wanted => ⟨rule.isTaken_freeName members wanted,
    fun free => rule.freeName_of_isTaken free, fun holder hs => ?_⟩, ?_, ?_⟩
  · rcases rule.freeName_cases members wanted with ⟨hn, -⟩ | ⟨other, ho, hname⟩
    · rw [hs] at hn
      cases hn
    · rw [hs] at ho
      obtain rfl := Option.some.inj ho
      rw [hname]
      exact EventRule.isFirstFree_firstFree members _
  · intro rule chain i method wanted r h
    obtain ⟨hm, ha, -, hf⟩ := rule.attachAs_of_isNamed i method h
    exact ⟨_, rfl, hm, ha, hf⟩
  · exact fun info config corpus request hasBuilder w free =>
      runModule_namesEventsApart info config corpus request hasBuilder free

/-- Beside a field of that name, the event of a signal gets the mark in front; without it, it has its
name. In the sample the signal of one class becomes an event, and its name is apart. -/
theorem names_events_apart_sample :
    let rule := SignalOptions.rule { sections := [.text "Q_SIGNALS"] }
    let method : Label :=
      { name := .text "changed", headerName := .text "changed", role := .method,
        form := .method ⟨[], "void"⟩ ⟨false, false, false, false, .text "Q_SIGNALS", .plain⟩ }
    let field : Decl := .node { name := .text "changedEvent", headerName := .text "changedEvent",
                                role := .field, form := .field "int" } []
    let done := (runModule .sample (.mapping Config.defaults) {} none false
      { tree := Tree.sampleTree }).2
    rule.freeName [] (.text "changedEvent") = .text "changedEvent" ∧
      EventRule.IsFirstFree [field] (.text "OnchangedEvent")
        (rule.freeName [field] (.text "changedEvent")) ∧
      (∃ event : Decl, event.name = rule.freeName [field] (.text "changedEvent") ∧
        (rule.attachAs [] 0 method (.text "changedEvent") { members := [field] }).attached =
          [event]) ∧
      done.fault = none ∧ (done.tree.survey.filter fun x => x.label.form.isEvent).length = 1 ∧
      done.tree.NamesEventsApart := by
  have completes : (runModule .sample (.mapping Config.defaults) {} none false
      { tree := Tree.sampleTree }).2.fault = none :=
    Option.isNone_iff_eq_none.1 (by decide +kernel)
  have events : ((runModule .sample (.mapping Config.defaults) {} none false
      { tree := Tree.sampleTree }).2.tree.survey.filter fun x => x.label.form.isEvent).length = 1 := by
    decide +kernel
  have free : Tree.sampleTree.IsEventFree := by
    intro x hx
    exact ((Tree.isLoaded_ofDocument Tree.ofDocument_sampleDump).label x hx).event
  obtain ⟨named, attaches, run⟩ := names_events_apart
  intro rule method field done
  refine ⟨(named rule [] _).2.1 rfl, (named rule [field] (.text "changedEvent")).2.2 field rfl, ?_,
    completes, events, ?_⟩
  · obtain ⟨event, name, -, attached, -⟩ :=
      attaches rule [] 0 method (.text "changedEvent") { members := [field] } (Or.inr rfl)
    exact ⟨event, name, attached⟩
  · exact run .sample (.mapping Config.defaults) {} none false { tree := Tree.sampleTree } free

end Bindery
