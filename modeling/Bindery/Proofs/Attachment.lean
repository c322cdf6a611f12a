import Bindery.Event.Rules
import Mathlib.Data.List.Forall2

/-!
# Attaching events, class by class

Offering a method to a class comes to one of four things (`offered`): attaching has stopped, the
method is not to have an event, it has one, or it gets one, under a name that is free. So a class
grows by events for methods of its own, and once all methods were offered without a fault, every
method that qualifies is adapted. A class of which this is true gets nothing when its methods are
offered again. Main statements: `exists_offerAll`, `serves_of_offerAll`, `offerAll_of_serves`,
`exists_sources`.
-/

namespace Bindery

/-- What stands in the second of two lists that are related one by one has a partner in the first. -/
theorem exists_partner_of_mem {α β : Type} {R : α → β → Prop} {as : List α} {bs : List β}
    (h : List.Forall₂ R as bs) {b : β} (hb : b ∈ bs) : ∃ a ∈ as, R a b := by
  induction h with
  | nil => cases hb
  | cons hab _ ih =>
    rcases List.mem_cons.1 hb with rfl | hb
    · exact ⟨_, List.mem_cons_self, hab⟩
    · obtain ⟨a, ha, hr⟩ := ih hb
      exact ⟨a, List.mem_cons_of_mem _ ha, hr⟩

namespace EventRule

variable (rule : EventRule) (site : Site) (label : Label)

/-- Whether nothing is left to be done for the `i`-th method of a class: it does not qualify, or an
event adapts it. -/
def Serves (members : List Decl) (i : Nat) (method : Label) : Prop :=
  ∃ b, rule.qualifies method = .ok b ∧ (b = true → rule.isAdapted members i method = true)

/-- Whether an event is one that a class with the given methods, the first of which has number `i`,
may get: it adapts a method that is generated. -/
def MayAttach (i : Nat) (methods : List Decl) (e : Decl) : Prop :=
  ∃ (k : Nat) (m : Decl) (name : Value), methods[k]? = some m ∧
    (site.inside label).isGenerated m.label = true ∧ e = rule.eventOf (i + k) m.label name

/-- The name that an event gets in a class: the first free choice for the wanted name, or for that
name with the mark in front if a member of another kind has it. -/
def freeName (members : List Decl) (wanted : Value) : Value :=
  match clash? members wanted with
  | none => firstFree members wanted
  | some _ => firstFree members (.text (rule.collisionMark ++ wanted.display))

/-- Whether a method qualifies, and this can be told. -/
def accepts (method : Label) : Bool :=
  match rule.qualifies method with
  | .ok b => b
  | .error _ => false

/-- A method that qualifies is one that a rule says so of. -/
theorem accepts_iff {rule : EventRule} {method : Label} :
    rule.accepts method = true ↔ rule.qualifies method = .ok true := by
  rw [accepts]
  cases rule.qualifies method <;> simp

/-- Whether a method of a class is to have an event: it is generated and qualifies. -/
def isDue (method : Label) : Bool := (site.inside label).isGenerated method && rule.accepts method

/-- Why attaching has stopped when a method was offered. -/
inductive StopsBy (method : Label) (r : Roster) : Fault → Prop
  /-- It stopped at an earlier one. -/
  | earlier {fault : Fault} (h : r.fault = some fault) : StopsBy method r fault
  /-- It cannot be told whether the method qualifies. -/
  | unjudged {fault : Fault} (generated : (site.inside label).isGenerated method = true)
    (h : rule.qualifies method = .error fault) : StopsBy method r fault
  /-- It cannot be told how its event should be called. -/
  | uncalled {fault : Fault} (h : rule.wantedName method = .error fault) : StopsBy method r fault
  /-- There is to be a warning, but the class has no full name. -/
  | unnamed (h : (site.chain label).isNamed = false) : StopsBy method r .wrongKind

/-- What offering the `i`-th method comes to. -/
inductive Offered (i : Nat) (method : Label) (r : Roster) : Roster → Prop
  /-- Attaching has stopped. -/
  | stopped {r' : Roster} {cause : Fault} (why : rule.StopsBy site label method r cause)
    (fault : r'.fault = some cause) (members : r'.members = r.members)
    (attached : r'.attached = r.attached) : Offered i method r r'
  /-- The method is not to have an event. -/
  | spared (running : r.fault = none) (due : rule.isDue site label method = false)
    (judged : (site.inside label).isGenerated method = true → rule.qualifies method = .ok false) :
    Offered i method r r
  /-- The method has an event. -/
  | kept (running : r.fault = none) (due : rule.isDue site label method = true)
    (qualifies : rule.qualifies method = .ok true)
    (adapted : rule.isAdapted r.members i method = true) :
    Offered i method r { r with existing := r.existing + 1 }
  /-- The method gets an event. -/
  | taken {r' : Roster} {wanted : Value} (running : r.fault = none)
    (due : rule.isDue site label method = true) (qualifies : rule.qualifies method = .ok true)
    (fresh : rule.isAdapted r.members i method = false)
    (wantedName : rule.wantedName method = .ok wanted)
    (members : r'.members = r.members ++ [rule.eventOf i method (rule.freeName r.members wanted)])
    (attached :
      r'.attached = r.attached ++ [rule.eventOf i method (rule.freeName r.members wanted)])
    (existing : r'.existing = r.existing) (fault : r'.fault = none) : Offered i method r r'

variable {rule site label} {i : Nat} {method : Label} {r : Roster}

/-- An event adapts the method that it was made for. -/
theorem adapts_eventOf (rule : EventRule) (i : Nat) (method : Label) (name : Value) :
    rule.adapts i method (rule.eventOf i method name) = true := by
  simp [adapts, eventOf, Decl.form, Form.adapter?]

/-- A method stays adapted when its class gets further members. -/
theorem isAdapted_append {members : List Decl} (h : rule.isAdapted members i method = true)
    (more : List Decl) : rule.isAdapted (members ++ more) i method = true := by
  rw [isAdapted, List.any_append, Bool.or_eq_true]
  exact Or.inl h

/-- Nothing is left to be done for a method when its class gets further members, either. -/
theorem Serves.append {members : List Decl} (h : rule.Serves members i method)
    (more : List Decl) : rule.Serves (members ++ more) i method := by
  obtain ⟨b, hq, hb⟩ := h
  exact ⟨b, hq, fun ht => isAdapted_append (hb ht) more⟩

/-! ## One method -/

/-- If the class has a full name or the wanted name clashes with no member of another kind, an event
is attached under the free name. -/
theorem attachAs_of_isNamed (rule : EventRule) (i : Nat) (method : Label) {chain : Chain}
    {wanted : Value} {r : Roster}
    (h : clash? r.members wanted = none ∨ chain.isNamed = true) :
    let r' := rule.attachAs chain i method wanted r
    let event := rule.eventOf i method (rule.freeName r.members wanted)
    r'.members = r.members ++ [event] ∧ r'.attached = r.attached ++ [event] ∧
      r'.existing = r.existing ∧ r'.fault = r.fault := by
  intro r' event
  simp only [r', event, attachAs, freeName]
  cases hc : clash? r.members wanted with
  | none => exact ⟨rfl, rfl, rfl, rfl⟩
  | some taken =>
    rw [hc] at h
    dsimp only
    rw [if_pos (h.resolve_left (Option.some_ne_none taken))]
    exact ⟨rfl, rfl, rfl, rfl⟩

/-- If the wanted name clashes with a member of another kind, and the class has no full name to warn
of, nothing is attached. -/
theorem attachAs_of_not_isNamed (rule : EventRule) (i : Nat) (method : Label) {chain : Chain}
    {wanted : Value} {r : Roster} (clash : clash? r.members wanted ≠ none)
    (unnamed : chain.isNamed = false) :
    rule.attachAs chain i method wanted r = { r with fault := some .wrongKind } := by
  obtain ⟨taken, hc⟩ := Option.ne_none_iff_exists'.1 clash
  rw [attachAs, hc]
  dsimp only
  rw [unnamed, if_neg Bool.false_ne_true]

/-- A method that is to have an event has one, gets one, or attaching stops. -/
theorem offered_attach (running : r.fault = none) (due : rule.isDue site label method = true)
    (qualifies : rule.qualifies method = .ok true) :
    rule.Offered site label i method r (rule.attach (site.chain label) i method r) := by
  rw [attach]
  cases ha : rule.isAdapted r.members i method with
  | true => exact .kept running due qualifies ha
  | false =>
    rw [if_neg Bool.false_ne_true]
    cases hw : rule.wantedName method with
    | error fault => exact .stopped (.uncalled hw) rfl rfl rfl
    | ok wanted =>
      dsimp only
      by_cases h : clash? r.members wanted = none ∨ (site.chain label).isNamed = true
      · obtain ⟨members, attached, existing, fault⟩ := rule.attachAs_of_isNamed i method h
        exact .taken running due qualifies ha hw members attached existing (fault.trans running)
      · obtain ⟨clash, unnamed⟩ := not_or.1 h
        have unnamed := Bool.eq_false_iff.2 unnamed
        rw [rule.attachAs_of_not_isNamed i method clash unnamed]
        exact .stopped (.unnamed unnamed) rfl rfl rfl

/-- Offering a method comes to one of four things. -/
theorem offered (rule : EventRule) (site : Site) (label : Label) (i : Nat) (method : Label)
    (r : Roster) : rule.Offered site label i method r (rule.offer site label i method r) := by
  rw [offer]
  cases hf : r.fault with
  | some fault => exact .stopped (.earlier hf) hf rfl rfl
  | none =>
    by_cases hg : (site.inside label).isGenerated method = true
    · dsimp only
      rw [if_pos hg]
      have hdue {b : Bool} (hq : rule.qualifies method = .ok b) :
          rule.isDue site label method = b := by
        rw [isDue, accepts, hg, hq, Bool.true_and]
      cases hq : rule.qualifies method with
      | error fault => exact .stopped (.unjudged hg hq) rfl rfl rfl
      | ok b =>
        cases b with
        | false => exact .spared hf (hdue hq) fun _ => hq
        | true => exact offered_attach hf (hdue hq) hq
    · dsimp only
      rw [if_neg hg]
      rw [Bool.not_eq_true] at hg
      exact .spared hf (by rw [isDue, hg, Bool.false_and]) fun h => by rw [hg] at h; cases h

/-- Offering a method leaves the class as it is or appends an event for the method, which is
generated then. If there is no fault, there was none before, and nothing is left to be done for the
method if it is generated. -/
theorem offer_cases (rule : EventRule) (site : Site) (label : Label) (i : Nat) (method : Label)
    (r : Roster) :
    let r' := rule.offer site label i method r
    ((r'.members = r.members ∧ r'.attached = r.attached) ∨
      ∃ name, (site.inside label).isGenerated method = true ∧
        r'.members = r.members ++ [rule.eventOf i method name] ∧
        r'.attached = r.attached ++ [rule.eventOf i method name]) ∧
      (r'.fault = none → r.fault = none ∧
        ((site.inside label).isGenerated method = true → rule.Serves r'.members i method)) := by
  have offered := rule.offered site label i method r
  generalize rule.offer site label i method r = r' at offered
  dsimp only
  cases offered with
  | stopped why fault members attached =>
    refine ⟨Or.inl ⟨members, attached⟩, fun h => ?_⟩
    rw [h] at fault
    cases fault
  | spared running due judged =>
    exact ⟨Or.inl ⟨rfl, rfl⟩, fun _ => ⟨running, fun hg => ⟨false, judged hg, nofun⟩⟩⟩
  | kept running due qualifies adapted =>
    exact ⟨Or.inl ⟨rfl, rfl⟩, fun _ => ⟨running, fun _ => ⟨true, qualifies, fun _ => adapted⟩⟩⟩
  | taken running due qualifies fresh wantedName members attached existing fault =>
    rw [isDue, Bool.and_eq_true] at due
    refine ⟨Or.inr ⟨_, due.1, members, attached⟩, fun _ => ⟨running, fun _ => ⟨true, qualifies, ?_⟩⟩⟩
    intro _
    rw [members, isAdapted, List.any_append, Bool.or_eq_true]
    right
    simp [adapts_eventOf]
    rfl

/-- A method for which nothing is left to be done adds nothing. -/
theorem offer_of_serves (hf : r.fault = none)
    (h : (site.inside label).isGenerated method = true → rule.Serves r.members i method) :
    let r' := rule.offer site label i method r
    r'.members = r.members ∧ r'.attached = r.attached ∧ r'.fault = none := by
  intro r'
  simp only [r', offer, hf]
  split
  · next hg =>
    obtain ⟨b, hq, hb⟩ := h hg
    rw [hq]
    cases b with
    | false => exact ⟨rfl, rfl, hf⟩
    | true =>
      dsimp only
      rw [attach, if_pos (hb rfl)]
      exact ⟨rfl, rfl, hf⟩
  · exact ⟨rfl, rfl, hf⟩

/-! ## All methods -/

/-- What a class keeps when it takes an event under a free name, for a method that no event adapts,
it keeps when its methods are offered. -/
theorem offerAll_keeps {P : List Decl → Prop}
    (take : ∀ (i : Nat) (method : Label) (members : List Decl) (wanted : Value),
      rule.isAdapted members i method = false → P members →
        P (members ++ [rule.eventOf i method (rule.freeName members wanted)]))
    (methods : List Decl) : ∀ (i : Nat) (r : Roster), P r.members →
      P (rule.offerAll site label i methods r).members := by
  induction methods with
  | nil => exact fun _ _ h => h
  | cons m methods ih =>
    intro i r h
    refine ih (i + 1) _ ?_
    have offered := rule.offered site label i m.label r
    generalize rule.offer site label i m.label r = r' at offered
    cases offered with
    | stopped why fault members attached => exact members ▸ h
    | spared running due judged => exact h
    | kept running due qualifies adapted => exact h
    | taken running due qualifies fresh wantedName members attached existing fault =>
      rw [members]
      exact take i m.label r.members _ fresh h

/-- Offering methods appends events for them. -/
theorem exists_offerAll (rule : EventRule) (site : Site) (label : Label) (methods : List Decl) :
    ∀ (i : Nat) (r : Roster), ∃ es, (∀ e ∈ es, rule.MayAttach site label i methods e) ∧
      (rule.offerAll site label i methods r).members = r.members ++ es ∧
      (rule.offerAll site label i methods r).attached = r.attached ++ es := by
  induction methods with
  | nil => exact fun i r => ⟨[], by simp, by simp [offerAll], by simp [offerAll]⟩
  | cons m methods ih =>
    intro i r
    obtain ⟨es, hes, hm, ha⟩ := ih (i + 1) (rule.offer site label i m.label r)
    have later : ∀ e ∈ es, rule.MayAttach site label i (m :: methods) e := by
      intro e he
      obtain ⟨k, n, name, hn, hg, rfl⟩ := hes e he
      exact ⟨k + 1, n, name, hn, hg, by rw [Nat.add_assoc, Nat.add_comm 1 k]⟩
    rw [offerAll, hm, ha]
    rcases (rule.offer_cases site label i m.label r).1 with ⟨hm1, ha1⟩ | ⟨name, hg, hm1, ha1⟩
    · exact ⟨es, later, by rw [hm1], by rw [ha1]⟩
    · refine ⟨rule.eventOf i m.label name :: es, ?_, ?_, ?_⟩
      · rintro e he
        rcases List.mem_cons.1 he with rfl | he
        · exact ⟨0, m, name, rfl, hg, rfl⟩
        · exact later e he
      · rw [hm1, List.append_assoc, List.singleton_append]
      · rw [ha1, List.append_assoc, List.singleton_append]

/-- Once methods were offered without a fault, nothing is left to be done for any that is
generated. -/
theorem serves_of_offerAll (rule : EventRule) (site : Site) (label : Label)
    (methods : List Decl) : ∀ (i : Nat) (r : Roster),
      (rule.offerAll site label i methods r).fault = none → r.fault = none ∧
        ∀ k m, methods[k]? = some m → (site.inside label).isGenerated m.label = true →
          rule.Serves (rule.offerAll site label i methods r).members (i + k) m.label := by
  induction methods with
  | nil => exact fun i r h => ⟨h, by simp⟩
  | cons m methods ih =>
    intro i r h
    obtain ⟨hf, hrest⟩ := ih (i + 1) (rule.offer site label i m.label r) h
    obtain ⟨hr, hfirst⟩ := (rule.offer_cases site label i m.label r).2 hf
    refine ⟨hr, fun k n hn hg => ?_⟩
    rw [offerAll]
    cases k with
    | zero =>
      obtain rfl : m = n := by simpa using hn
      obtain ⟨es, -, hm, -⟩ :=
        rule.exists_offerAll site label methods (i + 1) (rule.offer site label i m.label r)
      rw [hm]
      exact (hfirst hg).append es
    | succ k =>
      have hk := hrest k n (by simpa using hn) hg
      rwa [Nat.add_assoc, Nat.add_comm 1 k] at hk

/-- If nothing is left to be done for any method, offering the methods adds nothing. -/
theorem offerAll_of_serves (methods : List Decl) : ∀ (i : Nat) (r : Roster), r.fault = none →
    (∀ k m, methods[k]? = some m → (site.inside label).isGenerated m.label = true →
      rule.Serves r.members (i + k) m.label) →
    (rule.offerAll site label i methods r).attached = r.attached ∧
      (rule.offerAll site label i methods r).fault = none := by
  induction methods with
  | nil => exact fun i r hf _ => ⟨rfl, hf⟩
  | cons m methods ih =>
    intro i r hf h
    obtain ⟨hm, ha, hf'⟩ := offer_of_serves (i := i) hf (h 0 m rfl)
    have hrest := ih (i + 1) (rule.offer site label i m.label r) hf' fun k n hn hg => by
      rw [hm, Nat.add_assoc, Nat.add_comm 1 k]
      exact h (k + 1) n (by simpa using hn) hg
    rw [offerAll]
    exact ⟨hrest.1.trans ha, hrest.2⟩

/-- What a class keeps when it takes an event under a free name, for a method that no event adapts,
it keeps when it gets its events. -/
theorem roster_keeps {P : List Decl → Prop}
    (take : ∀ (i : Nat) (method : Label) (members : List Decl) (wanted : Value),
      rule.isAdapted members i method = false → P members →
        P (members ++ [rule.eventOf i method (rule.freeName members wanted)]))
    {s : Site} {d : Decl} (h : P d.members) : P (d.members ++ (rule.roster s d).attached) := by
  obtain ⟨es, -, hm, ha⟩ := rule.exists_offerAll s d.label d.methods 0 { members := d.members }
  have kept : P (rule.roster s d).members :=
    offerAll_keeps take d.methods 0 { members := d.members } h
  rw [roster] at kept ⊢
  rwa [ha, List.nil_append, ← hm]

/-- Whether nothing is left to be done for the methods of a class. -/
def IsServed (rule : EventRule) (x : Located) : Prop :=
  ∀ i m, x.decl.methods[i]? = some m → (x.site.inside x.label).isGenerated m.label = true →
    rule.Serves x.decl.members i m.label

/-- A class gets events for its own methods. -/
theorem mayAttach_of_mem_attached {s : Site} {d e : Decl} (he : e ∈ (rule.roster s d).attached) :
    rule.MayAttach s d.label 0 d.methods e := by
  obtain ⟨es, hes, -, ha⟩ := rule.exists_offerAll s d.label d.methods 0 { members := d.members }
  refine hes e ?_
  rwa [roster, ha, List.nil_append] at he

/-- With its events, nothing is left to be done for the methods of a class that had no fault. -/
theorem serves_of_roster {s : Site} {d : Decl} (h : (rule.roster s d).fault = none) {k : Nat}
    {m : Decl} (hm : d.methods[k]? = some m) (hg : (s.inside d.label).isGenerated m.label = true) :
    rule.Serves (d.members ++ (rule.roster s d).attached) k m.label := by
  obtain ⟨es, -, hms, ha⟩ := rule.exists_offerAll s d.label d.methods 0 { members := d.members }
  have hk := (rule.serves_of_offerAll s d.label d.methods 0 { members := d.members } h).2 k m hm hg
  rw [hms, Nat.zero_add] at hk
  rwa [roster, ha, List.nil_append]

/-- A class for whose methods nothing is left to be done gets nothing. -/
theorem roster_of_isServed {x : Located} (h : rule.IsServed x) :
    (rule.roster x.site x.decl).attached = [] ∧ (rule.roster x.site x.decl).fault = none := by
  refine offerAll_of_serves x.decl.methods 0 { members := x.decl.members } rfl fun k m hm hg => ?_
  rw [Nat.zero_add]
  exact h k m hm hg

/-! ## What events are made for -/

/-- The methods of a class that are to have an event, with their numbers. -/
def due (rule : EventRule) (s : Site) (d : Decl) : List (Decl × Nat) :=
  if isEventful s d.label then
    d.methods.zipIdx.filter fun v => rule.isDue s d.label v.1.label
  else []

/-- Whether an event is one of a rule for the `i`-th method of its class: this is its source, and it
has the access, the comment and the parameters of it. -/
structure IsFor (rule : EventRule) (i : Nat) (method : Label) (e : Decl) : Prop where
  /-- It stands among the events. -/
  role : e.role = .event
  /-- It has no members. -/
  leaf : e.members = []
  /-- It has the access of the method. -/
  access : e.label.access = method.access
  /-- It has the comment of the method. -/
  comment : e.label.comment = method.comment
  /-- It belongs to the family of the rule, its source is the method, and it hands on the parameters
  of the method. -/
  adapter : ∃ parameters,
    e.form = .event ⟨.text rule.origin, some ⟨.sibling i, method.signature⟩, parameters⟩ ∧
      ∀ signature traits, method.form = .method signature traits →
        parameters = signature.parameters

/-- The event of a rule for a method is one. -/
theorem isFor_eventOf (rule : EventRule) (i : Nat) (method : Label) (name : Value) :
    rule.IsFor i method (rule.eventOf i method name) := by
  refine ⟨rfl, rfl, rfl, rfl, _, rfl, fun signature traits h => ?_⟩
  rw [h]
  rfl

/-- Whether events are, one by one, for methods with their numbers. -/
def AreFor (rule : EventRule) (sources : List (Decl × Nat)) (events : List Decl) : Prop :=
  List.Forall₂ (fun v e => rule.IsFor v.2 v.1.label e) sources events

/-- Offering methods attaches events for some of those that are to have one, in order; and if it
comes to an end, all others have one already. -/
theorem exists_sources_offerAll (rule : EventRule) (site : Site) (label : Label)
    (methods : List Decl) : ∀ (i : Nat) (r : Roster),
      let r' := rule.offerAll site label i methods r
      let due := (methods.zipIdx i).filter fun v => rule.isDue site label v.1.label
      ∃ sources events, sources.Sublist due ∧ rule.AreFor sources events ∧
        r'.attached = r.attached ++ events ∧
        (r'.fault = none → r'.existing + events.length = r.existing + due.length) := by
  induction methods with
  | nil => exact fun i r => ⟨[], [], .slnil, .nil, by simp [offerAll], fun _ => rfl⟩
  | cons m methods ih =>
    intro i r
    dsimp only
    rw [offerAll, List.zipIdx_cons, List.filter_cons]
    have offered := rule.offered site label i m.label r
    generalize rule.offer site label i m.label r = r₁ at offered
    obtain ⟨sources, events, hsub, hfor, hatt, hcount⟩ := ih (i + 1) r₁
    cases offered with
    | stopped why fault members attached =>
      refine ⟨sources, events, ?_, hfor, by rw [hatt, attached], fun hn => ?_⟩
      · split
        · exact hsub.cons _
        · exact hsub
      · rw [(rule.serves_of_offerAll site label methods (i + 1) r₁ hn).1] at fault
        cases fault
    | spared running due judged =>
      rw [due, if_neg Bool.false_ne_true]
      exact ⟨sources, events, hsub, hfor, hatt, hcount⟩
    | kept running due qualifies adapted =>
      rw [due, if_pos rfl]
      refine ⟨sources, events, hsub.cons _, hfor, hatt, fun hn => ?_⟩
      have count := hcount hn
      dsimp only at count
      rw [List.length_cons]
      omega
    | @taken _ wanted running due qualifies fresh wantedName members attached existing fault =>
      rw [due, if_pos rfl]
      refine ⟨(m, i) :: sources, rule.eventOf i m.label (rule.freeName r.members wanted) :: events,
        hsub.cons_cons _, .cons (isFor_eventOf _ _ _ _) hfor, ?_, fun hn => ?_⟩
      · rw [hatt, attached, List.append_assoc, List.singleton_append]
      · have count := hcount hn
        rw [existing] at count
        rw [List.length_cons, List.length_cons]
        omega

/-- What a class that can get events gets is made for methods that are to have one, in order; and if
that comes to an end, all others have one already. -/
theorem exists_sources (rule : EventRule) {s : Site} {d : Decl}
    (eventful : isEventful s d.label = true) :
    ∃ sources, sources.Sublist (rule.due s d) ∧ rule.AreFor sources (rule.roster s d).attached ∧
      ((rule.roster s d).fault = none →
        (rule.roster s d).existing + (rule.roster s d).attached.length = (rule.due s d).length) := by
  obtain ⟨sources, events, hsub, hfor, hatt, hcount⟩ :=
    rule.exists_sources_offerAll s d.label d.methods 0 { members := d.members }
  have attached : (rule.roster s d).attached = events := hatt
  rw [due, if_pos eventful, attached]
  refine ⟨sources, hsub, hfor, fun hn => ?_⟩
  have count := hcount hn
  rwa [Nat.zero_add] at count

/-- What an event is made for is a method of its class that is to have one. -/
theorem exists_due_of_mem_attached {rule : EventRule} {s : Site} {d e : Decl}
    (eventful : isEventful s d.label = true) (he : e ∈ (rule.roster s d).attached) :
    ∃ (i : Nat) (m : Decl), d.methods[i]? = some m ∧ rule.isDue s d.label m.label = true ∧
      rule.IsFor i m.label e := by
  obtain ⟨sources, hsub, hfor, -⟩ := rule.exists_sources eventful
  obtain ⟨v, hv, isFor⟩ := exists_partner_of_mem hfor he
  have hv := hsub.subset hv
  rw [due, if_pos eventful, List.mem_filter] at hv
  exact ⟨v.2, v.1, List.mem_zipIdx_iff_getElem?.1 hv.1, hv.2, isFor⟩

/-- What an event is made for is a member of its class, which is generated and accepted. -/
theorem exists_isFor_of_mem_attached {rule : EventRule} {s : Site} {d e : Decl}
    (eventful : isEventful s d.label = true) (he : e ∈ (rule.roster s d).attached) :
    ∃ (i j : Nat) (m : Decl), d.members[j]? = some m ∧
      (s.inside d.label).isGenerated m.label = true ∧ rule.accepts m.label = true ∧
        rule.IsFor i m.label e := by
  obtain ⟨i, m, hm, hdue, isFor⟩ := exists_due_of_mem_attached eventful he
  rw [isDue, Bool.and_eq_true] at hdue
  obtain ⟨j, hj⟩ := List.mem_iff_getElem?.1 (List.mem_filter.1 (List.mem_of_getElem? hm)).1
  exact ⟨i, j, m, hj, hdue.1, hdue.2, isFor⟩

/-- When methods are offered, each event gets a free name among the members of the class and the
events attached before it, for the name that is wanted for its source. -/
theorem exists_wantedName_of_offerAll (rule : EventRule) (site : Site) (label : Label)
    {own : List Decl} (methods : List Decl) : ∀ (i : Nat) (r : Roster),
      r.members = own ++ r.attached → ∀ (earlier : List Decl) (e : Decl) (later : List Decl),
        (rule.offerAll site label i methods r).attached = earlier ++ e :: later →
        r.attached.length ≤ earlier.length → ∃ (k : Nat) (m : Decl) (wanted : Value),
          methods[k]? = some m ∧ rule.wantedName m.label = .ok wanted ∧
            e = rule.eventOf (i + k) m.label (rule.freeName (own ++ earlier) wanted) := by
  induction methods with
  | nil =>
    intro i r _ earlier e later split behind
    have attached : r.attached = earlier ++ e :: later := split
    rw [attached, List.length_append, List.length_cons] at behind
    omega
  | cons m methods ih =>
    intro i r members earlier e later split behind
    have offered := rule.offered site label i m.label r
    obtain ⟨es, -, -, all⟩ := rule.exists_offerAll site label methods (i + 1)
      (rule.offer site label i m.label r)
    rw [offerAll] at split
    generalize rule.offer site label i m.label r = r' at offered split all
    -- An event that is attached after this method was offered belongs to a later one.
    have next : r'.members = own ++ r'.attached → r'.attached.length ≤ earlier.length →
        ∃ (k : Nat) (n : Decl) (wanted : Value), (m :: methods)[k]? = some n ∧
          rule.wantedName n.label = .ok wanted ∧
            e = rule.eventOf (i + k) n.label (rule.freeName (own ++ earlier) wanted) := by
      intro members' behind'
      obtain ⟨k, n, wanted, hn, hw, he⟩ := ih (i + 1) r' members' earlier e later split behind'
      exact ⟨k + 1, n, wanted, hn, hw, by rw [he, Nat.add_assoc, Nat.add_comm 1 k]⟩
    cases offered with
    | stopped why fault members' attached =>
      exact next (by rw [members', attached, members]) (by rwa [attached])
    | spared running due judged => exact next members behind
    | kept running due qualifies adapted => exact next members behind
    | @taken _ wanted running due qualifies fresh wantedName members' attached existing fault =>
      rcases Nat.lt_or_eq_of_le behind with behind | same
      · refine next (by rw [members', attached, members, List.append_assoc]) ?_
        rw [attached, List.length_append]
        exact behind
      · rw [all, attached, List.append_assoc, List.singleton_append] at split
        obtain ⟨rfl, here⟩ := List.append_inj split same
        obtain ⟨rfl, -⟩ := List.cons.inj here
        exact ⟨0, m, wanted, rfl, wantedName, by rw [members, Nat.add_zero]⟩

/-- What a declaration gets when events are attached all over a tree. -/
def additions (rule : EventRule) (s : Site) (d : Decl) : List Decl :=
  if isEventful s d.label then (rule.roster s d).attached else []

end EventRule

/-- Going up to the first element that satisfies a condition, no element satisfies it just if no
element at all does. -/
theorem forall_upToFirst {α : Type} {condition : α → Bool} {as : List α} :
    (∀ a ∈ upToFirst condition as, condition a = false) ↔ ∀ a ∈ as, condition a = false := by
  induction as with
  | nil => rfl
  | cons a as ih =>
    rw [upToFirst]
    cases hc : condition a with
    | true => simp [hc]
    | false => simp [hc, ih]

/-- What is met on the way to the first element with a property is an element. -/
theorem mem_of_mem_upToFirst {α : Type} {condition : α → Bool} {a : α} {as : List α}
    (h : a ∈ upToFirst condition as) : a ∈ as := by
  induction as with
  | nil => exact h
  | cons b as ih =>
    rw [upToFirst] at h
    split at h
    · rw [List.mem_singleton.1 h]
      exact List.mem_cons_self
    · rcases List.mem_cons.1 h with rfl | h
      · exact List.mem_cons_self
      · exact List.mem_cons_of_mem _ (ih h)

end Bindery
