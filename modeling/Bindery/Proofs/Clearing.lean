import Bindery.Proofs.Finish
import Bindery.Proofs.Serving

/-!
# Comments make no difference

Of all passes only the two for documentation ask for comments. So clearing a tree commutes with
renaming it and with attaching events to it, and whether these come to an end can be told from the
cleared tree. Main statements: `EventRule.roster_cleared`, `Tree.cleared_withEvents`,
`Tree.cleared_renamed`.
-/

namespace Bindery

/-! ## Clearing -/

/-- The label without its comment. -/
def Label.cleared (l : Label) : Label := { l with comment := .null }

/-- The declaration without comments. -/
def Decl.cleared (d : Decl) : Decl := d.relabel (fun _ l => l.cleared) Site.top

namespace Chain

/-- The labels of a chain are cleared one by one. -/
theorem relabel_cleared (c : Chain) : ∀ address,
    Chain.relabel (fun _ l => l.cleared) address c = c.map Label.cleared := by
  induction c with
  | nil => exact fun _ => rfl
  | cons l outer ih => exact fun address => congrArg (l.cleared :: ·) (ih address.dropLast)

/-- Clearing leaves alone what is below the unit. -/
theorem belowUnit_cleared (c : Chain) :
    Chain.belowUnit (c.map Label.cleared) = c.belowUnit.map Label.cleared := by
  rw [belowUnit, belowUnit, List.takeWhile_map, List.map_reverse]
  rfl

@[simp] theorem isNamed_cleared (c : Chain) : Chain.isNamed (c.map Label.cleared) = c.isNamed := by
  rw [isNamed, isNamed, belowUnit_cleared, List.all_map]
  rfl

@[simp] theorem qualifiedName_cleared (c : Chain) :
    Chain.qualifiedName (c.map Label.cleared) = c.qualifiedName := by
  rw [qualifiedName, qualifiedName, belowUnit_cleared, List.map_map]
  rfl

@[simp] theorem unitPath?_cleared (c : Chain) :
    Chain.unitPath? (c.map Label.cleared) = c.unitPath? := by
  rw [unitPath?, unitPath?, List.findSome?_map]
  rfl

@[simp] theorem isIgnored_cleared (c : Chain) :
    Chain.isIgnored (c.map Label.cleared) = c.isIgnored := by
  rw [isIgnored, isIgnored, List.any_map]
  rfl

end Chain

namespace Site

/-- The site below owners without comments. -/
def cleared (s : Site) : Site := ⟨s.address, s.scope.map Label.cleared⟩

/-- The owners of a declaration are cleared one by one. -/
theorem relabel_cleared (s : Site) : s.relabel (fun _ l => l.cleared) = s.cleared :=
  congrArg (Site.mk s.address) (Chain.relabel_cleared s.scope _)

/-- What is generated does not depend on comments. -/
@[simp] theorem isGenerated_cleared (s : Site) (l : Label) :
    s.cleared.isGenerated l.cleared = s.isGenerated l := by
  have ignored : s.cleared.isIgnored l.cleared = s.isIgnored l :=
    Chain.isIgnored_cleared (l :: s.scope)
  rw [isGenerated, isGenerated, ignored]
  rfl

end Site

namespace Decl

/-- It does not matter where comments are cleared. -/
theorem relabel_cleared (d : Decl) : ∀ s, d.relabel (fun _ l => l.cleared) s = d.cleared := by
  induction d using Decl.induction with
  | h l ms ih =>
    intro s
    rw [cleared, relabel, relabel]
    refine congrArg (node l.cleared) (List.ext_getElem? fun j => ?_)
    rw [getElem?_relabelAll, getElem?_relabelAll]
    cases hm : ms[j]? with
    | none => rfl
    | some m =>
      have hm := ih m (List.mem_of_getElem? hm)
      rw [Option.map_some, Option.map_some, hm, hm]

/-- Comments are cleared declaration by declaration. -/
theorem relabelAll_cleared (ds : List Decl) (s : Site) (i : Nat) :
    relabelAll (fun _ l => l.cleared) ds s i = ds.map cleared := by
  refine List.ext_getElem? fun j => ?_
  rw [getElem?_relabelAll, List.getElem?_map]
  simp only [relabel_cleared]

@[simp] theorem label_cleared (d : Decl) : d.cleared.label = d.label.cleared := by
  obtain ⟨l, ms⟩ := d
  rfl

@[simp] theorem members_cleared (d : Decl) : d.cleared.members = d.members.map cleared := by
  obtain ⟨l, ms⟩ := d
  exact relabelAll_cleared ms _ 0

/-- Methods stay methods without their comments. -/
theorem methods_cleared (d : Decl) : d.cleared.methods = d.methods.map cleared := by
  rw [methods, methods, membersIn, membersIn, members_cleared, List.filter_map]
  refine congrArg _ (List.filter_congr fun m _ => ?_)
  rw [Function.comp, role, role, label_cleared]
  rfl

/-- A list is relabelled part by part. -/
theorem relabelAll_append (f : Site → Label → Label) (ds es : List Decl) (s : Site) (i : Nat) :
    relabelAll f (ds ++ es) s i = relabelAll f ds s i ++ relabelAll f es s (i + ds.length) := by
  induction ds generalizing i with
  | nil => rfl
  | cons d ds ih =>
    rw [List.cons_append, relabelAll, relabelAll, ih, List.cons_append, List.length_cons,
      Nat.add_assoc, Nat.add_comm 1]

mutual

/-- Relabelling commutes with an extension if what is appended is relabelled, too. -/
theorem relabel_extend {f : Site → Label → Label} {g g' : Site → Decl → List Decl} (d : Decl)
    (s : Site) (h : ∀ x ∈ survey d s, relabelAll f (g x.site x.decl) (x.site.inside x.label)
      x.decl.members.length = g' (x.site.relabel f) (x.decl.relabel f x.site)) :
    relabel f (extend g d s) s = extend g' (relabel f d s) (s.relabel f) :=
  match d with
  | node l ms => by
    have hs := relabelAll_extendAll ms (s.inside l) ((s.relabel f).inside (f s l)) 0
      (fun i => Site.relabel_child_inside f s l i)
      fun x hx => h x (List.mem_cons_of_mem _ hx)
    have here := h _ List.mem_cons_self
    rw [extend, relabel, relabel, extend, relabelAll_append, hs, length_extendAll, Nat.zero_add]
    exact congrArg (fun es => node (f s l) (_ ++ es)) here
termination_by structural d

/-- Relabelling commutes with an extension of a list if what is appended is relabelled, too. -/
theorem relabelAll_extendAll {f : Site → Label → Label} {g g' : Site → Decl → List Decl}
    (ds : List Decl) (s s' : Site) (i : Nat) (hs : ∀ j, (s.child j).relabel f = s'.child j)
    (h : ∀ x ∈ surveyAll ds s i, relabelAll f (g x.site x.decl) (x.site.inside x.label)
      x.decl.members.length = g' (x.site.relabel f) (x.decl.relabel f x.site)) :
    relabelAll f (extendAll g ds s i) s i = extendAll g' (relabelAll f ds s i) s' i :=
  match ds with
  | [] => rfl
  | d :: ds => by
    rw [extendAll, relabelAll, relabelAll, extendAll, ← hs i,
      relabel_extend d (s.child i) fun x hx => h x (List.mem_append_left _ hx),
      relabelAll_extendAll ds s s' (i + 1) hs fun x hx => h x (List.mem_append_right _ hx)]
termination_by structural ds

end

end Decl

/-! ## Events -/

/-- What becomes of a class, without comments. -/
def Roster.cleared (r : Roster) : Roster :=
  { r with members := r.members.map Decl.cleared, attached := r.attached.map Decl.cleared }

namespace EventRule

/-- A rule that does not ask for comments. -/
structure IgnoresComments (rule : EventRule) : Prop where
  /-- Whether a method becomes an event does not depend on its comment. -/
  qualifies : ∀ l : Label, rule.qualifies l.cleared = rule.qualifies l
  /-- How its event should be called does not, either. -/
  wantedName : ∀ l : Label, rule.wantedName l.cleared = rule.wantedName l

variable {rule : EventRule}

/-- A method is adapted whatever the comments are. -/
theorem isAdapted_cleared (ms : List Decl) (i : Nat) (l : Label) :
    rule.isAdapted (ms.map Decl.cleared) i l.cleared = rule.isAdapted ms i l := by
  rw [isAdapted, isAdapted, List.any_map]
  refine congrArg (List.any ms) (funext fun m => ?_)
  rw [Function.comp, Decl.role, adapts, adapts, Decl.form, Decl.label_cleared]
  rfl

/-- Names are free whatever the comments are. -/
theorem firstFree_cleared (ms : List Decl) (name : Value) :
    firstFree (ms.map Decl.cleared) name = firstFree ms name := by
  have taken : ∀ name, isTaken (ms.map Decl.cleared) name = isTaken ms name := by
    intro name
    rw [isTaken, isTaken, List.any_map]
    refine congrArg (List.any ms) (funext fun m => ?_)
    rw [Function.comp, Decl.name, Decl.label_cleared]
    rfl
  simp only [firstFree, taken, List.length_map]

/-- Names clash whatever the comments are. -/
theorem clash?_cleared (ms : List Decl) (name : Value) :
    clash? (ms.map Decl.cleared) name = (clash? ms name).map Decl.cleared := by
  have named : (fun m : Decl => m.name.alike name) ∘ Decl.cleared = fun m => m.name.alike name := by
    funext m
    rw [Function.comp, Decl.name, Decl.label_cleared]
    rfl
  rw [clash?, clash?, List.find?_map, named]
  cases ms.find? fun m => m.name.alike name with
  | none => rfl
  | some m =>
    have event : m.cleared.form.isEvent = m.form.isEvent := by
      rw [Decl.form, Decl.label_cleared]
      rfl
    rw [Option.map_some]
    dsimp only
    rw [event]
    cases m.form.isEvent <;> rfl

/-- The event of a method without its comment is the event of the method, without comment. -/
theorem eventOf_cleared (i : Nat) (l : Label) (name : Value) :
    rule.eventOf i l.cleared name = (rule.eventOf i l name).cleared := rfl

/-- A class takes events without comments as it does with them. -/
theorem take_cleared (r : Roster) (e : Decl) : r.cleared.take e.cleared = (r.take e).cleared := by
  simp [Roster.take, Roster.cleared]

/-- An event is attached under the same name whatever the comments are. -/
theorem attachAs_cleared (c : Chain) (i : Nat) (l : Label) (wanted : Value) (r : Roster) :
    rule.attachAs (c.map Label.cleared) i l.cleared wanted r.cleared =
      (rule.attachAs c i l wanted r).cleared := by
  have members : r.cleared.members = r.members.map Decl.cleared := rfl
  rw [attachAs, attachAs, members, clash?_cleared]
  cases clash? r.members wanted with
  | none =>
    rw [Option.map_none]
    dsimp only
    rw [firstFree_cleared, eventOf_cleared, take_cleared]
  | some taken =>
    have warning : clashWarning (c.map Label.cleared) wanted.display taken.cleared
        (rule.collisionMark ++ wanted.display) =
          clashWarning c wanted.display taken (rule.collisionMark ++ wanted.display) := by
      rw [clashWarning, clashWarning, Chain.qualifiedName_cleared, Chain.unitPath?_cleared,
        Decl.form, Decl.form, Decl.label_cleared]
      rfl
    rw [Option.map_some]
    dsimp only
    rw [Chain.isNamed_cleared, firstFree_cleared, eventOf_cleared, take_cleared, warning]
    split <;> rfl

/-- A method is offered alike whatever the comments are. -/
theorem offer_cleared (h : rule.IgnoresComments) (s : Site) (label : Label) (i : Nat)
    (method : Label) (r : Roster) :
    rule.offer s.cleared label.cleared i method.cleared r.cleared =
      (rule.offer s label i method r).cleared := by
  have inside : s.cleared.inside label.cleared = (s.inside label).cleared := rfl
  have chain : s.cleared.chain label.cleared = (s.chain label).map Label.cleared := rfl
  have members : r.cleared.members = r.members.map Decl.cleared := rfl
  have fault : r.cleared.fault = r.fault := rfl
  rw [offer, offer, fault, inside, Site.isGenerated_cleared, h.qualifies, chain]
  cases r.fault with
  | some fault => rfl
  | none =>
    dsimp only
    split
    · rcases rule.qualifies method with fault | _ | _
      · rfl
      · rfl
      · dsimp only
        rw [attach, attach, members, isAdapted_cleared, h.wantedName]
        split
        · rfl
        · cases rule.wantedName method with
          | ok wanted => exact attachAs_cleared _ i method wanted r
          | error fault => rfl
    · rfl

/-- Methods are offered alike whatever the comments are. -/
theorem offerAll_cleared (h : rule.IgnoresComments) (s : Site) (label : Label)
    (methods : List Decl) : ∀ (i : Nat) (r : Roster),
      rule.offerAll s.cleared label.cleared i (methods.map Decl.cleared) r.cleared =
        (rule.offerAll s label i methods r).cleared := by
  induction methods with
  | nil => exact fun _ _ => rfl
  | cons m methods ih =>
    intro i r
    rw [List.map_cons, offerAll, offerAll, Decl.label_cleared, offer_cleared h, ih]

/-- What becomes of a class without comments is what becomes of it, without comments. -/
theorem roster_cleared (h : rule.IgnoresComments) (s : Site) (d : Decl) :
    rule.roster s.cleared d.cleared = (rule.roster s d).cleared := by
  rw [roster, roster, Decl.label_cleared, Decl.methods_cleared, Decl.members_cleared]
  exact offerAll_cleared h s d.label d.methods 0 { members := d.members }

/-- Classes can get events whatever the comments are. -/
theorem isEventful_cleared (s : Site) (l : Label) :
    isEventful s.cleared l.cleared = isEventful s l := by
  rw [isEventful, isEventful, Site.isGenerated_cleared]
  rfl

/-- What a declaration gets without comments is what it gets, without comments. -/
theorem additions_cleared (h : rule.IgnoresComments) (s : Site) (d : Decl) :
    rule.additions s.cleared d.cleared = (rule.additions s d).map Decl.cleared := by
  rw [additions, additions, Decl.label_cleared, isEventful_cleared, roster_cleared h]
  split <;> rfl

end EventRule

/-- Signals are told without comments. -/
theorem SignalOptions.ignoresComments_rule (options : SignalOptions) :
    options.rule.IgnoresComments := ⟨fun _ => rfl, fun _ => rfl⟩

/-- Hooks are told without comments. -/
theorem HookOptions.ignoresComments_rule (options : HookOptions) (index : BaseIndex) :
    (options.rule index).IgnoresComments := ⟨fun _ => rfl, fun _ => rfl⟩

/-! ## Trees -/

namespace Located

/-- The declaration in the tree without comments. -/
def cleared (x : Located) : Located := ⟨x.site.cleared, x.decl.cleared⟩

@[simp] theorem label_cleared (x : Located) : x.cleared.label = x.label.cleared :=
  x.decl.label_cleared

@[simp] theorem chain_cleared (x : Located) : x.cleared.chain = x.chain.map Label.cleared := by
  rw [chain, label_cleared]
  rfl

end Located

namespace Tree

variable {t : Tree} {rule : EventRule}

/-- A tree is cleared declaration by declaration. -/
theorem survey_cleared (t : Tree) : t.cleared.survey = t.survey.map Located.cleared := by
  have hs : t.cleared.survey = t.survey.map (Located.relabel fun _ l => l.cleared) :=
    t.survey_relabel _
  rw [hs]
  refine List.map_congr_left fun x _ => ?_
  rw [Located.relabel, Site.relabel_cleared, Decl.relabel_cleared, Located.cleared]

/-- Clearing comments again changes nothing. -/
theorem cleared_cleared (t : Tree) : t.cleared.cleared = t.cleared := by
  rw [cleared, cleared, relabel_relabel]

/-- Clearing undoes documentation. -/
theorem cleared_relabel_documentedLabel (corpus : Corpus) (t : Tree) :
    (t.relabel (documentedLabel corpus)).cleared = t.cleared := by
  rw [cleared, relabel_relabel, cleared]
  refine relabel_congr fun x _ => ?_
  rw [documentedLabel]
  split
  · split <;> rfl
  · rfl

/-- Clearing undoes the documentation of a tree. -/
theorem cleared_documented (corpus : Corpus) (t : Tree) :
    (t.documented corpus).cleared = t.cleared := by
  rw [documented, cleared_relabel_documentedLabel, cleared_cleared]

/-- Clearing commutes with attaching events. -/
theorem cleared_withEvents (h : rule.IgnoresComments) (t : Tree) :
    (t.withEvents rule).cleared = t.cleared.withEvents rule := by
  refine congrArg (Tree.mk t.stage) (Decl.relabelAll_extendAll (f := fun _ l => l.cleared) t.units
    Site.top Site.top 0 (fun _ => rfl) fun x _ => ?_)
  rw [Decl.relabelAll_cleared, Decl.relabel_cleared, Site.relabel_cleared,
    EventRule.additions_cleared h]

/-- Attaching events comes to an end on the cleared tree just if it does on the tree. -/
theorem isAttachable_cleared (h : rule.IgnoresComments) :
    t.cleared.IsAttachable rule ↔ t.IsAttachable rule := by
  rw [IsAttachable, IsAttachable, survey_cleared, List.forall_mem_map]
  refine forall₂_congr fun x _ => ?_
  rw [Located.label_cleared, Located.cleared, EventRule.isEventful_cleared,
    EventRule.roster_cleared h]
  rfl

/-- Classes have full names whatever the comments are. -/
theorem hasNamedClasses_cleared (t : Tree) : t.cleared.hasNamedClasses = t.hasNamedClasses := by
  rw [hasNamedClasses, hasNamedClasses, survey_cleared, List.all_map]
  refine congrArg (List.all t.survey) (funext fun x => ?_)
  rw [Function.comp, Located.chain_cleared, Chain.isNamed_cleared, Located.label_cleared]
  rfl

/-- Base classes are listed whatever the comments are. -/
theorem baseIndex_cleared (t : Tree) : t.cleared.baseIndex = t.baseIndex := by
  rw [baseIndex, baseIndex, survey_cleared, List.foldl_map]
  refine congrArg (fun step => List.foldl step [] t.survey) (funext fun index => funext fun x => ?_)
  rw [Located.qualifiedName, Located.chain_cleared, Chain.qualifiedName_cleared,
    Located.label_cleared]
  rfl

/-! ## Names -/

variable {targets : List RenameTarget} {pattern : CasePattern}

/-- Renaming does not ask for comments. -/
theorem isRenameable_cleared (s : Site) (l : Label) :
    isRenameable targets s.cleared l.cleared = isRenameable targets s l := by
  rw [isRenameable, isRenameable, Site.isGenerated_cleared]
  rfl

/-- Names can be recased whatever the comments are. -/
theorem isRecasable_cleared :
    t.cleared.IsRecasable targets pattern ↔ t.IsRecasable targets pattern := by
  rw [IsRecasable, IsRecasable, survey_cleared, List.forall_mem_map]
  refine forall₂_congr fun x _ => ?_
  rw [Located.label_cleared, Located.cleared, isRenameable_cleared]
  rfl

/-- A label is renamed alike whatever the comments are. -/
theorem renamedLabel_cleared (s : Site) (l : Label) :
    renamedLabel targets pattern s.cleared l.cleared =
      (renamedLabel targets pattern s l).cleared := by
  have name : l.cleared.name = l.name := rfl
  rw [renamedLabel, renamedLabel, isRenameable_cleared, name]
  split
  · cases pattern.convert l.name <;> rfl
  · rfl

/-- Clearing commutes with renaming. -/
theorem cleared_renamed (t : Tree) :
    (t.renamed targets pattern).cleared = t.cleared.renamed targets pattern := by
  rw [cleared, renamed, relabel_relabel, renamed, cleared, relabel_relabel]
  refine relabel_congr fun x _ => ?_
  have hs : x.site.relabel (fun _ l => { l with comment := .null }) = x.site.cleared :=
    x.site.relabel_cleared
  rw [hs]
  exact (renamedLabel_cleared x.site x.label).symm

end Tree

end Bindery
