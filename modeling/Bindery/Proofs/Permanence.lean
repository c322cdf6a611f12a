import Bindery.Proofs.Edit
import Bindery.Proofs.Loaded
import Bindery.Proofs.Passage

/-!
# Suppression is permanent

Linking overwrites the treatment of what is ignored, so a treatment alone does not last. What lasts
is the mark of suppression: nothing takes it back, and from the dump on everything that is ignored
has such a mark on itself or an owner. Main statement: `stays_ignored`.
-/

namespace Bindery

/-- A declaration and the same declaration at a later time. -/
structure Located.Lasts (x y : Located) : Prop where
  /-- It has kept its address. -/
  address : y.site.address = x.site.address
  /-- It is the same declaration. -/
  agrees : x.label.Agrees y.label
  /-- Its suppression is not taken back. -/
  suppressed : x.label.isSuppressed = true → y.label.isSuppressed = true
  /-- It has not become generated again. -/
  generated : y.label.treatment = .generate → x.label.treatment = .generate

/-- Every declaration lasts as long as nothing happens. -/
theorem Located.Lasts.refl (x : Located) : x.Lasts x := ⟨rfl, .refl _, id, id⟩

/-- What lasts from one time to a second and from there to a third lasts from the first to the
third. -/
theorem Located.Lasts.trans {x y z : Located} (h : x.Lasts y) (h' : y.Lasts z) : x.Lasts z where
  address := h'.address.trans h.address
  agrees := h.agrees.trans h'.agrees
  suppressed hs := h'.suppressed (h.suppressed hs)
  generated hg := h.generated (h'.generated hg)

namespace Tree

/-- Everything that is ignored is suppressed on purpose, itself or by an owner. -/
def IsBacked (t : Tree) : Prop :=
  ∀ x ∈ t.survey, x.isIgnored = true → x.chain.any Label.isSuppressed = true

/-- Nothing is ignored in a loaded tree. -/
theorem IsLoaded.isBacked {t : Tree} (h : t.IsLoaded) : t.IsBacked := by
  intro x hx hi
  rw [h.isIgnored x hx] at hi
  exact absurd hi (by simp)

/-- A small change keeps every declaration where it is. -/
theorem Change.lasts {t t' : Tree} (h : Change Located.MayTurn t t') :
    ∀ x ∈ t.survey, ∃ y ∈ t'.survey, x.Lasts y := by
  intro x hx
  cases h with
  | relabel f hf =>
    have hl := x.label_relabel f
    refine ⟨x.relabel f, mem_survey_relabel.2 ⟨x, hx, rfl⟩, rfl, ?_, ?_, ?_⟩
    · rw [hl]
      exact (hf x hx).agrees
    · rw [hl]
      exact (hf x hx).suppressed
    · rw [hl]
      exact (hf x hx).generated
  | extend f hf =>
    have hl := x.label_extend f
    refine ⟨x.extend f, extend_mem_survey f x hx, rfl, ?_, ?_, ?_⟩ <;> rw [hl]
    · exact .refl _
    · exact id
    · exact id

/-- Whoever is suppressed above a declaration still is at a later time. -/
theorem any_isSuppressed_of_lasts {t t' : Tree}
    (h : ∀ x ∈ t.survey, ∃ y ∈ t'.survey, x.Lasts y) {x y : Located} (hx : x ∈ t.survey)
    (hy : y ∈ t'.survey) (ha : x.site.address <+: y.site.address)
    (hs : x.chain.any Label.isSuppressed = true) : y.chain.any Label.isSuppressed = true := by
  obtain ⟨z, hz, hzx, hzs⟩ := (any_chain_iff hx).1 hs
  obtain ⟨z', hz', hl⟩ := h z hz
  refine (any_chain_iff hy).2 ⟨z', hz', ?_, hl.suppressed hzs⟩
  rw [hl.address]
  exact hzx.trans ha

/-- After a small change, too, everything that is ignored is suppressed on purpose. -/
theorem Change.isBacked {t t' : Tree} (h : Change Located.MayTurn t t') (hb : t.IsBacked) :
    t'.IsBacked := by
  have lasts := h.lasts
  cases h with
  | relabel f hf =>
    intro y hy hi
    obtain ⟨z', hz', hzy, ho⟩ := (isIgnored_iff hy).1 hi
    obtain ⟨z, hz, rfl⟩ := mem_survey_relabel.1 hz'
    have hout : (f z.site z.label).isSuppressed = true ∨
        (f z.site z.label).treatment = .ignore := by
      simpa [Label.isOut] using ho
    rcases hout.elim Or.inr (hf z hz).ignored with hz'' | hs
    · exact any_isSuppressed_of_lasts lasts hz hy hzy (hb z hz hz'')
    · refine (any_chain_iff hy).2 ⟨z.relabel f, hz', hzy, ?_⟩
      rwa [Located.label_relabel]
  | extend f hf =>
    intro y hy hi
    rcases survey_extend_cases (fun x hx e he => (hf x hx e he).leaf) y hy with
      ⟨x, hx, rfl⟩ | ⟨x, hx, j, e, he, rfl⟩
    · rw [Located.isIgnored_eq, Located.chain_extend] at hi
      rw [Located.chain_extend]
      exact hb x hx hi
    · rw [(hf x hx e (List.mem_of_getElem? he)).isIgnored_appended] at hi
      exact absurd hi (by simp)

/-- What is the case of a tree at any later time. -/
structure Endures (t t' : Tree) : Prop where
  /-- Every declaration is still where it was. -/
  lasts : ∀ x ∈ t.survey, ∃ y ∈ t'.survey, x.Lasts y
  /-- If everything ignored was suppressed on purpose, it still is. -/
  isBacked : t.IsBacked → t'.IsBacked

namespace Endures

/-- A tree endures being moved to another stage. -/
theorem advance (t : Tree) (stage : Stage) : t.Endures { t with stage } :=
  ⟨fun x hx => ⟨x, hx, .refl x⟩, id⟩

/-- A tree endures being left alone. -/
theorem refl (t : Tree) : t.Endures t := advance t t.stage

/-- What endures from one time to the next endures all the time. -/
theorem trans {t t' t'' : Tree} (h : t.Endures t') (h' : t'.Endures t'') : t.Endures t'' where
  lasts x hx := by
    obtain ⟨y, hy, hxy⟩ := h.lasts x hx
    obtain ⟨z, hz, hyz⟩ := h'.lasts y hy
    exact ⟨z, hz, hxy.trans hyz⟩
  isBacked hb := h'.isBacked (h.isBacked hb)

end Endures

/-- A tree endures changes. -/
theorem Changes.endures {t t' : Tree} (h : t.Changes Located.MayTurn t') : t.Endures t' := by
  induction h with
  | refl => exact .refl t
  | tail _ hstep ih => exact ih.trans ⟨hstep.lasts, hstep.isBacked⟩

/-- From a tree in which everything ignored is suppressed on purpose, whatever is ignored stays so
and what is not generated never is again. -/
theorem Endures.isIgnored {t t' : Tree} (h : t.Endures t') (hb : t.IsBacked)
    {x y : Located} (hx : x ∈ t.survey) (hy : y ∈ t'.survey) (hxy : x.Lasts y) :
    (x.isIgnored = true → y.isIgnored = true) ∧
      (x.isGenerated = false → y.isGenerated = false) := by
  have stays : x.isIgnored = true → y.isIgnored = true := by
    intro hi
    have hs : y.chain.any Label.isSuppressed = true :=
      any_isSuppressed_of_lasts h.lasts hx hy (by rw [hxy.address]) (hb x hx hi)
    obtain ⟨l, hl, hsl⟩ := List.any_eq_true.1 hs
    exact List.any_eq_true.2 ⟨l, hl, by rw [Label.isOut, hsl, Bool.true_or]⟩
  refine ⟨stays, fun hx => ?_⟩
  rw [← Bool.not_eq_true] at hx ⊢
  refine fun hy => hx ?_
  -- Generated at last, it was never ignored, and its treatment was the same all along.
  have hi : x.isIgnored = false := by
    rw [← Bool.not_eq_true]
    intro hi
    rw [Located.not_isIgnored_of_isGenerated hy] at stays
    exact absurd (stays hi) (by simp)
  rw [Located.isGenerated, Site.isGenerated, Bool.and_eq_true, beq_iff_eq] at hy
  simp only [Located.isGenerated, Site.isGenerated, Bool.and_eq_true, beq_iff_eq,
    Bool.not_eq_true']
  exact ⟨hxy.generated hy.1, hi⟩

end Tree

/-! ## Runs and edits -/

/-- A tree endures the run of a pipeline, however far it gets. -/
theorem Pipeline.run_endures (p : Pipeline) (w : Work) : w.tree.Endures (p.run w).2.tree := by
  refine p.run_keeps (fun t stage h => ?_) (fun s _ w' h => ?_) w (.refl w.tree)
  · exact h.trans (.advance t stage)
  · exact h.trans (s.pass.work_changes w').endures

namespace Tree

/-- Linking at an address relabels the tree. -/
theorem linkAt_relabels (address : List Nat) (t : Tree) : t.Relabels (t.linkAt address) := by
  rcases eq_or_ne address [] with rfl | h
  · exact .refl
  · rw [linkAt_eq_relabel h]
    refine .once _ fun x => ?_
    rw [relabelBelow]
    split
    · exact .link
    · exact .keep

/-- Suppressing at an address relabels the tree. -/
theorem suppressAt_relabels (address : List Nat) (t : Tree) :
    t.Relabels (t.suppressAt address) := by
  rcases eq_or_ne address [] with rfl | h
  · exact .refl
  · rw [suppressAt_eq_relabel h]
    refine .once _ fun x => ?_
    rw [relabelBelow]
    split
    · exact .suppress_if x _
    · exact .keep

/-- Pruning at an address relabels the tree. -/
theorem pruneAt_relabels (marks : PrivateMarks) (address : List Nat) (t : Tree) :
    t.Relabels (t.pruneAt marks address) := by
  rcases eq_or_ne address [] with rfl | h
  · exact .refl
  · cases hx : t.locate? address with
    | none =>
      rw [pruneAt_of_locate?_eq_none marks hx]
    | some x =>
      rw [pruneAt_eq_relabel marks h hx]
      refine .once _ fun x => ?_
      rw [relabelBelow]
      split
      · exact .suppress_if x _
      · exact .keep

/-- What can be done to a tree at once. -/
inductive Step (t : Tree) : Tree → Prop
  /-- A pass is run, whatever the stage of the tree. -/
  | pass (pass : Pass) (w : Work) (h : w.tree = t) : Step t (pass.work w).tree
  /-- A pipeline is run, as far as it gets. -/
  | pipeline (p : Pipeline) (w : Work) (h : w.tree = t) : Step t (p.run w).2.tree
  /-- A declaration is linked with everything below it. -/
  | link (address : List Nat) : Step t (t.linkAt address)
  /-- Private names below a declaration are pruned. -/
  | prune (marks : PrivateMarks) (address : List Nat) : Step t (t.pruneAt marks address)
  /-- A declaration is suppressed on purpose. -/
  | suppress (address : List Nat) : Step t (t.suppressAt address)

/-- Any number of steps, one after the other. -/
abbrev Steps : Tree → Tree → Prop := Relation.ReflTransGen Step

/-- A tree endures a step. -/
theorem Step.endures {t t' : Tree} (h : t.Step t') : t.Endures t' := by
  cases h with
  | pass pass w h =>
    subst h
    exact (pass.work_changes w).endures
  | pipeline p w h =>
    subst h
    exact p.run_endures w
  | link address => exact (t.linkAt_relabels address).changes.endures
  | prune marks address => exact (t.pruneAt_relabels marks address).changes.endures
  | suppress address => exact (t.suppressAt_relabels address).changes.endures

/-- A tree endures any number of steps. -/
theorem Steps.endures {t t' : Tree} (h : t.Steps t') : t.Endures t' := by
  induction h with
  | refl => exact .refl t
  | tail _ hstep ih => exact ih.trans hstep.endures

/-- At any time after the dump, what is ignored stays ignored for all time to come, and what is not
generated is never generated again. -/
theorem stays_ignored {source : String} {document : Value} {start now later : Tree}
    (loaded : ofDocument source document = .ok start) (before : start.Steps now)
    (after : now.Steps later) :
    ∀ x ∈ now.survey, ∃ y ∈ later.survey,
      y.site.address = x.site.address ∧ x.label.Agrees y.label ∧
        (x.isIgnored = true → y.isIgnored = true) ∧
        (x.isGenerated = false → y.isGenerated = false) := by
  intro x hx
  have hb : now.IsBacked := before.endures.isBacked (isLoaded_ofDocument loaded).isBacked
  obtain ⟨y, hy, hxy⟩ := after.endures.lasts x hx
  exact ⟨y, hy, hxy.address, hxy.agrees, after.endures.isIgnored hb hx hy hxy⟩

/-- A suppressed class stays ignored when its unit is linked. -/
theorem linked_stays_ignored :
    let now := sampleTree.suppressAt [0, 1]
    ofDocument "dump.yml" sampleDump = .ok sampleTree ∧
      now.survey.map (·.isIgnored) = [false, false, false, true, true, false, false] ∧
      ∀ x ∈ now.survey, ∃ y ∈ (now.linkAt [0]).survey,
        y.site.address = x.site.address ∧ x.label.Agrees y.label ∧
          (x.isIgnored = true → y.isIgnored = true) ∧
          (x.isGenerated = false → y.isGenerated = false) := by
  refine ⟨ofDocument_sampleDump, rfl, ?_⟩
  exact stays_ignored ofDocument_sampleDump (.single (.suppress [0, 1])) (.single (.link [0]))

end Tree

end Bindery
