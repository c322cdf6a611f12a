import Bindery.Proofs.Directories
import Bindery.Proofs.Pruning

/-!
# Units that are linked

Classification looks at each unit on its own: a unit whose header is directly in the include root
is pruned, a unit whose header is anywhere else is linked with all its declarations, and a unit
without a file is left alone. How the root and the path of the header are written is compared by
their components. Main statement: `classify_wholly`.
-/

namespace Bindery

open WrittenPath (IsIn IsPadded HasStart IsComponent)

/-! ## Single units -/

/-- A declaration in its place, possibly suppressed because it is private. -/
structure Located.IsSpared (marks : PrivateMarks) (x y : Located) : Prop where
  /-- It stands where it stood. -/
  address : y.site.address = x.site.address
  /-- It is as it was, or it is private and suppressed. -/
  label : y.label = x.label ∨
    marks.isPrivate x.label.name = true ∧ y.label = x.label.suppress
  /-- It is not linked unless it was. -/
  unlinked : y.label.treatment = .link → x.label.treatment = .link

namespace Decl

variable {marks : PrivateMarks}

/-- What classification makes of a unit `d`: a unit `e` in its place. -/
structure IsClassifiedAs (root : String) (marks : PrivateMarks) (d e : Decl) : Prop where
  /-- A unit without a file is left alone. -/
  unresolved : Tree.isValidPath d.unitPath = false → e = d
  /-- A unit from elsewhere is linked with all that is in it, and not changed otherwise. -/
  foreign : Tree.isValidPath d.unitPath = true → ¬ IsIn d.unitPath root →
    e = d.link ∧ ∀ y ∈ e.survey Site.top, y.label.treatment = .link
  /-- A unit directly below the root is pruned and nothing else. -/
  native : Tree.isValidPath d.unitPath = true → IsIn d.unitPath root →
    e = (d.prune marks).context ∧
      List.Forall₂ (Located.IsSpared marks) (d.survey Site.top) (e.survey Site.top)

/-- Everything in a linked unit is linked. -/
theorem treatment_of_mem_link {d : Decl} {y : Located} (hy : y ∈ d.link.survey Site.top) :
    y.label.treatment = .link := by
  have survey := survey_relabel (fun _ l => { l with treatment := .link }) d Site.top
  change d.link.survey Site.top = _ at survey
  rw [survey] at hy
  obtain ⟨x, -, rfl⟩ := List.mem_map.1 hy
  rw [Located.label_relabel]

/-- Pruning spares or suppresses. -/
theorem forall₂_isSpared_prune (d : Decl) :
    List.Forall₂ (Located.IsSpared marks) (d.survey Site.top)
      ((d.prune marks).context.survey Site.top) := by
  have survey := survey_relabel (prunedLabel marks (pruningStop? marks d)) d Site.top
  change (d.prune marks).context.survey Site.top = _ at survey
  rw [survey, List.forall₂_map_right_iff, List.forall₂_same]
  intro x _
  refine ⟨rfl, ?_, ?_⟩
  all_goals rw [Located.label_relabel, prunedLabel]
  · split
    · next pruned =>
      rw [isPrunedUpTo, isPruned, Bool.and_eq_true, Bool.and_eq_true] at pruned
      exact Or.inr ⟨pruned.1.2, rfl⟩
    · exact Or.inl rfl
  · split
    · exact nofun
    · exact id

/-- The unit after classification, if that comes to an end. -/
def classified (root : WrittenPath) (marks : PrivateMarks) (d : Decl) : Decl :=
  match Origin.ofPath root d.unitPath with
  | .unresolved => d
  | .foreign => d.link
  | .native => (d.prune marks).context

/-- A unit is classified by its own path. -/
theorem isClassifiedAs_classified (root : String) (marks : PrivateMarks) (d : Decl) :
    d.IsClassifiedAs root marks (d.classified (.ofString root) marks) where
  unresolved invalid := by simp [classified, Origin.ofPath, invalid]
  foreign valid outside := by
    have linked : d.classified (.ofString root) marks = d.link := by
      rw [IsIn] at outside
      simp [classified, Origin.ofPath, valid, outside]
    rw [linked]
    exact ⟨rfl, fun y => treatment_of_mem_link⟩
  native valid inside := by
    have pruned : d.classified (.ofString root) marks = (d.prune marks).context := by
      rw [IsIn] at inside
      simp [classified, Origin.ofPath, valid, inside]
    rw [pruned]
    exact ⟨rfl, d.forall₂_isSpared_prune⟩

end Decl

/-- Classification that comes to an end classifies every unit. -/
theorem units_classifyUnits (root : WrittenPath) (marks : PrivateMarks) (ds : List Decl)
    (tally : Tally) (completes : (classifyUnits root marks ds tally).fault = none) :
    (classifyUnits root marks ds tally).units = ds.map (Decl.classified root marks) := by
  induction ds generalizing tally with
  | nil => rfl
  | cons d ds ih =>
    rw [classifyUnits] at completes ⊢
    rw [List.map_cons, Decl.classified]
    cases origin : Origin.ofPath root d.unitPath with
    | unresolved =>
      rw [origin] at completes
      exact congrArg (d :: ·) (ih _ completes)
    | foreign =>
      rw [origin] at completes
      exact congrArg (d.link :: ·) (ih _ completes)
    | native =>
      rw [origin] at completes
      dsimp only at completes ⊢
      cases judged : (d.prune marks).fault with
      | none =>
        rw [judged] at completes
        exact congrArg ((d.prune marks).context :: ·) (ih _ completes)
      | some fault =>
        rw [judged] at completes
        cases completes

/-- Texts can always be judged. -/
theorem Tree.isJudged_of_isText (root : WrittenPath) {marks : PrivateMarks}
    (usable : marks.IsUsable) {t : Tree} (texts : ∀ x ∈ t.survey, x.label.name.isText = true) :
    t.IsJudged root marks := by
  intro x hx _ _
  obtain ⟨name, given⟩ := Value.exists_eq_text (texts x hx)
  rw [given]
  exact ⟨_, (PrivateMarks.judge_text usable name).1⟩

/-! ## All units -/

/-- Classification treats every unit by its own path alone: it is left alone if it has no file, it
is linked as a whole if its header is not directly in the root, and otherwise private names in it are
suppressed and nothing is linked. It comes to an end if all names that are looked at can be judged.
Padding the root or the path of a file with dots and separators makes no difference, except that the
marker of a missing file is a path like any other when it is padded; a header that is named directly
behind the root is in it, and one named behind a further component is not. -/
theorem classify_wholly (root : String) (marks : PrivateMarks) (w : Work) :
    let done := classify (.ofString root) marks w
    (done.fault = none ↔ w.tree.IsJudged (.ofString root) marks) ∧
    (marks.IsUsable → (∀ x ∈ w.tree.survey, x.label.name.isText = true) → done.fault = none) ∧
    (done.fault = none → done.tree.stage = w.tree.stage ∧
      List.Forall₂ (Decl.IsClassifiedAs root marks) w.tree.units done.tree.units) ∧
    (∀ root' path path', IsPadded root root' → IsPadded path path' →
      (IsIn path' root' ↔ IsIn path root) ∧
        (Tree.isValidPath path' = Tree.isValidPath path ↔
          (path = Tree.invalidPath → path' = path))) ∧
    (HasStart root.toList → ∀ name, IsComponent name →
      (Tree.isValidPath (root ++ "/" ++ name) = true ∧ IsIn (root ++ "/" ++ name) root) ∧
      ∀ between, (WrittenPath.ofString between).components ≠ [] →
        Tree.isValidPath (root ++ "/" ++ between ++ "/" ++ name) = true ∧
          ¬ IsIn (root ++ "/" ++ between ++ "/" ++ name) root) := by
  intro done
  have judged : done.fault = none ↔ w.tree.IsJudged (.ofString root) marks :=
    (classifyUnits_fault _ marks w.tree.units w.tally).trans (w.tree.isJudged_iff _ marks).symm
  refine ⟨judged, fun usable texts => judged.2 (Tree.isJudged_of_isText _ usable texts), ?_, ?_, ?_⟩
  · intro completes
    have units : done.tree.units = w.tree.units.map (Decl.classified (.ofString root) marks) :=
      units_classifyUnits _ marks w.tree.units w.tally completes
    refine ⟨rfl, ?_⟩
    rw [units, List.forall₂_map_right_iff, List.forall₂_same]
    exact fun d _ => d.isClassifiedAs_classified root marks
  · intro root' path path' hroot hpath
    exact ⟨WrittenPath.isIn_padded_iff hpath hroot, hpath.isValidPath_eq_iff⟩
  · intro start name component
    refine ⟨⟨?_, WrittenPath.isIn_of_directly start component⟩, fun between deeper => ⟨?_,
      WrittenPath.not_isIn_of_deeper start component deeper⟩⟩
    all_goals exact WrittenPath.isValidPath_of_mem (by simp [WrittenPath.separator])

/-- In the sample the first header is directly in the root, also if that is written with more
separators, and the second is elsewhere. Its path is as valid with a dot in it as without. -/
theorem classify_wholly_sample :
    let done := classify (.ofString "include/QtGui") {} { tree := Tree.sampleTree }
    done.fault = none ∧
      List.Forall₂ (Decl.IsClassifiedAs "include/QtGui" {}) Tree.sampleTree.units done.tree.units ∧
      IsIn "include/QtGui/color.h" "include//QtGui/." ∧
      Tree.isValidPath "include/./color.h" = Tree.isValidPath "include/color.h" ∧
      ¬ IsIn "include/QtGui/core/object.h" "include/QtGui" := by
  obtain ⟨-, completes, units, alike, below⟩ :=
    classify_wholly "include/QtGui" {} { tree := Tree.sampleTree }
  have fault := completes ⟨by decide, by decide⟩ (by decide)
  have start : HasStart "include/QtGui".toList := ⟨'i', by decide, by decide⟩
  have padded : IsPadded "include/QtGui" "include//QtGui/." :=
    .tail (.single (.between "include".toList "QtGui".toList [] ⟨'i', by decide, by decide⟩
        (by decide)))
      (.behind "include//QtGui".toList ['.'] ⟨'i', by decide, by decide⟩ (by decide))
  have dotted : IsPadded "include/color.h" "include/./color.h" :=
    .single (.between "include".toList "color.h".toList ['.'] ⟨'i', by decide, by decide⟩ (by decide))
  have inside := (below start "color.h" ⟨by decide, by decide, by decide⟩).1.2
  have deeper := (below start "object.h" ⟨by decide, by decide, by decide⟩).2 "core" (by decide)
  exact ⟨fault, (units fault).2, (alike _ _ _ padded .refl).1.2 inside,
    (alike _ _ _ padded dotted).2.2 (by decide), deeper.2⟩

/-- How the path of a file is written can make a difference: a unit with the marker of a missing file
is left alone, and with a dot behind it, the marker is the path of a file from elsewhere. -/
theorem not_linked_however_written :
    ¬ ∀ (root : String) (marks : PrivateMarks) (path padded : String), IsPadded path padded →
      let isLinked (file : String) : Bool :=
        let unit : Decl := .node { name := .text "color.h", headerName := .text "color.h",
                                   form := .unit file } []
        (classify (.ofString root) marks { tree := { units := [unit] } }).tree.survey.all
          fun x => x.label.treatment = .link
      isLinked padded = isLinked path := by
  intro alike
  have padded : IsPadded Tree.invalidPath "<invalid>/." :=
    .single (.behind Tree.invalidPath.toList ['.'] ⟨'i', by decide, by decide⟩ (by decide))
  exact absurd (alike "include/QtGui" {} _ _ padded) (by decide)

end Bindery
