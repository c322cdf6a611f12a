import Bindery.Proofs.Accounting

/-!
# Propagation of suppression

Resolution can be done in place: the declarations are gone through one after the other, and each that
is ignored in the tree as it has become so far gets the treatment of what is ignored. On the way
nothing becomes ignored that was not ignored in the beginning, and nothing ceases to be, so in
whatever order this is done, it comes to the same as looking at the tree as it was. Main statement:
`resolve_closes`.
-/

namespace Bindery

/-! ## One declaration after the other -/

/-- Gives the declaration at an address the treatment of what is ignored, if it is ignored as the
tree is now. -/
def Work.resolveAt (address : List Nat) (w : Work) : Work :=
  match w.tree.locate? address with
  | some x =>
    if isInherited x.site x.label then
      { w with tree := w.tree.relabelAt address fun l => { l with treatment := .ignore } }.count
        "propagated"
    else w
  | none => w

/-- Resolves the declarations of a list in turn, each in the tree that those before it led to. -/
def Work.resolveInTurn (xs : List Located) (w : Work) : Work :=
  xs.foldl (fun w x => w.resolveAt x.site.address) w

/-- The label after the declarations at some addresses were resolved. -/
def resolvedAmong (addresses : List (List Nat)) (s : Site) (l : Label) : Label :=
  if s.address ∈ addresses then resolvedLabel s l else l

/-- Raising a counter twice is raising it by both amounts. -/
theorem Tally.add_add (t : Tally) (key : String) (m n : Nat) :
    (t.add key m).add key n = t.add key (m + n) := by
  have twice : ∀ cs : List (String × Nat), raise key n (raise key m cs) = raise key (m + n) cs := by
    intro cs
    induction cs with
    | nil => simp [raise]
    | cons c cs ih =>
      by_cases h : c.1 = key
      · simp [raise, h, Nat.add_assoc]
      · simp [raise, h, ih]
  simp only [add, twice]

/-- Raising a counter once more is raising it by one more. -/
theorem Tally.addSome_add_one (t : Tally) (key : String) (n : Nat) :
    (t.addSome key n).add key 1 = t.addSome key (n + 1) := by
  cases n with
  | zero => rfl
  | succ n => simp [addSome, add_add]

namespace Tree

variable {t : Tree} {f : Site → Label → Label} {x : Located}

/-- Whichever declarations are resolved, the same are ignored. -/
theorem isIgnored_relabel_of_resolved
    (hf : ∀ x ∈ t.survey, f x.site x.label = x.label ∨ f x.site x.label = resolvedLabel x.site x.label)
    (hx : x ∈ t.survey) : (x.relabel f).isIgnored = x.isIgnored := by
  rw [Bool.eq_iff_iff, isIgnored_iff (mem_survey_relabel.2 ⟨x, hx, rfl⟩), isIgnored_iff hx]
  constructor
  · rintro ⟨_, hz', hzx, out⟩
    obtain ⟨z, hz, rfl⟩ := mem_survey_relabel.1 hz'
    rw [Located.label_relabel] at out
    rcases hf z hz with same | resolved
    · exact ⟨z, hz, hzx, same ▸ out⟩
    · -- What is out by resolution was ignored, so something above it was out.
      rw [resolved] at out
      obtain ⟨y, hy, hyz, out⟩ := (isIgnored_iff hz).1 (isIgnored_of_isOut_resolvedLabel out)
      exact ⟨y, hy, hyz.trans hzx, out⟩
  · rintro ⟨z, hz, hzx, out⟩
    refine ⟨z.relabel f, mem_survey_relabel.2 ⟨z, hz, rfl⟩, hzx, ?_⟩
    rw [Located.label_relabel]
    rcases hf z hz with same | resolved
    · rwa [same]
    · rw [resolved, resolvedLabel]
      split
      · simp [Label.isOut]
      · exact out

/-- Resolving declarations at some addresses resolves them or leaves them alone. -/
theorem resolvedAmong_cases (addresses : List (List Nat)) (s : Site) (l : Label) :
    resolvedAmong addresses s l = l ∨ resolvedAmong addresses s l = resolvedLabel s l := by
  rw [resolvedAmong]
  split
  · exact Or.inr rfl
  · exact Or.inl rfl

/-- Where others were resolved before, a declaration is resolved as in the tree as it was. -/
theorem isInherited_relabel {addresses : List (List Nat)} (hx : x ∈ t.survey)
    (fresh : x.site.address ∉ addresses) :
    isInherited (x.relabel (resolvedAmong addresses)).site
        (x.relabel (resolvedAmong addresses)).label = isInherited x.site x.label := by
  have ignored : (x.relabel (resolvedAmong addresses)).isIgnored = x.isIgnored :=
    isIgnored_relabel_of_resolved (fun x _ => resolvedAmong_cases addresses x.site x.label) hx
  have label : (x.relabel (resolvedAmong addresses)).label = x.label := by
    rw [Located.label_relabel, resolvedAmong, if_neg fresh]
  change (_ != _ && (x.relabel (resolvedAmong addresses)).isIgnored) = _
  rw [ignored, label]
  rfl

/-- Setting the treatment of one more declaration that is ignored is resolving it as well. -/
theorem relabelAt_resolvedAmong {addresses : List (List Nat)} (hx : x ∈ t.survey)
    (inherited : isInherited x.site x.label = true) (fresh : x.site.address ∉ addresses) :
    (t.relabel (resolvedAmong addresses)).relabelAt x.site.address
        (fun l => { l with treatment := .ignore }) =
      t.relabel (resolvedAmong (addresses ++ [x.site.address])) := by
  rw [relabelAt, relabel_relabel]
  refine relabel_congr fun y hy => ?_
  rw [Site.address_relabel, resolvedAmong, resolvedAmong]
  by_cases h : y.site.address = x.site.address
  · obtain rfl := eq_of_address_eq hy hx h
    rw [if_pos rfl, if_neg fresh, if_pos (by simp), resolvedLabel, inherited, if_pos rfl]
  · simp [h]

/-- A declaration that need not be resolved is as good as resolved. -/
theorem relabel_resolvedAmong_of_not {addresses : List (List Nat)} (hx : x ∈ t.survey)
    (own : isInherited x.site x.label = false) :
    t.relabel (resolvedAmong addresses) =
      t.relabel (resolvedAmong (addresses ++ [x.site.address])) := by
  refine relabel_congr fun y hy => ?_
  rw [resolvedAmong, resolvedAmong]
  by_cases h : y.site.address = x.site.address
  · obtain rfl := eq_of_address_eq hy hx h
    have same : resolvedLabel y.site y.label = y.label := by
      rw [resolvedLabel, own]
      rfl
    rw [same, ite_self, ite_self]
  · simp [h]

end Tree

/-- Resolves the declarations of a list at once, all in the tree as it is. -/
def Work.resolveTogether (xs : List Located) (w : Work) : Work :=
  let found := xs.countP fun x => isInherited x.site x.label
  let tree := w.tree.relabel (resolvedAmong (xs.map fun x => x.site.address))
  { w with tree }.countSome "propagated" found

/-- Resolving one more declaration after others is resolving it together with them. -/
theorem Work.resolveAt_resolveTogether {w : Work} {xs : List Located} {x : Located}
    (hx : x ∈ w.tree.survey) (fresh : x.site.address ∉ xs.map fun y => y.site.address) :
    (w.resolveTogether xs).resolveAt x.site.address = w.resolveTogether (xs ++ [x]) := by
  have here : (w.resolveTogether xs).tree.locate? x.site.address =
      some (x.relabel (resolvedAmong (xs.map fun y => y.site.address))) :=
    Tree.locate?_address (Tree.mem_survey_relabel.2 ⟨x, hx, rfl⟩)
  rw [resolveAt, here]
  dsimp only
  rw [Tree.isInherited_relabel hx fresh]
  cases inherited : isInherited x.site x.label with
  | true =>
    rw [if_pos rfl, resolveTogether, resolveTogether, List.map_append, List.countP_append,
      List.countP_singleton, inherited, if_pos rfl, List.map_singleton,
      ← Tree.relabelAt_resolvedAmong hx inherited fresh]
    dsimp only [countSome, count]
    rw [Tally.addSome_add_one]
  | false =>
    rw [if_neg Bool.false_ne_true, resolveTogether, resolveTogether, List.map_append,
      List.countP_append, List.countP_singleton, inherited, if_neg Bool.false_ne_true,
      List.map_singleton, ← Tree.relabel_resolvedAmong_of_not hx inherited]
    rfl

/-- Resolving declarations in turn, in any order, is resolving them together. -/
theorem Work.resolveInTurn_eq (w : Work) (xs : List Located) (here : ∀ x ∈ xs, x ∈ w.tree.survey)
    (once : (xs.map fun x => x.site.address).Nodup) :
    w.resolveInTurn xs = w.resolveTogether xs := by
  induction xs using List.reverseRecOn with
  | nil =>
    have same : w.tree.relabel (resolvedAmong []) = w.tree :=
      Tree.relabel_eq_self_iff.2 fun x _ => rfl
    change w = { w with tree := w.tree.relabel (resolvedAmong []) }
    rw [same]
  | append_singleton xs x ih =>
    rw [List.map_append, List.nodup_append] at once
    have before := ih (fun y hy => here y (List.mem_append_left _ hy)) once.1
    have fresh : x.site.address ∉ xs.map fun y => y.site.address := fun h =>
      once.2.2 _ h _ List.mem_cons_self rfl
    rw [resolveInTurn, List.foldl_concat]
    rw [resolveInTurn] at before
    rw [before, resolveAt_resolveTogether (here x (by simp)) fresh]

/-- No two declarations of a survey stand at one address. -/
theorem Tree.nodup_addresses (t : Tree) : (t.survey.map fun x => x.site.address).Nodup := by
  refine List.pairwise_map.2 (t.pairwise_survey.imp fun {x y} lt h => ?_)
  rw [h] at lt
  exact List.lt_irrefl _ lt

/-- Records the treatments of all declarations. -/
def Work.recordTreatments (w : Work) : Work :=
  { w with tally := { w.tally with treatments := some w.tree.treatmentCounts } }

/-- Resolution in place is resolution. -/
theorem Work.recordTreatments_resolveInTurn (w : Work) :
    (w.resolveInTurn w.tree.survey).recordTreatments = resolve w := by
  have all : w.tree.relabel (resolvedAmong (w.tree.survey.map fun x => x.site.address)) =
      w.tree.resolve :=
    Tree.relabel_congr fun x hx => if_pos (List.mem_map_of_mem hx)
  rw [w.resolveInTurn_eq w.tree.survey (fun _ h => h) w.tree.nodup_addresses, resolveTogether, all]
  rfl

/-! ## The closure of suppression -/

/-- What resolution makes of a declaration `x`: a declaration `y` at the same place. -/
structure Located.IsResolvedAs (x y : Located) : Prop where
  /-- It stands where it stood. -/
  address : y.site.address = x.site.address
  /-- If it was ignored, it has the treatment of what is ignored. -/
  ignored : x.isIgnored = true → y.label.treatment = .ignore
  /-- If it was not, its treatment is the same. -/
  spared : x.isIgnored = false → y.label.treatment = x.label.treatment
  /-- Nothing else is changed, its suppression included. -/
  label : y.label = { x.label with treatment := y.label.treatment }
  /-- It is ignored just if it was. -/
  isIgnored : y.isIgnored = x.isIgnored

/-- Resolution resolves every declaration. -/
theorem Tree.isResolvedAs_resolve {t : Tree} {x : Located} (hx : x ∈ t.survey) :
    x.IsResolvedAs (x.relabel resolvedLabel) where
  address := rfl
  ignored h := by
    rw [Located.label_relabel]
    exact treatment_resolvedLabel h
  spared h := by
    have own : isInherited x.site x.label = false := by
      change (_ && x.isIgnored) = false
      rw [h, Bool.and_false]
    rw [Located.label_relabel, resolvedLabel, own]
    rfl
  label := by
    rw [Located.label_relabel, resolvedLabel]
    split <;> rfl
  isIgnored := isIgnored_relabel_of_resolved (fun _ _ => Or.inr rfl) hx

/-- The treatment of a declaration is changed by resolution just if the declaration is out only
because an owner is, or only by its mark. -/
theorem isInherited_iff_treatment_ne (x : Located) :
    isInherited x.site x.label = true ↔
      (x.relabel resolvedLabel).label.treatment ≠ x.label.treatment := by
  rw [Located.label_relabel, resolvedLabel]
  split
  · next inherited =>
    have ne : x.label.treatment ≠ .ignore := by
      rw [isInherited, Bool.and_eq_true, bne_iff_ne] at inherited
      exact inherited.1
    exact iff_of_true inherited ne.symm
  · next own => exact iff_of_false own fun h => h rfl

/-- The declarations whose treatments are changed by resolution are counted. -/
theorem countP_treatment_ne (xs : List Located) :
    (xs.zip (xs.map (Located.relabel resolvedLabel))).countP
        (fun (x, y) => decide (y.label.treatment ≠ x.label.treatment)) =
      xs.countP fun x => isInherited x.site x.label := by
  induction xs with
  | nil => rfl
  | cons x xs ih =>
    rw [List.map_cons, List.zip_cons_cons, List.countP_cons, List.countP_cons, ih]
    simp only [decide_eq_true_eq, isInherited_iff_treatment_ne]

/-- Resolution writes down the closure of suppression under membership, and it does so in place, one
declaration after the other. Every declaration that was ignored gets the treatment of what is
ignored, every other keeps its treatment, and the same declarations are ignored as before. As many
are counted as have got another treatment, and the treatments that are recorded are those in the
end. -/
theorem resolve_closes (w : Work) :
    let done := resolve w
    (w.resolveInTurn w.tree.survey).recordTreatments = done ∧
      List.Forall₂ Located.IsResolvedAs w.tree.survey done.tree.survey ∧
      done.tally.count "propagated" = w.tally.count "propagated" +
        (w.tree.survey.zip done.tree.survey).countP
          (fun (x, y) => decide (y.label.treatment ≠ x.label.treatment)) ∧
      ∃ counts, done.tally.treatments = some counts ∧ ∀ treatment : Treatment,
        counts.of treatment =
          done.tree.survey.countP fun y => decide (y.label.treatment = treatment) := by
  intro done
  have survey : done.tree.survey = w.tree.survey.map (Located.relabel resolvedLabel) :=
    Tree.survey_relabel resolvedLabel w.tree
  refine ⟨w.recordTreatments_resolveInTurn, ?_, ?_,
    _, rfl, fun treatment => Tree.of_treatmentCounts _ treatment⟩
  · rw [survey, List.forall₂_map_right_iff, List.forall₂_same]
    exact fun x hx => Tree.isResolvedAs_resolve hx
  · change (w.tally.addSome "propagated" _).count "propagated" = _
    rw [Tally.count_addSome, if_pos rfl, survey, countP_treatment_ne]

end Bindery
