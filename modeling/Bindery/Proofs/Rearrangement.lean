import Bindery.Proofs.Order
import Mathlib

/-!
# Units in another order

A tree has its units in the order of the dump. If they are put in another order, every declaration
moves with its unit: the first number of its address changes, and nothing else. So the survey lists
the same declarations in another order, and whatever is counted or summed up over it stays. Walks
that tell the same of moved declarations lead to rearranged trees. Main statements:
`Tree.exists_rearranged`, `Tree.Rearranged.perm_survey`, `Tree.Rearranged.relabel`,
`Tree.Rearranged.extend`.
-/

namespace Bindery

/-- The site of a declaration once the units have moved. -/
def Site.move (σ : Equiv.Perm Nat) (s : Site) : Site := ⟨s.address.modifyHead σ, s.scope⟩

namespace Site

variable (σ : Equiv.Perm Nat) (s : Site)

/-- Units do not take declarations along that are not in a tree. -/
@[simp] theorem address_move_eq_nil_iff : (s.move σ).address = [] ↔ s.address = [] := by
  cases h : s.address <;> simp [move, h]

/-- The owner of a moved declaration has moved. -/
theorem dropLast_address_move :
    (s.move σ).address.dropLast = s.address.dropLast.modifyHead σ := by
  rcases h : s.address with _ | ⟨i, _ | ⟨j, rest⟩⟩ <;> simp [move, h]

/-- Moving back what was moved. -/
@[simp] theorem move_move_symm : (s.move σ).move σ.symm = s := by
  obtain ⟨address, scope⟩ := s
  cases address <;> simp [move]

/-- Below a unit, the way goes on as it did. -/
theorem move_graft_child (i : Nat) :
    ((top.child i).graft s).move σ = (top.child (σ i)).graft s := rfl

end Site

/-- Addresses that differ still do once the units have moved. -/
theorem modifyHead_injective (σ : Equiv.Perm Nat) :
    Function.Injective (List.modifyHead σ : List Nat → List Nat) := by
  intro a b h
  cases a <;> cases b <;> simp_all

namespace Located

/-- The declaration once the units have moved. -/
def move (σ : Equiv.Perm Nat) (x : Located) : Located := ⟨x.site.move σ, x.decl⟩

variable (σ : Equiv.Perm Nat) (x : Located)

@[simp] theorem label_move : (x.move σ).label = x.label := rfl

@[simp] theorem decl_move : (x.move σ).decl = x.decl := rfl

@[simp] theorem site_move : (x.move σ).site = x.site.move σ := rfl

/-- The members of a declaration move with it. -/
theorem member_move (h : x.site.address ≠ []) (i : Nat) (m : Decl) :
    (x.member i m).move σ = (x.move σ).member i m := by
  obtain ⟨⟨address, scope⟩, d⟩ := x
  cases address with
  | nil => exact absurd rfl h
  | cons j rest => rfl

/-- Moving back what was moved. -/
@[simp] theorem move_move_symm : (x.move σ).move σ.symm = x := by
  rw [move, site_move, Site.move_move_symm]
  rfl

end Located

namespace Decl

mutual

/-- Extending a declaration at a place is extending it as if it stood on top. -/
theorem extend_graft (f : Site → Decl → List Decl) (d : Decl) (s r : Site) :
    extend f d (s.graft r) = extend (fun q d => f (s.graft q) d) d r :=
  match d with
  | node l ms => by
    rw [extend, extend,
      extendAll_graft f ms s ((s.graft r).inside l) (r.inside l) 0
        (fun i => s.graft_child_inside r l i)]
termination_by structural d

/-- Extending a list at a place is extending it as if it stood on top. -/
theorem extendAll_graft (f : Site → Decl → List Decl) (ds : List Decl) (s s' r : Site) (i : Nat)
    (h : ∀ j, s'.child j = s.graft (r.child j)) :
    extendAll f ds s' i = extendAll (fun q d => f (s.graft q) d) ds r i :=
  match ds with
  | [] => rfl
  | d :: ds => by
    rw [extendAll, extendAll, h i, extend_graft f d s (r.child i),
      extendAll_graft f ds s s' r (i + 1) h]
termination_by structural ds

end

end Decl

namespace Tree

/-- A tree and the one with its units in another order: the `i`-th unit has the number `σ i`
there. -/
structure Rearranged (σ : Equiv.Perm Nat) (t t' : Tree) : Prop where
  /-- They are at the same stage. -/
  stage : t'.stage = t.stage
  /-- The units are the same ones. -/
  units : ∀ i, t'.units[σ i]? = t.units[i]?

variable {σ : Equiv.Perm Nat} {t t' : Tree}

/-- The permutation that leaves the first number alone and permutes those behind it. -/
def shiftPerm (σ : Equiv.Perm Nat) : Equiv.Perm Nat where
  toFun
    | 0 => 0
    | i + 1 => σ i + 1
  invFun
    | 0 => 0
    | i + 1 => σ.symm i + 1
  left_inv i := by cases i <;> simp
  right_inv i := by cases i <;> simp

/-- The first two of a row change places. -/
theorem getElem?_swap {α : Type} (a b : α) (as : List α) (i : Nat) :
    (b :: a :: as)[Equiv.swap 0 1 i]? = (a :: b :: as)[i]? := by
  rcases i with _ | _ | i
  · simp
  · simp
  · rw [Equiv.swap_apply_of_ne_of_ne (by simp) (by simp)]
    simp

/-- Every way to put the units in another order rearranges the tree. -/
theorem exists_rearranged (stage : t'.stage = t.stage) (units : t.units.Perm t'.units) :
    ∃ σ, Rearranged σ t t' := by
  suffices h : ∃ σ : Equiv.Perm Nat, ∀ i, t'.units[σ i]? = t.units[i]? by
    obtain ⟨σ, h⟩ := h
    exact ⟨σ, stage, h⟩
  generalize t.units = ds at units
  generalize t'.units = es at units
  induction units with
  | nil => exact ⟨1, fun _ => rfl⟩
  | cons d _ ih =>
    obtain ⟨σ, h⟩ := ih
    refine ⟨shiftPerm σ, fun i => ?_⟩
    cases i with
    | zero => rfl
    | succ i => exact h i
  | swap d e ds => exact ⟨Equiv.swap 0 1, getElem?_swap e d ds⟩
  | trans _ _ ih ih' =>
    obtain ⟨σ, h⟩ := ih
    obtain ⟨σ', h'⟩ := ih'
    exact ⟨σ' * σ, fun i => (h' (σ i)).trans (h i)⟩

namespace Rearranged

/-- The units can be put back. -/
theorem symm (h : t.Rearranged σ t') : t'.Rearranged σ.symm t where
  stage := h.stage.symm
  units i := by
    rw [← h.units (σ.symm i), Equiv.apply_symm_apply]

/-- At any other stage, the units are in another order still. -/
theorem atStage (h : t.Rearranged σ t') (stage : Stage) :
    Rearranged σ { t with stage } { t' with stage } := ⟨rfl, h.units⟩

/-- Every declaration moves with its unit. -/
theorem move_mem (h : t.Rearranged σ t') {x : Located} (hx : x ∈ t.survey) :
    x.move σ ∈ t'.survey := by
  refine survey_induction (P := fun x => x.move σ ∈ t'.survey) ?_ ?_ x hx
  · intro i d hd
    exact unit_mem_survey ((h.units i).trans hd)
  · intro y hy ih i m hm
    rw [y.member_move σ (address_ne_nil hy)]
    exact member_mem_survey ih hm

/-- Every declaration of the rearranged tree has moved there. -/
theorem mem_survey_iff (h : t.Rearranged σ t') {y : Located} :
    y ∈ t'.survey ↔ ∃ x ∈ t.survey, x.move σ = y := by
  constructor
  · intro hy
    refine ⟨y.move σ.symm, h.symm.move_mem hy, ?_⟩
    exact y.move_move_symm σ.symm
  · rintro ⟨x, hx, rfl⟩
    exact h.move_mem hx

/-- What holds of all declarations holds of all that have moved. -/
theorem forall_mem_survey (h : t.Rearranged σ t') {P : Located → Prop} :
    (∀ y ∈ t'.survey, P y) ↔ ∀ x ∈ t.survey, P (x.move σ) := by
  constructor
  · exact fun hp x hx => hp _ (h.move_mem hx)
  · intro hp y hy
    obtain ⟨x, hx, rfl⟩ := h.mem_survey_iff.1 hy
    exact hp x hx

end Rearranged

/-- A survey lists no declaration twice. -/
theorem nodup_survey (t : Tree) : t.survey.Nodup := by
  refine t.pairwise_survey.imp fun lt => ?_
  rintro rfl
  exact List.lt_irrefl _ lt

namespace Rearranged

variable (h : t.Rearranged σ t')

include h

/-- The units are the same ones, in another order. -/
theorem perm_units : t'.units.Perm t.units := by
  have distinct : ∀ ds : List Decl, ds.zipIdx.Nodup := fun ds =>
    List.Nodup.of_map Prod.snd (by rw [List.zipIdx_map_snd]; exact List.nodup_range')
  have injective : Function.Injective fun v : Decl × Nat => (v.1, σ v.2) := by
    rintro ⟨d, i⟩ ⟨e, j⟩ same
    obtain ⟨hd, hij⟩ := Prod.mk.inj same
    exact Prod.ext hd (σ.injective hij)
  have numbered : t'.units.zipIdx.Perm (t.units.zipIdx.map fun v => (v.1, σ v.2)) := by
    refine (List.perm_ext_iff_of_nodup (distinct _) ((distinct _).map injective)).2 fun v => ?_
    obtain ⟨d, i⟩ := v
    rw [List.mk_mem_zipIdx_iff_getElem?, List.mem_map]
    constructor
    · intro hd
      refine ⟨(d, σ.symm i), ?_, by rw [Equiv.apply_symm_apply]⟩
      rw [List.mk_mem_zipIdx_iff_getElem?, ← h.units, Equiv.apply_symm_apply]
      exact hd
    · rintro ⟨⟨e, j⟩, hv, same⟩
      obtain ⟨rfl, rfl⟩ := Prod.mk.inj same
      rw [h.units]
      exact List.mk_mem_zipIdx_iff_getElem?.1 hv
  have units := numbered.map Prod.fst
  rw [List.map_map] at units
  have same : (Prod.fst ∘ fun v : Decl × Nat => (v.1, σ v.2)) = Prod.fst := rfl
  rwa [same, List.zipIdx_map_fst, List.zipIdx_map_fst] at units

/-- The rearranged tree has the same declarations, in another order. -/
theorem perm_survey : t'.survey.Perm (t.survey.map (Located.move σ)) := by
  have injective : Function.Injective (Located.move σ) :=
    Function.LeftInverse.injective fun x => x.move_move_symm σ
  refine (List.perm_ext_iff_of_nodup t'.nodup_survey (t.nodup_survey.map injective)).2 fun y => ?_
  rw [h.mem_survey_iff, List.mem_map]

/-- What is counted over all declarations stays. -/
theorem countP {p p' : Located → Bool} (same : ∀ x, p' (x.move σ) = p x) :
    t'.survey.countP p' = t.survey.countP p := by
  rw [h.perm_survey.countP_eq, List.countP_map]
  exact congrArg (List.countP · t.survey) (funext same)

/-- What is summed up over all declarations stays. -/
theorem sum {f f' : Located → Nat} (same : ∀ x, f' (x.move σ) = f x) :
    (t'.survey.map f').sum = (t.survey.map f).sum := by
  rw [(h.perm_survey.map f').sum_eq, List.map_map]
  exact congrArg (fun g => (t.survey.map g).sum) (funext same)

/-- What is chosen from all declarations is the same, in another order. -/
theorem filter {p p' : Located → Bool} (same : ∀ x, p' (x.move σ) = p x) :
    (t'.survey.filter p').Perm ((t.survey.filter p).map (Located.move σ)) := by
  refine (h.perm_survey.filter p').trans (.of_eq ?_)
  rw [List.filter_map]
  exact congrArg (fun q => (t.survey.filter q).map (Located.move σ)) (funext same)

/-- Relabelling moved declarations alike leads to the rearranged tree. -/
theorem relabel {f f' : Site → Label → Label} (same : ∀ s l, f' (s.move σ) l = f s l) :
    (t.relabel f).Rearranged σ (t'.relabel f') where
  stage := h.stage
  units i := by
    have below (g : Site → Label → Label) (j : Nat) (d : Decl) :
        d.relabel g (Site.top.child j) =
          d.relabel (fun r l => g ((Site.top.child j).graft r) l) Site.top := by
      rw [← Decl.relabel_graft, Site.graft_top]
    rw [Tree.relabel, Tree.relabel, Decl.getElem?_relabelAll, Decl.getElem?_relabelAll, h.units,
      Nat.zero_add, Nat.zero_add]
    refine congrArg (Option.map · t.units[i]?) (funext fun d => ?_)
    rw [below f', below f]
    refine Decl.relabel_congr d _ fun x _ => ?_
    rw [← same, Site.move_graft_child]

/-- Appending the same to moved declarations leads to the rearranged tree. -/
theorem extend {g g' : Site → Decl → List Decl} (same : ∀ s d, g' (s.move σ) d = g s d) :
    (t.extend g).Rearranged σ (t'.extend g') where
  stage := h.stage
  units i := by
    have below (g : Site → Decl → List Decl) (j : Nat) (d : Decl) :
        d.extend g (Site.top.child j) =
          d.extend (fun r e => g ((Site.top.child j).graft r) e) Site.top := by
      rw [← Decl.extend_graft, Site.graft_top]
    rw [Tree.extend, Tree.extend, Decl.getElem?_extendAll, Decl.getElem?_extendAll, h.units,
      Nat.zero_add, Nat.zero_add]
    refine congrArg (Option.map · t.units[i]?) (funext fun d => ?_)
    rw [below g', below g]
    refine congrArg (fun g => d.extend g Site.top) (funext fun r => funext fun e => ?_)
    rw [← same, Site.move_graft_child]

/-- Treatments are counted alike. -/
theorem treatmentCounts : t'.treatmentCounts = t.treatmentCounts := by
  have listed := h.perm_survey.map fun x => x.label.treatment
  rw [List.map_map] at listed
  rw [Tree.treatmentCounts, Tree.treatmentCounts, TreatmentCounts.ofList, TreatmentCounts.ofList,
    listed.count_eq, listed.count_eq, listed.count_eq]
  rfl

/-- Classes have full names wherever their units stand. -/
theorem hasNamedClasses : t'.hasNamedClasses = t.hasNamedClasses := by
  rw [Bool.eq_iff_iff, Tree.hasNamedClasses, Tree.hasNamedClasses, List.all_eq_true,
    List.all_eq_true]
  exact h.forall_mem_survey

end Rearranged

end Tree

end Bindery
