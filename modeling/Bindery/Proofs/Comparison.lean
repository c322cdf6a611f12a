import Bindery.Proofs.Figures
import Mathlib.Data.List.Forall2
import Mathlib.Data.List.Nodup
import Mathlib.Data.List.Perm.Basic

/-!
# Statistics that are alike

Two reports are compared as mappings are: under every key there must be the same, and the order of
the keys does not count. Passes raise counters in the order in which things happen, so what two of
them have recorded is compared counter by counter. Main statements: `Tally.Alike.toValue`,
`Tally.Alike.addAll`, `Pipeline.Alike.stats`.
-/

namespace Bindery

/-! ## Entries -/

section Entries

variable {β : Type} {es fs : List (String × β)}

/-- Where every key has one entry, it is the one that is found. -/
theorem lookup_of_mem (distinct : (es.map Prod.fst).Nodup) {e : String × β} (h : e ∈ es) :
    es.lookup e.1 = some e.2 := by
  induction es with
  | nil => cases h
  | cons f es ih =>
    rw [List.map_cons, List.nodup_cons] at distinct
    rw [List.lookup_cons]
    rcases List.mem_cons.1 h with rfl | h
    · rw [beq_self_eq_true]
    · have other : (e.1 == f.1) = false :=
        beq_eq_false_iff_ne.2 fun same => distinct.1 (same ▸ List.mem_map_of_mem h)
      rw [other]
      exact ih distinct.2 h

/-- What is found is an entry. -/
theorem mem_of_lookup {key : String} {b : β} (h : es.lookup key = some b) : (key, b) ∈ es := by
  obtain ⟨before, after, rfl, -⟩ := List.lookup_eq_some_iff.1 h
  exact List.mem_append_right _ List.mem_cons_self

/-- Rows of entries in which the same is found differ in their order only. -/
theorem perm_of_lookup (distinct : (es.map Prod.fst).Nodup) (distinct' : (fs.map Prod.fst).Nodup)
    (same : ∀ key, fs.lookup key = es.lookup key) : es.Perm fs := by
  refine (List.perm_ext_iff_of_nodup (List.Nodup.of_map Prod.fst distinct)
    (List.Nodup.of_map Prod.fst distinct')).2 fun e => ⟨fun h => ?_,
    fun h => ?_⟩
  · exact mem_of_lookup ((same e.1).trans (lookup_of_mem distinct h))
  · exact mem_of_lookup ((same e.1).symm.trans (lookup_of_mem distinct' h))

end Entries

namespace Value

/-- Entries are alike those of a mapping if each has one like it there. -/
theorem alikeEntries_of_forall {es fs : Entries}
    (h : ∀ e ∈ es, ∃ v, fs.lookup e.1 = some v ∧ e.2.alike v = true) :
    alikeEntries es fs = true := by
  induction es with
  | nil => rfl
  | cons e es ih =>
    obtain ⟨key, part⟩ := e
    obtain ⟨v, hv, alike⟩ := h _ List.mem_cons_self
    rw [alikeEntries, hv, Bool.and_eq_true]
    exact ⟨alike, ih fun e he => h e (List.mem_cons_of_mem _ he)⟩

/-- Mappings are alike if their entries are, one by one. -/
theorem alike_mapping {es fs : Entries}
    (h : List.Forall₂ (fun e f => f.1 = e.1 ∧ e.2.alike f.2 = true) es fs)
    (distinct : (fs.map Prod.fst).Nodup) : (mapping es).alike (mapping fs) = true := by
  rw [alike, Bool.and_eq_true, beq_iff_eq]
  refine ⟨h.length_eq, alikeEntries_of_forall fun e he => ?_⟩
  obtain ⟨i, hi, rfl⟩ := List.getElem_of_mem he
  have hi' : i < fs.length := h.length_eq ▸ hi
  obtain ⟨key, alike⟩ := h.get hi hi'
  refine ⟨_, ?_, alike⟩
  rw [List.get_eq_getElem, List.get_eq_getElem] at key
  rw [← key]
  exact lookup_of_mem distinct (List.getElem_mem hi')

/-- Mappings are alike if they have the same entries, in any order. -/
theorem alike_mapping_of_perm {es fs : Entries} (h : es.Perm fs)
    (distinct : (es.map Prod.fst).Nodup) (self : ∀ e ∈ es, e.2.alike e.2 = true) :
    (mapping es).alike (mapping fs) = true := by
  rw [alike, Bool.and_eq_true, beq_iff_eq]
  refine ⟨h.length_eq, alikeEntries_of_forall fun e he => ⟨e.2, ?_, self e he⟩⟩
  exact lookup_of_mem ((h.map Prod.fst).nodup_iff.1 distinct) (h.mem_iff.1 he)

/-- A simple value is like itself. -/
theorem alike_self {v : Value} (h : v.isSimple = true) : v.alike v = true := by
  cases v with
  | list _ | mapping _ => cases h
  | _ => simp [alike, sameMember]

end Value

/-! ## Tallies -/

namespace Tally

/-- Whether a counter may have a name: some stand for something else. -/
def IsFree (key : String) : Prop := key ≠ "generation_kinds" ∧ key ≠ "library_path"

instance (key : String) : Decidable (IsFree key) := inferInstanceAs (Decidable (_ ∧ _))

/-- A tally whose counters have names of their own. -/
structure IsKeyed (t : Tally) : Prop where
  /-- No two counters have one name. -/
  distinct : (t.counters.map Prod.fst).Nodup
  /-- None has a name that stands for something else. -/
  free : ∀ c ∈ t.counters, IsFree c.1

/-- Tallies that say the same, whatever the order in which counters were raised. -/
structure Alike (t t' : Tally) : Prop where
  /-- Counters have names of their own. -/
  keyed : t.IsKeyed
  /-- So they have in the other tally. -/
  keyed' : t'.IsKeyed
  /-- They read alike. -/
  counters : ∀ key, t'.counters.lookup key = t.counters.lookup key
  /-- The same treatments were counted. -/
  treatments : t'.treatments = t.treatments
  /-- The same library was requested. -/
  libraryPath : t'.libraryPath = t.libraryPath

variable {t t' t'' : Tally}

/-- The reading of a counter after one was raised. -/
theorem lookup_raise (key other : String) (amount : Nat) (counters : List (String × Nat)) :
    (raise key amount counters).lookup other =
      if other = key then some ((counters.lookup key).getD 0 + amount)
      else counters.lookup other := by
  induction counters with
  | nil =>
    by_cases h : other = key
    · simp [raise, h]
    · simp [raise, List.lookup_cons, beq_eq_false_iff_ne.2 h, h]
  | cons c counters ih =>
    obtain ⟨k, n⟩ := c
    rw [raise]
    by_cases hk : k = key
    · subst hk
      by_cases h : other = k
      · simp [h]
      · simp [List.lookup_cons, beq_eq_false_iff_ne.2 h, h]
    · rw [if_neg hk, List.lookup_cons, ih, List.lookup_cons, List.lookup_cons,
        beq_eq_false_iff_ne.2 (Ne.symm hk)]
      by_cases h : other = k
      · simp [h, hk]
      · simp [beq_eq_false_iff_ne.2 h]

/-- The counters after one was raised. -/
theorem mem_keys_raise {key other : String} {amount : Nat} {counters : List (String × Nat)} :
    other ∈ (raise key amount counters).map Prod.fst ↔
      other ∈ counters.map Prod.fst ∨ other = key := by
  induction counters with
  | nil => simp [raise]
  | cons c counters ih =>
    obtain ⟨k, n⟩ := c
    rw [raise]
    by_cases hk : k = key
    · subst hk
      simp only [if_true, List.map_cons, List.mem_cons]
      tauto
    · rw [if_neg hk, List.map_cons, List.mem_cons, ih, List.map_cons, List.mem_cons, or_assoc]

/-- Raising a counter keeps names apart. -/
theorem IsKeyed.add (h : t.IsKeyed) {key : String} (free : IsFree key) (amount : Nat) :
    (t.add key amount).IsKeyed where
  distinct := by
    have distinct := h.distinct
    change ((raise key amount t.counters).map Prod.fst).Nodup
    generalize t.counters = counters at distinct
    induction counters with
    | nil => simp [raise]
    | cons c counters ih =>
      obtain ⟨k, n⟩ := c
      rw [List.map_cons, List.nodup_cons] at distinct
      rw [raise]
      by_cases hk : k = key
      · rw [if_pos hk, List.map_cons, List.nodup_cons]
        exact distinct
      · rw [if_neg hk, List.map_cons, List.nodup_cons, mem_keys_raise]
        refine ⟨?_, ih distinct.2⟩
        rintro (known | same)
        · exact distinct.1 known
        · exact hk same
  free c hc := by
    rcases mem_keys_raise.1 (List.mem_map_of_mem (f := Prod.fst) hc) with known | same
    · obtain ⟨d, hd, hn⟩ := List.mem_map.1 known
      rw [← hn]
      exact h.free d hd
    · rw [same]
      exact free

namespace Alike

/-- A tally whose counters have names of their own is like itself. -/
theorem refl (h : t.IsKeyed) : t.Alike t := ⟨h, h, fun _ => rfl, rfl, rfl⟩

/-- Empty tallies are alike. -/
theorem empty : Alike {} {} := refl ⟨List.nodup_nil, by simp⟩

/-- What is like something else is like what that is like. -/
theorem trans (h : t.Alike t') (h' : t'.Alike t'') : t.Alike t'' where
  keyed := h.keyed
  keyed' := h'.keyed'
  counters key := (h'.counters key).trans (h.counters key)
  treatments := h'.treatments.trans h.treatments
  libraryPath := h'.libraryPath.trans h.libraryPath

/-- Raising the same counter keeps tallies alike. -/
theorem add (h : t.Alike t') {key : String} (free : IsFree key) (amount : Nat) :
    (t.add key amount).Alike (t'.add key amount) where
  keyed := h.keyed.add free amount
  keyed' := h.keyed'.add free amount
  counters other := by
    rw [Tally.add, Tally.add, lookup_raise, lookup_raise, h.counters, h.counters]
  treatments := h.treatments
  libraryPath := h.libraryPath

/-- Raising the same counter by something, if there is something, keeps tallies alike. -/
theorem addSome (h : t.Alike t') {key : String} (free : IsFree key) (amount : Nat) :
    (t.addSome key amount).Alike (t'.addSome key amount) := by
  rw [Tally.addSome, Tally.addSome]
  split
  · exact h
  · exact h.add free amount

/-- Counting the same treatments keeps tallies alike. -/
theorem withTreatments (h : t.Alike t') (treatments : Option TreatmentCounts) :
    Alike { t with treatments } { t' with treatments } :=
  ⟨⟨h.keyed.distinct, h.keyed.free⟩, ⟨h.keyed'.distinct, h.keyed'.free⟩, h.counters, rfl,
    h.libraryPath⟩

/-- Requesting the same library keeps tallies alike. -/
theorem withLibraryPath (h : t.Alike t') (libraryPath : Option String) :
    Alike { t with libraryPath } { t' with libraryPath } :=
  ⟨⟨h.keyed.distinct, h.keyed.free⟩, ⟨h.keyed'.distinct, h.keyed'.free⟩, h.counters, h.treatments,
    rfl⟩

end Alike

/-- Raises counters one after the other. -/
def addAll (t : Tally) (raises : List (String × Nat)) : Tally :=
  raises.foldl (fun t r => t.add r.1 r.2) t

/-- Two counters may be raised in either order. -/
theorem alike_add_add (h : t.Alike t') {key other : String} (free : IsFree key)
    (free' : IsFree other) (amount amount' : Nat) :
    ((t.add key amount).add other amount').Alike ((t'.add other amount').add key amount) where
  keyed := (h.keyed.add free amount).add free' amount'
  keyed' := (h.keyed'.add free' amount').add free amount
  counters k := by
    simp only [Tally.add, lookup_raise, h.counters]
    by_cases hk : k = key <;> by_cases ho : k = other
    · subst hk ho
      simp only [if_true, Option.getD_some, Option.some.injEq]
      omega
    · subst hk
      simp only [ho, if_false, if_true]
    · subst ho
      simp only [hk, if_false, if_true]
    · simp only [hk, ho, if_false]
  treatments := h.treatments
  libraryPath := h.libraryPath

/-- Counters may be raised in any order. -/
theorem Alike.addAll {raises raises' : List (String × Nat)} (perm : raises.Perm raises') :
    ∀ {t t' : Tally}, t.Alike t' → (∀ r ∈ raises, IsFree r.1) →
      (t.addAll raises).Alike (t'.addAll raises') := by
  have same : ∀ (raises : List (String × Nat)) {t t' : Tally}, t.Alike t' →
      (∀ r ∈ raises, IsFree r.1) → (t.addAll raises).Alike (t'.addAll raises) := by
    intro raises
    induction raises with
    | nil => exact fun h _ => h
    | cons r raises ih =>
      intro t t' h free
      exact ih (h.add (free r List.mem_cons_self) r.2) fun r hr => free r (List.mem_cons_of_mem _ hr)
  induction perm with
  | nil => exact fun h _ => h
  | cons r _ ih =>
    intro t t' h free
    exact ih (h.add (free r List.mem_cons_self) r.2) fun r hr => free r (List.mem_cons_of_mem _ hr)
  | swap r s raises =>
    intro t t' h free
    have two := alike_add_add h (free s List.mem_cons_self)
      (free r (List.mem_cons_of_mem _ List.mem_cons_self)) s.2 r.2
    exact same raises two fun r hr =>
      free r (List.mem_cons_of_mem _ (List.mem_cons_of_mem _ hr))
  | trans first _ ih ih' =>
    intro t t' h free
    exact (ih (.refl h.keyed) free).trans (ih' h fun r hr => free r (first.mem_iff.2 hr))

/-- A name that stands for something else is that of no counter. -/
theorem IsKeyed.not_mem (h : t.IsKeyed) {key : String} (taken : ¬ IsFree key) :
    key ∉ t.counters.map Prod.fst := by
  intro known
  obtain ⟨c, hc, rfl⟩ := List.mem_map.1 known
  exact taken (h.free c hc)

/-- What is reported of a tally has keys of its own. -/
theorem IsKeyed.nodup_toValue (h : t.IsKeyed) (kinds path : Option Value) :
    ((t.counters.map (fun c => (c.1, Value.int c.2)) ++ optionalEntry "generation_kinds" kinds ++
      optionalEntry "library_path" path).map Prod.fst).Nodup := by
  have names : (t.counters.map fun c => (c.1, Value.int c.2)).map Prod.fst =
      t.counters.map Prod.fst := by
    rw [List.map_map]
    rfl
  have noKinds : "generation_kinds" ∉ t.counters.map Prod.fst := h.not_mem fun free => free.1 rfl
  have noPath : "library_path" ∉ t.counters.map Prod.fst := h.not_mem fun free => free.2 rfl
  have distinct := h.distinct
  rw [List.map_append, List.map_append, names]
  generalize t.counters.map Prod.fst = keys at noKinds noPath distinct
  cases kinds <;> cases path <;> simp [optionalEntry, List.nodup_append, distinct] <;> grind

/-- What is reported of the treatments is like itself. -/
theorem alike_nonzeroEntries (c : TreatmentCounts) :
    (Value.mapping c.nonzeroEntries).alike (.mapping c.nonzeroEntries) = true := by
  refine Value.alike_mapping_of_perm (.refl _) ?_ fun e he => ?_
  · exact (List.filter_sublist.map Prod.fst).nodup (by simp [TreatmentCounts.entries,
      Treatment.word])
  · have he := List.mem_of_mem_filter he
    simp only [TreatmentCounts.entries, List.mem_cons, List.not_mem_nil, or_false] at he
    rcases he with rfl | rfl | rfl <;> exact Value.alike_self rfl

/-- Tallies that say the same are reported alike. -/
theorem Alike.toValue (h : t.Alike t') : t.toValue.alike t'.toValue = true := by
  have counters := (perm_of_lookup h.keyed.distinct h.keyed'.distinct h.counters).map
    fun c => (c.1, Value.int c.2)
  rw [Tally.toValue, Tally.toValue, h.treatments, h.libraryPath]
  refine Value.alike_mapping_of_perm ((counters.append_right _).append_right _)
    (h.keyed.nodup_toValue _ _) fun e he => ?_
  rcases List.mem_append.1 he with he | he
  · rcases List.mem_append.1 he with he | he
    · obtain ⟨c, -, rfl⟩ := List.mem_map.1 he
      exact Value.alike_self rfl
    · cases hc : t.treatments with
      | none => simp [hc, optionalEntry] at he
      | some c =>
        rw [hc, Option.map_some, optionalEntry, List.mem_singleton] at he
        rw [he]
        exact alike_nonzeroEntries c
  · cases hp : t.libraryPath with
    | none => simp [hp, optionalEntry] at he
    | some path =>
      rw [hp, Option.map_some, optionalEntry, List.mem_singleton] at he
      rw [he]
      exact Value.alike_self rfl

end Tally

/-! ## Pipelines -/

namespace Pipeline

/-- Pipelines whose passes have the same names and have recorded the same. -/
abbrev Alike : Pipeline → Pipeline → Prop :=
  List.Forall₂ fun s s' => s'.pass.name = s.pass.name ∧ s.tally.Alike s'.tally

/-- Entries that are alike stay so when something alike is entered. -/
theorem forall₂_put {es fs : Entries} {v v' : Value} (key : String) (hv : v.alike v' = true)
    (h : List.Forall₂ (fun e f => f.1 = e.1 ∧ e.2.alike f.2 = true) es fs) :
    List.Forall₂ (fun e f => f.1 = e.1 ∧ e.2.alike f.2 = true) (Entries.put key v es)
      (Entries.put key v' fs) := by
  induction h with
  | nil => exact .cons ⟨rfl, hv⟩ .nil
  | @cons e f es fs hef rest ih =>
    obtain ⟨k, part⟩ := e
    obtain ⟨k', part'⟩ := f
    obtain ⟨rfl, alike⟩ := hef
    rw [Entries.put, Entries.put]
    split
    · exact .cons ⟨rfl, hv⟩ rest
    · exact .cons ⟨rfl, alike⟩ ih

/-- Entering something keeps keys apart. -/
theorem nodup_put {es : Entries} (key : String) (v : Value) (h : (es.map Prod.fst).Nodup) :
    ((Entries.put key v es).map Prod.fst).Nodup ∧
      ∀ k, k ∈ (Entries.put key v es).map Prod.fst → k ∈ es.map Prod.fst ∨ k = key := by
  induction es with
  | nil => simp [Entries.put]
  | cons e es ih =>
    obtain ⟨k, part⟩ := e
    rw [List.map_cons, List.nodup_cons] at h
    obtain ⟨distinct, known⟩ := ih h.2
    rw [Entries.put]
    by_cases hk : k = key
    · subst hk
      simp only [if_true, List.map_cons, List.nodup_cons, List.mem_cons]
      exact ⟨h, fun k hk => Or.inl hk⟩
    · rw [if_neg hk, List.map_cons, List.nodup_cons]
      refine ⟨⟨fun hm => ?_, distinct⟩, fun other hm => ?_⟩
      · exact (known k hm).elim h.1 hk
      · rcases List.mem_cons.1 hm with rfl | hm
        · exact Or.inl List.mem_cons_self
        · exact (known other hm).imp (List.mem_cons_of_mem _) id

/-- Pipelines that have recorded the same report it alike. -/
theorem Alike.stats {p p' : Pipeline} (h : p.Alike p') :
    (Value.mapping p.stats).alike (.mapping p'.stats) = true := by
  suffices reported : ∀ es fs : Entries,
      List.Forall₂ (fun e f => f.1 = e.1 ∧ e.2.alike f.2 = true) es fs →
      (fs.map Prod.fst).Nodup →
      (Value.mapping (p.foldl (fun es s => Entries.put s.pass.name s.tally.toValue es) es)).alike
        (.mapping (p'.foldl (fun es s => Entries.put s.pass.name s.tally.toValue es) fs)) = true from
    reported [] [] .nil List.nodup_nil
  induction h with
  | nil => exact fun _ _ alike distinct => Value.alike_mapping alike distinct
  | @cons s s' p p' hs _ ih =>
    intro es fs alike distinct
    rw [List.foldl_cons, List.foldl_cons, hs.1]
    exact ih _ _ (forall₂_put _ hs.2.toValue alike) (nodup_put _ _ distinct).1

end Pipeline

end Bindery
