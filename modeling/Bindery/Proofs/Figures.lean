import Bindery.Proofs.Passage
import Bindery.Report

/-!
# What a report says of a run

A report is read by rows of keys, and a counter that is absent reads as zero. A pipeline reports what
its passes recorded under their names; and what a pass has recorded in a pipeline that came to an end
is what its work records on the tree that the passes before it led to. Main statements:
`Pipeline.exists_station`, `Report.figure_counter`, `Report.figure_treatment`.
-/

namespace Bindery

/-- The number under a row of keys, zero if there is none. -/
def Value.figure (v : Value) : List String → Nat
  | [] => match v with
    | .int n => n.toNat
    | _ => 0
  | key :: keys => match v with
    | .mapping es => match es.lookup key with
      | some part => part.figure keys
      | none => 0
    | _ => 0

/-- A part of a mapping is read by the keys behind that of the part. -/
theorem Value.figure_of_lookup {es : Entries} {key : String} {part : Value}
    (h : es.lookup key = some part) (keys : List String) :
    (Value.mapping es).figure (key :: keys) = part.figure keys := by
  rw [figure, h]

/-- The number of declarations of a treatment. -/
def TreatmentCounts.of (c : TreatmentCounts) : Treatment → Nat
  | .generate => c.generate
  | .link => c.link
  | .ignore => c.ignore

namespace TreatmentCounts

/-- The counts of a list of treatments are counts of its members. -/
theorem of_ofList (ts : List Treatment) (t : Treatment) : (ofList ts).of t = ts.count t := by
  cases t <;> rfl

/-- Under the word for a treatment stands its count. -/
theorem figure_entries (c : TreatmentCounts) (t : Treatment) :
    (Value.mapping c.entries).figure [t.word] = c.of t := by
  cases t <;> exact Int.toNat_natCast _

/-- Under the word for a treatment stands its count, or nothing if that is zero. -/
theorem figure_nonzeroEntries (c : TreatmentCounts) (t : Treatment) :
    (Value.mapping c.nonzeroEntries).figure [t.word] = c.of t := by
  obtain ⟨generate, link, ignore⟩ := c
  cases generate <;> cases link <;> cases ignore <;> cases t <;> rfl

end TreatmentCounts

/-! ## Tallies -/

namespace Tally

/-- Counters are reported under their names. -/
theorem lookup_counters (counters : List (String × Nat)) (key : String) :
    (counters.map fun c => (c.1, Value.int c.2)).lookup key =
      (counters.lookup key).map fun n => Value.int n := by
  induction counters with
  | nil => rfl
  | cons c counters ih =>
    rw [List.map_cons, List.lookup_cons, List.lookup_cons, ih]
    split <;> rfl

/-- An entry is not found under another key. -/
theorem lookup_optionalEntry_of_ne {key other : String} (h : key ≠ other) (v : Option Value) :
    (optionalEntry other v).lookup key = none := by
  cases v with
  | none => rfl
  | some v => simp [optionalEntry, List.lookup_cons, beq_eq_false_iff_ne.2 h]

/-- A counter is reported as it reads. -/
theorem figure_toValue (t : Tally) {key : String} (h : key ≠ "generation_kinds")
    (h' : key ≠ "library_path") : t.toValue.figure [key] = t.count key := by
  rw [toValue, Value.figure, List.lookup_append, List.lookup_append, lookup_counters,
    lookup_optionalEntry_of_ne h, lookup_optionalEntry_of_ne h', count]
  cases t.counters.lookup key with
  | none => rfl
  | some n => exact Int.toNat_natCast n

/-- The treatments of declarations are reported as they were counted. -/
theorem figure_treatments {t : Tally} {c : TreatmentCounts} (h : t.treatments = some c)
    (free : t.counters.lookup "generation_kinds" = none) (treatment : Treatment) :
    t.toValue.figure ["generation_kinds", treatment.word] = c.of treatment := by
  rw [toValue, Value.figure, List.lookup_append, List.lookup_append, lookup_counters, free, h]
  exact c.figure_nonzeroEntries treatment

end Tally

/-! ## Pipelines -/

namespace Pipeline

/-- What a pipeline enters for its passes does not matter to a name that none of them has. -/
theorem lookup_enter_of_ne {key : String} (p : Pipeline) : ∀ es : Entries,
    (∀ s ∈ p, key ≠ s.pass.name) →
      (p.foldl (fun es s => Entries.put s.pass.name s.tally.toValue es) es).lookup key =
        es.lookup key := by
  induction p with
  | nil => exact fun _ _ => rfl
  | cons s p ih =>
    intro es h
    rw [List.foldl_cons, ih _ fun s hs => h s (List.mem_cons_of_mem _ hs),
      Entries.lookup_put_of_ne (h s List.mem_cons_self)]

/-- A pipeline whose passes have names of their own reports of each under its name. -/
theorem lookup_stats {p : Pipeline} (distinct : (p.map fun s => s.pass.name).Nodup) {s : Station}
    (hs : s ∈ p) : p.stats.lookup s.pass.name = some s.tally.toValue := by
  obtain ⟨before, after, rfl⟩ := List.append_of_mem hs
  rw [List.map_append, List.map_cons, List.nodup_append, List.nodup_cons] at distinct
  have later : ∀ s' ∈ after, s.pass.name ≠ s'.pass.name := fun s' hs' h =>
    distinct.2.1.1 (h ▸ List.mem_map_of_mem hs')
  rw [stats, List.foldl_append, List.foldl_cons, lookup_enter_of_ne after _ later,
    Entries.lookup_put]

/-- Of a pipeline that comes to an end, the first pass has recorded what its work records, and the
others what they record after it. -/
theorem run_cons_eq_of_completes {s : Station} {rest : Pipeline} {w : Work}
    (h : (run (s :: rest) w).2.fault = none) :
    run (s :: rest) w =
      ((s.runDirectly w).1 :: (rest.run (afterFirst s w)).1, (rest.run (afterFirst s w)).2) := by
  obtain ⟨ready, running, -⟩ := run_cons_of_completes h
  have ready : ¬ w.tree.stage < s.pass.needs := Nat.not_lt_of_le ready
  rw [run, if_neg ready]
  dsimp only
  rw [running]
  rfl

/-- In a pipeline that came to an end, a pass has recorded what its work records where the passes
before it have led to, and these have come to an end as well. -/
theorem exists_station {first last : List Pass} {pass : Pass} {w : Work} (hw : w.fault = none)
    (completes : ((ofPasses (first ++ pass :: last)).run w).2.fault = none) :
    let before := ((ofPasses first).run w).2
    let done := pass.work { before with tally := {} }
    before.fault = none ∧ done.fault = none ∧
      { pass, tally := done.tally } ∈ ((ofPasses (first ++ pass :: last)).run w).1 := by
  intro before done
  have split : ofPasses (first ++ pass :: last) = ofPasses first ++ ofPasses (pass :: last) :=
    List.map_append
  rw [split, run_append _ _ w hw] at completes ⊢
  cases hb : ((ofPasses first).run w).2.fault with
  | some fault =>
    rw [hb] at completes
    dsimp only at completes
    rw [hb] at completes
    cases completes
  | none =>
    rw [hb] at completes
    have running := (run_cons_of_completes completes).2.1
    refine ⟨rfl, running, ?_⟩
    dsimp only
    refine List.mem_append_right _ ?_
    have he := run_cons_eq_of_completes completes
    change (ofPasses (pass :: last)).run before = _ at he
    rw [he]
    exact List.mem_cons_self

end Pipeline

/-! ## Reports -/

namespace Report

variable {r : Report} {t : Tree}

/-- Parts of a report that are not replaced stay. -/
theorem lookup_extra {key : String} (extra : Entries) : ∀ es : Entries, (∀ e ∈ extra, key ≠ e.1) →
    (extra.foldl (fun es e => Entries.put e.1 e.2 es) es).lookup key = es.lookup key := by
  induction extra with
  | nil => exact fun _ _ => rfl
  | cons e extra ih =>
    intro es h
    rw [List.foldl_cons, ih _ fun e he => h e (List.mem_cons_of_mem _ he),
      Entries.lookup_put_of_ne (h e List.mem_cons_self)]

/-- What the passes recorded is read under their names. -/
theorem figure_passes (free : ∀ e ∈ r.extra, "passes" ≠ e.1) {name : String} {part : Value}
    (h : r.passes.lookup name = some part) (keys : List String) :
    (r.toValue t).figure ("passes" :: name :: keys) = part.figure keys := by
  rw [toValue, Value.figure_of_lookup (lookup_extra r.extra _ free), Value.figure_of_lookup h]

/-- A counter of a pass is read under its name, unless the name is taken. -/
theorem figure_counter (free : ∀ e ∈ r.extra, "passes" ≠ e.1) {name : String} {tally : Tally}
    (h : r.passes.lookup name = some tally.toValue) {key : String}
    (hk : key ≠ "generation_kinds") (hk' : key ≠ "library_path") :
    (r.toValue t).figure ["passes", name, key] = tally.count key :=
  (figure_passes free h [key]).trans (tally.figure_toValue hk hk')

/-- What the tree looks like is read from the tree. -/
theorem figure_stats (free : ∀ e ∈ r.extra, "stats" ≠ e.1) (keys : List String) :
    (r.toValue t).figure ("stats" :: keys) = (treeStats t).figure keys := by
  rw [toValue, Value.figure_of_lookup (lookup_extra r.extra _ free)]

/-- The report says how many declarations there are. -/
theorem figure_total (free : ∀ e ∈ r.extra, "stats" ≠ e.1) :
    (r.toValue t).figure ["stats", "total_declarations"] = t.survey.length := by
  rw [figure_stats free]
  exact Int.toNat_natCast _

/-- The report says how many declarations have each treatment. -/
theorem figure_treatment (free : ∀ e ∈ r.extra, "stats" ≠ e.1) (treatment : Treatment) :
    (r.toValue t).figure ["stats", "generation_kinds", treatment.word] =
      t.treatmentCounts.of treatment := by
  rw [figure_stats free]
  exact t.treatmentCounts.figure_entries treatment

/-- The report says how many declarations have a comment. -/
theorem figure_documented (free : ∀ e ∈ r.extra, "stats" ≠ e.1) :
    (r.toValue t).figure ["stats", "documented"] = documentedCount t := by
  rw [figure_stats free]
  exact Int.toNat_natCast _

end Report

end Bindery
