import Bindery.Declaration.Basic

/-!
# Tallies

A pass counts what it did under names of its own. A counter that was never raised is absent, and an
absent counter reads as zero. The treatments of all declarations are counted together.
-/

namespace Bindery

/-- How many declarations have each treatment. -/
structure TreatmentCounts where
  /-- Declarations that are generated. -/
  generate : Nat := 0
  /-- Declarations that are linked. -/
  link : Nat := 0
  /-- Declarations that are ignored. -/
  ignore : Nat := 0
  deriving DecidableEq, Repr

namespace TreatmentCounts

/-- The counts of a list of treatments. -/
def ofList (ts : List Treatment) : TreatmentCounts :=
  ⟨ts.count .generate, ts.count .link, ts.count .ignore⟩

/-- The counts under the words for the treatments. -/
def entries (c : TreatmentCounts) : Entries :=
  [(Treatment.generate.word, .int c.generate), (Treatment.link.word, .int c.link),
    (Treatment.ignore.word, .int c.ignore)]

/-- The counts that are not zero, under the words for the treatments. -/
def nonzeroEntries (c : TreatmentCounts) : Entries :=
  c.entries.filter fun e => e.2 != .int 0

end TreatmentCounts

/-- What a pass recorded. -/
structure Tally where
  /-- The counters, in the order in which they were first raised. -/
  counters : List (String × Nat) := []
  /-- The treatments of all declarations, if the pass counted them. -/
  treatments : Option TreatmentCounts := none
  /-- Where the library of inline functions is expected, if the pass requested it. -/
  libraryPath : Option String := none
  deriving DecidableEq, Repr

namespace Tally

/-- Raises a counter in a list of counters. -/
def raise (key : String) (amount : Nat) : List (String × Nat) → List (String × Nat)
  | [] => [(key, amount)]
  | (k, n) :: rest => if k = key then (k, n + amount) :: rest else (k, n) :: raise key amount rest

/-- Raises a counter, which is there from then on. -/
def add (t : Tally) (key : String) (amount : Nat) : Tally :=
  { t with counters := raise key amount t.counters }

/-- Raises a counter only if something was counted. -/
def addSome (t : Tally) (key : String) (amount : Nat) : Tally :=
  if amount = 0 then t else t.add key amount

/-- The reading of a counter. -/
def count (t : Tally) (key : String) : Nat := (t.counters.lookup key).getD 0

/-- The entry, if there is something to enter. -/
def optionalEntry (key : String) : Option Value → Entries
  | some v => [(key, v)]
  | none => []

/-- What the report says about the pass. -/
def toValue (t : Tally) : Value :=
  .mapping (t.counters.map (fun c => (c.1, .int c.2)) ++
    optionalEntry "generation_kinds" (t.treatments.map fun c => .mapping c.nonzeroEntries) ++
    optionalEntry "library_path" (t.libraryPath.map Value.text))

/-- Raising one counter raises its reading by that amount and no other reading. -/
theorem count_add (t : Tally) (key other : String) (amount : Nat) :
    (t.add key amount).count other = t.count other + if other = key then amount else 0 := by
  obtain ⟨counters, _, _⟩ := t
  simp only [add, count]
  induction counters with
  | nil =>
    by_cases h : other = key
    · simp [raise, h]
    · simp [raise, List.lookup_cons, h, beq_eq_false_iff_ne.mpr h]
  | cons c cs ih =>
    obtain ⟨k, n⟩ := c
    rw [raise]
    by_cases hc : k = key
    · rw [if_pos hc]
      by_cases h : other = key
      · simp [h, hc]
      · have hne : (other == k) = false := beq_eq_false_iff_ne.mpr fun e => h (e.trans hc)
        simp [List.lookup_cons, hne, h]
    · rw [if_neg hc]
      by_cases ho : other = k
      · have : other ≠ key := fun e => hc (ho.symm.trans e)
        simp [ho, hc]
      · have hne : (other == k) = false := beq_eq_false_iff_ne.mpr ho
        simpa [List.lookup_cons, hne] using ih

/-- Not raising a counter by nothing changes no reading. -/
theorem count_addSome (t : Tally) (key other : String) (amount : Nat) :
    (t.addSome key amount).count other = t.count other + if other = key then amount else 0 := by
  rw [addSome]
  split
  · next h => simp [h]
  · exact count_add t key other amount

end Tally

end Bindery
