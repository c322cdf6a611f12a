/-!
# Stages

A tree moves through stages as passes finish with it. Stages are ordered; a pass names the stage it
needs and the stage it leads to.
-/

namespace Bindery

/-- How far a tree has been prepared. -/
inductive Stage where
  /-- As the parser dumped it. -/
  | parsed
  /-- Origin and visibility are settled. -/
  | classified
  /-- The module's policy is applied. -/
  | normalized
  /-- Every declaration has its final treatment. -/
  | resolved
  /-- Documentation is attached. -/
  | commented
  /-- Names follow the target's convention. -/
  | renamed
  /-- Events are synthesized. -/
  | events
  /-- The library of inline functions was requested. -/
  | inlines
  deriving DecidableEq, Repr

namespace Stage

/-- The place of a stage in the order. -/
def rank : Stage → Nat
  | parsed => 0
  | classified => 1
  | normalized => 2
  | resolved => 3
  | commented => 4
  | renamed => 5
  | events => 6
  | inlines => 7

/-- The stages in order. -/
def all : List Stage :=
  [parsed, classified, normalized, resolved, commented, renamed, events, inlines]

instance : LE Stage := ⟨fun a b => a.rank ≤ b.rank⟩

instance : LT Stage := ⟨fun a b => a.rank < b.rank⟩

instance (a b : Stage) : Decidable (a ≤ b) := inferInstanceAs (Decidable (a.rank ≤ b.rank))

instance (a b : Stage) : Decidable (a < b) := inferInstanceAs (Decidable (a.rank < b.rank))

/-- The later of two stages. -/
def later (a b : Stage) : Stage := if a ≤ b then b else a

/-- The name of a stage in dumps and reports. -/
def name : Stage → String
  | parsed => "parsed"
  | classified => "classified"
  | normalized => "normalized"
  | resolved => "resolved"
  | commented => "commented"
  | renamed => "renamed"
  | events => "events"
  | inlines => "inlines"

/-- The name of a stage in messages. -/
def title : Stage → String
  | parsed => "PARSED"
  | classified => "CLASSIFIED"
  | normalized => "NORMALIZED"
  | resolved => "RESOLVED"
  | commented => "COMMENTED"
  | renamed => "RENAMED"
  | events => "EVENTS"
  | inlines => "INLINES"

/-- Stages of equal rank are equal. -/
theorem rank_injective {a b : Stage} (h : a.rank = b.rank) : a = b := by
  cases a <;> cases b <;> first | rfl | simp [rank] at h

/-- The later of two stages has the larger rank. -/
theorem rank_later (a b : Stage) : (a.later b).rank = max a.rank b.rank := by
  unfold later
  split
  · next h => exact (Nat.max_eq_right h).symm
  · next h => exact (Nat.max_eq_left (Nat.le_of_not_le h)).symm

end Stage

end Bindery
