import Bindery.Value.Key

/-!
# What reading data comes to

Data that nobody has checked is read part by part, and every step can fail. What a reader of several
parts comes to follows from what the readers of the parts come to: `Reads` says which faults may
come out and when, and is kept by doing one step after the other and by going through a list.
-/

namespace Bindery

/-- A result that depends on another one rests on it. -/
theorem exists_of_bind_eq_ok {α β : Type} {first : Except Fault α} {next : α → Except Fault β}
    {b : β} (h : first >>= next = .ok b) : ∃ a, first = .ok a ∧ next a = .ok b := by
  cases first with
  | ok a => exact ⟨a, rfl, h⟩
  | error fault => cases h

/-- What comes of reading something: a value only if it is sound, and no faults but those that are
reported and, where something is not sound, that of a value of the wrong kind. -/
def Reads {α : Type} (reported : Fault → Bool) (sound : Bool) : Except Fault α → Prop
  | .ok _ => sound = true
  | .error fault => reported fault = true ∨ (fault = .wrongKind ∧ sound = false)

/-- Whether a fault is one that nobody is told about. -/
def Fault.isUnreported (fault : Fault) : Bool := !fault.isReported

namespace Reads

variable {α β : Type} {reported : Fault → Bool} {a b : Bool}

/-- One step after the other: both must be sound. -/
theorem bind {first : Except Fault α} {next : α → Except Fault β} (h : Reads reported a first)
    (hn : ∀ x, first = .ok x → Reads reported b (next x)) :
    Reads reported (a && b) (first >>= next) := by
  cases first with
  | ok x =>
    have ha : a = true := h
    rw [ha, Bool.true_and]
    exact hn x rfl
  | error fault =>
    rcases h with h | ⟨hf, ha⟩
    · exact Or.inl h
    · exact Or.inr ⟨hf, by rw [ha, Bool.false_and]⟩

/-- A step whose faults are all reported leaves it to the next one what is sound. -/
theorem followed {first : Except Fault α} {next : α → Except Fault β} (h : Reads reported true first)
    (hn : ∀ x, first = .ok x → Reads reported b (next x)) : Reads reported b (first >>= next) := by
  have hb := h.bind hn
  rwa [Bool.true_and] at hb

/-- What is read may be turned into something else. -/
theorem map {first : Except Fault α} (h : Reads reported a first) (f : α → β) :
    Reads reported a (first.map f) := by
  cases first with
  | ok x => exact h
  | error fault => exact h

/-- A step that stops where another one has stopped comes to the same fault. -/
theorem stopped {first : Except Fault α} (h : Reads reported a first) {fault : Fault}
    (hf : first = .error fault) : Reads reported a (.error fault : Except Fault β) := by
  rw [hf] at h
  exact h

/-- All items of a list must be sound. -/
theorem mapM {read : α → Except Fault β} {sound : α → Bool} {xs : List α}
    (h : ∀ x ∈ xs, Reads reported (sound x) (read x)) :
    Reads reported (xs.all sound) (xs.mapM read) := by
  induction xs with
  | nil => exact rfl
  | cons x xs ih =>
    rw [List.mapM_cons, List.all_cons]
    refine (h x List.mem_cons_self).bind fun y _ => ?_
    refine map (ih fun z hz => h z (List.mem_cons_of_mem _ hz)) (y :: ·)

/-- A list is sound if no item can come to a fault that is not reported. -/
theorem mapM_of_sound {read : α → Except Fault β} {xs : List α}
    (h : ∀ x ∈ xs, Reads reported true (read x)) : Reads reported true (xs.mapM read) := by
  have hm := mapM h
  rwa [List.all_eq_true.2 fun _ _ => rfl] at hm

end Reads

end Bindery
