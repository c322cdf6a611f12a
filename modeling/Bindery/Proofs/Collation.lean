import Bindery.Proofs.Ending
import Bindery.Value.Key
import Mathlib.Data.List.Nodup

/-!
# The order of texts

Texts are put in order by their code points. Two texts that hold code points and have the same ones
are one text, so of two different texts one precedes the other, and texts in ascending order are
known from what they are. The union of two lists of texts is such a row. Main statements:
`HoldsCodes.eq_of_codes`, `eq_of_ascending`, `Value.exists_sortedUnion`.
-/

namespace Bindery

namespace Text

variable {s t u : String}

/-! ## Code points -/

/-- The code point that is held by what holds some code point is held by it. -/
theorem ofCode_codeOf_ofCode (n : Nat) : ofCode (codeOf (ofCode n)) = ofCode n := by
  by_cases code : isCode n
  · rw [codeOf_ofCode code]
  · -- Where there is no code point, the first one is held.
    have large : ¬ n < 0x110000 := by simpa [isCode] using code
    have whole : isHalfCode n = false := by
      simp only [isHalfCode, Bool.and_eq_false_iff, decide_eq_false_iff_not]
      omega
    have invalid : ¬ n.isValidChar := by
      simp only [Nat.isValidChar]
      omega
    have null : Char.ofNat n = Char.ofNat 0 := by
      rw [Char.ofNat, dif_neg invalid]
      rfl
    have zero : ofCode n = ofCode 0 := by
      rw [ofCode, whole, null]
      rfl
    rw [zero]
    decide

/-- A text that holds code points is what holds its code points. -/
theorem HoldsCodes.toList_eq (h : HoldsCodes s) : s.toList = (codes s.toList).flatMap ofCode := by
  obtain ⟨ns, held⟩ := h
  simp [held, codes, glyphs_flatMap_ofCode, List.flatMap_map, ofCode_codeOf_ofCode]

/-- A text that holds code points is known from them. -/
theorem HoldsCodes.eq_of_codes (h : HoldsCodes s) (h' : HoldsCodes t)
    (same : codes s.toList = codes t.toList) : s = t := by
  rw [← String.toList_inj, h.toList_eq, h'.toList_eq, same]

/-- Whether a text holds characters only: no code point of it is half of a surrogate pair. -/
def HoldsCharacters (s : String) : Prop := ∃ cs : List Char, s.toList = cs.flatMap hold

/-- A character is no half. -/
theorem isHalfCode_toNat (c : Char) : isHalfCode c.toNat = false := by
  have valid := c.valid
  simp only [UInt32.isValidChar, Nat.isValidChar] at valid
  simp only [isHalfCode, Bool.and_eq_false_iff, decide_eq_false_iff_not, Char.toNat]
  omega

/-- A character is held as its code point is. -/
theorem ofCode_toNat (c : Char) : ofCode c.toNat = hold c := by
  rw [ofCode, isHalfCode_toNat, Char.ofNat_toNat]
  rfl

/-- Characters are code points. -/
theorem HoldsCharacters.holdsCodes (h : HoldsCharacters s) : HoldsCodes s := by
  obtain ⟨cs, held⟩ := h
  exact ⟨cs.map Char.toNat, by simp [held, List.flatMap_map, ofCode_toNat]⟩

/-- A text that holds every character by itself. -/
def IsPlain (s : String) : Prop := ∀ c ∈ s.toList, isReserved c = false

instance (s : String) : Decidable (IsPlain s) :=
  List.decidableBAll (fun c => isReserved c = false) s.toList

/-- Such a text holds characters only. -/
theorem IsPlain.holdsCharacters (h : IsPlain s) : HoldsCharacters s := by
  refine ⟨s.toList, ?_⟩
  have alone : ∀ c ∈ s.toList, hold c = [c] := fun c hc => by
    rw [hold, h c hc]
    rfl
  rw [List.flatMap_congr alone, List.flatMap_singleton']

/-! ## The order -/

/-- A text does not come before itself. -/
theorem precedes_self (s : String) : precedes s s = false :=
  decide_eq_false (List.lt_irrefl _)

/-- One text comes before another one if their code points do. -/
theorem precedes_iff : precedes s t = true ↔ codes s.toList < codes t.toList := decide_eq_true_iff

/-- One text does not come before another one if its code points do not. -/
theorem not_precedes_iff : (!precedes s t) = true ↔ ¬ codes s.toList < codes t.toList := by
  rw [Bool.not_eq_true', ← Bool.not_eq_true, precedes_iff]

/-- Of two texts not both come before the other one. -/
theorem not_precedes_of_precedes (h : precedes s t = true) : precedes t s = false :=
  decide_eq_false (List.lt_asymm (precedes_iff.1 h))

/-- What does not come after a text that does not come after another one does not come after that
one. -/
theorem not_precedes_trans (h : (!precedes t s) = true) (h' : (!precedes u t) = true) :
    (!precedes u s) = true :=
  not_precedes_iff.2 (List.not_lt.2 (List.le_trans (List.not_lt.1 (not_precedes_iff.1 h))
    (List.not_lt.1 (not_precedes_iff.1 h'))))

/-- Of two texts one does not come before the other. -/
theorem not_precedes_total (s t : String) : (!precedes t s || !precedes s t) = true := by
  cases before : precedes t s with
  | false => rfl
  | true =>
    rw [not_precedes_of_precedes before]
    rfl

/-- Texts that hold code points and of which none comes before the other are one text. -/
theorem eq_of_not_precedes (h : HoldsCodes s) (h' : HoldsCodes t) (not : (!precedes t s) = true)
    (not' : (!precedes s t) = true) : s = t :=
  h.eq_of_codes h' (List.le_antisymm (List.not_lt.1 (not_precedes_iff.1 not))
    (List.not_lt.1 (not_precedes_iff.1 not')))

/-- Of two different texts that hold code points one comes before the other. -/
theorem precedes_of_not_precedes (h : HoldsCodes s) (h' : HoldsCodes t) (other : s ≠ t)
    (not : precedes t s = false) : precedes s t = true := by
  by_contra none
  rw [Bool.not_eq_true] at none
  exact other (eq_of_not_precedes h h' (by rw [not, Bool.not_false]) (by rw [none, Bool.not_false]))

/-- Whether texts come in ascending order, each of them once. -/
def IsAscending (ss : List String) : Prop := ss.Pairwise fun s t => precedes s t = true

/-- Of the texts of an ascending row none comes twice. -/
theorem IsAscending.nodup {ss : List String} (h : IsAscending ss) : ss.Nodup :=
  h.imp fun before same => by
    rw [same, precedes_self] at before
    cases before

/-- Two ascending rows of the same texts are one row. -/
theorem eq_of_ascending {ss ts : List String} (hs : IsAscending ss) (ht : IsAscending ts)
    (same : ∀ s, s ∈ ss ↔ s ∈ ts) : ss = ts := by
  refine List.Perm.eq_of_pairwise ?_ hs ht ((List.perm_ext_iff_of_nodup hs.nodup ht.nodup).2 same)
  intro s t _ _ before behind
  rw [not_precedes_of_precedes before] at behind
  cases behind

/-- Texts that hold code points and of which none comes twice ascend when they are sorted. -/
theorem isAscending_mergeSort {ss : List String} (held : ∀ s ∈ ss, HoldsCodes s)
    (distinct : ss.Nodup) : IsAscending (ss.mergeSort fun s t => !precedes t s) := by
  have trans (a b c : String) : (!precedes b a) = true → (!precedes c b) = true →
      (!precedes c a) = true := not_precedes_trans
  have sorted := List.pairwise_mergeSort trans not_precedes_total ss
  have perm := List.mergeSort_perm ss fun s t => !precedes t s
  refine (sorted.and (perm.nodup_iff.2 distinct)).imp_of_mem fun hs ht h => ?_
  exact precedes_of_not_precedes (held _ (perm.mem_iff.1 hs)) (held _ (perm.mem_iff.1 ht)) h.2
    (by simpa using h.1)

end Text

open Text

namespace Value

variable {v w : Value} {vs : List Value}

/-! ## Members of sets -/

/-- A value is the same member as itself. -/
theorem sameMember_self (v : Value) : v.sameMember v = true := by
  rw [sameMember, beq_self_eq_true, Bool.true_or]

/-- Only the same text is the same member as a text. -/
theorem sameMember_text (s t : String) : (text s).sameMember (text t) = true ↔ s = t := by
  rw [← beq_iff_eq (a := s), ← alike_text s t]
  exact Iff.rfl

/-- A text is the same member as texts only. -/
theorem isText_of_sameMember (h : v.sameMember w = true) : v.isText = w.isText := by
  cases v <;> cases w <;> simp_all [sameMember, order?, magnitude?, isText, text?]

/-- A further value is kept unless there is the same member. -/
theorem distinct_append_singleton (vs : List Value) (v : Value) : distinct (vs ++ [v]) =
    if (distinct vs).any (sameMember v) then distinct vs else distinct vs ++ [v] := by
  rw [distinct, List.foldl_append]
  rfl

/-- All members are among the values. -/
theorem mem_of_mem_distinct (h : v ∈ distinct vs) : v ∈ vs := by
  induction vs using List.reverseRecOn with
  | nil => exact h
  | append_singleton vs w ih =>
    rw [distinct_append_singleton] at h
    rw [List.mem_append]
    split at h
    · exact .inl (ih h)
    · exact (List.mem_append.1 h).imp ih id

/-- Every value is the same as some member. -/
theorem exists_mem_distinct (h : v ∈ vs) : ∃ w ∈ distinct vs, v.sameMember w = true := by
  induction vs using List.reverseRecOn with
  | nil => cases h
  | append_singleton vs w ih =>
    rw [distinct_append_singleton]
    split
    · next same =>
      rcases List.mem_append.1 h with h | h
      · exact ih h
      · rw [List.mem_singleton.1 h]
        exact List.any_eq_true.1 same
    · rcases List.mem_append.1 h with h | h
      · obtain ⟨u, hu, same⟩ := ih h
        exact ⟨u, List.mem_append_left _ hu, same⟩
      · rw [List.mem_singleton.1 h]
        exact ⟨w, List.mem_append_right _ (List.mem_singleton_self w), sameMember_self w⟩

/-- No member comes twice. -/
theorem nodup_distinct (vs : List Value) : (distinct vs).Nodup := by
  induction vs using List.reverseRecOn with
  | nil => exact List.nodup_nil
  | append_singleton vs w ih =>
    rw [distinct_append_singleton]
    split
    · exact ih
    · next other =>
      rw [← List.concat_eq_append]
      exact ih.concat fun hw => other (List.any_eq_true.2 ⟨w, hw, sameMember_self w⟩)

/-! ## Unions -/

/-- A row of texts that hold code points. -/
def AreTexts (vs : List Value) : Prop := ∀ v ∈ vs, ∃ s, HoldsCodes s ∧ v = text s

/-- Texts as values are texts. -/
theorem AreTexts.exists_map (h : AreTexts vs) :
    ∃ ss : List String, (∀ s ∈ ss, HoldsCodes s) ∧ vs = ss.map text := by
  induction vs with
  | nil => exact ⟨[], nofun, rfl⟩
  | cons v vs ih =>
    obtain ⟨s, held, rfl⟩ := h v List.mem_cons_self
    obtain ⟨ss, held', rfl⟩ := ih fun w hw => h w (List.mem_cons_of_mem _ hw)
    exact ⟨s :: ss, List.forall_mem_cons.2 ⟨held, held'⟩, rfl⟩

/-- Texts are put in order by their code points. -/
theorem notAfter_text {s t : String} (hs : HoldsCodes s) (ht : HoldsCodes t) :
    notAfter (text s) (text t) = !precedes t s := by
  rw [notAfter, order?]
  by_cases before : precedes s t = true
  · simp [before, not_precedes_of_precedes before]
  · rw [Bool.not_eq_true] at before
    by_cases same : s = t
    · simp [same, precedes_self]
    · have behind := precedes_of_not_precedes ht hs (Ne.symm same) before
      simp [before, same, behind]

/-- The union of two lists of texts is the ascending row of the texts in either of them. -/
theorem exists_sortedUnion {xs ys : List Value} (hx : AreTexts xs) (hy : AreTexts ys) :
    ∃ ts : List String, sortedUnion xs ys = .ok (ts.map text) ∧ IsAscending ts ∧
      ∀ v, v ∈ ts.map text ↔ v ∈ xs ∨ v ∈ ys := by
  have all : AreTexts (xs ++ ys) := fun v hv => (List.mem_append.1 hv).elim (hx v) (hy v)
  have simple : (xs ++ ys).all isSimple = true := by
    rw [List.all_eq_true]
    intro v hv
    obtain ⟨s, -, rfl⟩ := all v hv
    rfl
  obtain ⟨ss, held, kept⟩ : ∃ ss : List String, (∀ s ∈ ss, HoldsCodes s) ∧
      distinct (xs ++ ys) = ss.map text :=
    AreTexts.exists_map fun v hv => all v (mem_of_mem_distinct hv)
  have ordered : ((ss.map text).all fun a => (ss.map text).all fun b => (a.order? b).isSome) =
      true := by
    simp [order?]
  have nodup : ss.Nodup := by
    have h := nodup_distinct (xs ++ ys)
    rw [kept] at h
    exact List.Nodup.of_map _ h
  have perm := List.mergeSort_perm ss fun s t => !precedes t s
  refine ⟨ss.mergeSort fun s t => !precedes t s, ?_, isAscending_mergeSort held nodup, ?_⟩
  · rw [sortedUnion, if_pos simple, kept, if_pos (.inr ordered)]
    refine congrArg Except.ok (List.map_mergeSort fun s hs t ht => ?_).symm
    exact (notAfter_text (held s hs) (held t ht)).symm
  · intro v
    rw [List.mem_map]
    simp only [perm.mem_iff]
    rw [← List.mem_map, ← kept, ← List.mem_append]
    refine ⟨mem_of_mem_distinct, fun hv => ?_⟩
    obtain ⟨w, hw, same⟩ := exists_mem_distinct hv
    obtain ⟨s, -, rfl⟩ := all v hv
    obtain ⟨t, -, rfl⟩ := all w (mem_of_mem_distinct hw)
    rwa [(sameMember_text s t).1 same]

/-- The union of two lists has no other members than theirs. -/
theorem mem_of_sortedUnion {xs ys zs : List Value} (h : sortedUnion xs ys = .ok zs) (hv : v ∈ zs) :
    v ∈ xs ++ ys := by
  rw [sortedUnion] at h
  split at h
  · dsimp only at h
    split at h
    · cases h
      exact mem_of_mem_distinct ((List.mergeSort_perm _ _).mem_iff.1 hv)
    · cases h
  · cases h

/-- There is one reason why lists have no union. -/
theorem fault_of_sortedUnion {xs ys : List Value} {fault : Fault}
    (h : sortedUnion xs ys = .error fault) : fault = .wrongKind := by
  rw [sortedUnion] at h
  split at h
  · dsimp only at h
    split at h
    · cases h
    · exact (Except.error.inj h).symm
  · exact (Except.error.inj h).symm

/-- What cannot be a member of a set is in no union. -/
theorem sortedUnion_of_isSimple {xs ys : List Value} (hv : v ∈ xs ++ ys)
    (compound : v.isSimple = false) : sortedUnion xs ys = .error .wrongKind := by
  rw [sortedUnion, if_neg]
  intro simple
  rw [List.all_eq_true.1 simple v hv] at compound
  cases compound

/-- A text cannot be put in order with anything else, so no union has both. -/
theorem sortedUnion_of_mixed {xs ys : List Value} {v w : Value} (hv : v ∈ xs ++ ys)
    (hw : w ∈ xs ++ ys) (text : v.isText = true) (other : w.isText = false) :
    sortedUnion xs ys = .error .wrongKind := by
  obtain ⟨v', hv', same⟩ := exists_mem_distinct hv
  obtain ⟨w', hw', same'⟩ := exists_mem_distinct hw
  rw [isText_of_sameMember same] at text
  rw [isText_of_sameMember same'] at other
  have apart : v' ≠ w' := by
    rintro rfl
    rw [text] at other
    cases other
  have several : ¬ (distinct (xs ++ ys)).length ≤ 1 := by
    intro few
    obtain ⟨i, hi, rfl⟩ := List.getElem_of_mem hv'
    obtain ⟨j, hj, rfl⟩ := List.getElem_of_mem hw'
    obtain rfl : i = j := by omega
    exact apart rfl
  have unordered : ¬ ((distinct (xs ++ ys)).all fun a =>
      (distinct (xs ++ ys)).all fun b => (a.order? b).isSome) = true := by
    intro ordered
    have pair := List.all_eq_true.1 (List.all_eq_true.1 ordered v' hv') w' hw'
    obtain ⟨s, rfl⟩ := exists_eq_text text
    cases w' <;> simp_all [order?, magnitude?, isText, text?]
  rw [sortedUnion]
  split
  · rw [if_neg (not_or.2 ⟨several, unordered⟩)]
  · rfl

end Value

end Bindery
