import Bindery.Renaming

/-!
# Recasing twice

Case maps lead to characters that they leave alone, whatever the script, so a name that has been
recased once is not changed by recasing it again. The maps are finite tables, which is why the first
fact is settled by going through them. Main statement: `CasePattern.convert_convert`.
-/

namespace Bindery

namespace Text

namespace CaseRun

/-- Whether a code point belongs to a run. -/
def covers (r : CaseRun) (n : Nat) : Bool :=
  Nat.ble r.low n && (Nat.ble n r.high && (n - r.low) % r.step == 0)

/-- Where a run moves a code point. -/
def image (r : CaseRun) (n : Nat) : Nat := (n + r.shift).toNat

/-- Whether the images of a run lie outside of another run: on one side of it, or else every one of
them is looked at. -/
def avoids (r s : CaseRun) : Bool :=
  Nat.blt 0 s.low && (Nat.blt (r.image r.high) s.low || Nat.blt s.high (r.image r.low)) ||
    (List.range (r.high + 1 - r.low)).all fun k =>
      !(r.covers (r.low + k) && s.covers (Char.ofNat (r.image (r.low + k))).toNat)

/-- A run applies to what belongs to it. -/
theorem apply_eq (r : CaseRun) (n : Nat) :
    r.apply? n = if r.covers n then some (Char.ofNat (r.image n)) else none := by
  simp only [covers, CaseRun.apply?, image, Bool.and_eq_true, Nat.ble_eq, beq_iff_eq]

/-- The code point of a character made from a number is the number, or there is no such character
and it is zero. -/
theorem toNat_charOfNat (n : Nat) : (Char.ofNat n).toNat = n ∨ (Char.ofNat n).toNat = 0 := by
  by_cases h : n.isValidChar
  · rw [Char.ofNat, dif_pos h]
    exact Or.inl rfl
  · rw [Char.ofNat, dif_neg h]
    exact Or.inr rfl

/-- To a run that is avoided no image belongs. -/
theorem covers_of_avoids {r s : CaseRun} (h : r.avoids s = true) {n : Nat}
    (hn : r.covers n = true) : s.covers (Char.ofNat (r.image n)).toNat = false := by
  have bounds := hn
  rw [covers, Bool.and_eq_true, Bool.and_eq_true, Nat.ble_eq, Nat.ble_eq] at bounds
  obtain ⟨hlow, hhigh, -⟩ := bounds
  rw [avoids, Bool.or_eq_true] at h
  rcases h with h | h
  · rw [Bool.and_eq_true, Bool.or_eq_true, Nat.blt_eq, Nat.blt_eq, Nat.blt_eq] at h
    have hc := toNat_charOfNat (r.image n)
    rw [← Bool.not_eq_true, covers, Bool.and_eq_true, Bool.and_eq_true, Nat.ble_eq, Nat.ble_eq]
    simp only [image] at h hc ⊢
    omega
  · have hk := List.all_eq_true.1 h (n - r.low) (List.mem_range.2 (by omega))
    rw [Nat.add_sub_cancel' hlow, hn, Bool.true_and, Bool.not_eq_true'] at hk
    exact hk

end CaseRun

namespace CaseMap

/-- Whether something holds of everything that a map mentions, where what expands is a run of its
own. -/
def allRuns (m : CaseMap) (p : CaseRun → Bool) : Bool :=
  (m.expansions.all fun e => p ⟨e.1, e.1, 1, 0⟩) && m.runs.all p

/-- Whether a map does not mention a code point. -/
def leaves (m : CaseMap) (n : Nat) : Bool := m.allRuns fun s => !s.covers n

/-- Whether every image begins with a character that the map does not mention. -/
def settles (m : CaseMap) : Bool :=
  (m.expansions.all fun e => (e.2.map Char.ofNat).head?.any fun d => m.leaves d.toNat) &&
    m.runs.all fun r => m.allRuns r.avoids

variable {m : CaseMap}

/-- What is not mentioned is its own image. -/
theorem apply_of_leaves {c : Char} (h : m.leaves c.toNat = true) : m.apply c = [c] := by
  rw [leaves, allRuns, Bool.and_eq_true, List.all_eq_true, List.all_eq_true] at h
  have he : m.expansions.lookup c.toNat = none := by
    rw [List.lookup_eq_none_iff]
    intro e he
    have hs := h.1 e he
    rw [bne_iff_ne]
    intro hc
    simp [CaseRun.covers, hc, Nat.ble_eq_true_of_le] at hs
  have hr : m.runs.findSome? (fun r => r.apply? c.toNat) = none := by
    refine List.findSome?_eq_none_iff.2 fun r hr => ?_
    have hs := h.2 r hr
    rw [Bool.not_eq_true'] at hs
    rw [CaseRun.apply_eq, hs]
    rfl
  rw [apply, he]
  dsimp only
  rw [hr]

/-- A run leads to what is not mentioned. -/
theorem leaves_of_run (h : m.settles = true) {r : CaseRun} (hr : r ∈ m.runs) {n : Nat} {d : Char}
    (hd : r.apply? n = some d) : m.leaves d.toNat = true := by
  rw [settles, Bool.and_eq_true, List.all_eq_true, List.all_eq_true] at h
  rw [CaseRun.apply_eq] at hd
  split at hd
  · next hn =>
    obtain rfl := Option.some.inj hd
    have hr := h.2 r hr
    rw [allRuns, Bool.and_eq_true, List.all_eq_true, List.all_eq_true] at hr
    rw [leaves, allRuns, Bool.and_eq_true, List.all_eq_true, List.all_eq_true]
    refine ⟨fun e he => ?_, fun s hs => ?_⟩
    · rw [CaseRun.covers_of_avoids (hr.1 e he) hn]
      rfl
    · rw [CaseRun.covers_of_avoids (hr.2 s hs) hn]
      rfl
  · cases hd

/-- An expansion begins with what is not mentioned. -/
theorem leaves_of_expansion (h : m.settles = true) {n : Nat} {image : List Nat}
    (hn : m.expansions.lookup n = some image) :
    ∃ d ds, image.map Char.ofNat = d :: ds ∧ m.leaves d.toNat = true := by
  rw [settles, Bool.and_eq_true, List.all_eq_true] at h
  obtain ⟨before, after, he, -⟩ := List.lookup_eq_some_iff.1 hn
  have hi := h.1 (n, image) (by simp [he])
  obtain ⟨d, hd, hl⟩ := (Option.any_eq_true _ _).1 hi
  obtain ⟨ds, hds⟩ := List.head?_eq_some_iff.1 hd
  exact ⟨d, ds, hds, hl⟩

/-- The image of a character begins with one that is its own image. -/
theorem exists_apply_eq (h : m.settles = true) (c : Char) :
    ∃ d ds, m.apply c = d :: ds ∧ m.apply d = [d] := by
  rw [apply]
  cases he : m.expansions.lookup c.toNat with
  | some image =>
    obtain ⟨d, ds, hds, hl⟩ := leaves_of_expansion h he
    exact ⟨d, ds, hds, apply_of_leaves hl⟩
  | none =>
    dsimp only
    cases hr : m.runs.findSome? fun r => r.apply? c.toNat with
    | some d =>
      obtain ⟨r, hm, hd⟩ := List.exists_of_findSome?_eq_some hr
      exact ⟨d, [], rfl, apply_of_leaves (leaves_of_run h hm hd)⟩
    | none => exact ⟨c, [], rfl, by rw [apply, he]; dsimp only; rw [hr]⟩

end CaseMap

/-- Upper-case characters are left alone by the upper-case map. -/
theorem settles_upperMap : upperMap.settles = true := by decide +kernel

/-- Lower-case characters are left alone by the lower-case map. -/
theorem settles_lowerMap : lowerMap.settles = true := by decide +kernel

/-- Mapping the first letter once more changes nothing. -/
theorem mapFirstLetter_mapFirstLetter {m : CaseMap} (h : m.settles = true) (cs : List Char) :
    mapFirstLetter m.apply (mapFirstLetter m.apply cs) = mapFirstLetter m.apply cs := by
  cases cs with
  | nil => rfl
  | cons c cs =>
    rw [mapFirstLetter]
    split
    · obtain ⟨d, ds, hd, hdd⟩ := CaseMap.exists_apply_eq h c
      rw [hd, List.cons_append, mapFirstLetter, hdd, List.singleton_append, ite_self]
    · next hc => rw [mapFirstLetter, if_neg hc]

end Text

namespace CasePattern

/-- Recasing a text again changes nothing. -/
theorem recase_recase (p : CasePattern) (s : String) : p.recase (p.recase s) = p.recase s := by
  cases p with
  | upperCamel =>
    refine congrArg String.ofList ?_
    dsimp only [recase]
    rw [String.toList_ofList]
    exact Text.mapFirstLetter_mapFirstLetter Text.settles_upperMap s.toList
  | lowerCamel =>
    refine congrArg String.ofList ?_
    dsimp only [recase]
    rw [String.toList_ofList]
    exact Text.mapFirstLetter_mapFirstLetter Text.settles_lowerMap s.toList

/-- Recasing a name again changes nothing. -/
theorem convert_convert {p : CasePattern} {name name' : Value} (h : p.convert name = .ok name') :
    p.convert name' = .ok name' := by
  -- Only texts are changed, and they stay texts.
  have kept : name = name' → p.convert name' = .ok name' := fun hn => hn ▸ h
  unfold convert at h
  split at h
  · next s =>
    obtain rfl := Except.ok.inj h
    rw [convert, recase_recase]
  · split at h
    · cases h
    · exact kept (Except.ok.inj h)
  · cases h
  · cases h
  · split at h
    · cases h
    · exact kept (Except.ok.inj h)

end CasePattern

end Bindery
