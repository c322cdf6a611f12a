import Bindery.Event.Rules
import Bindery.Proofs.Casing
import Mathlib.Data.List.Induction

/-!
# The ending of names of hooks

The name of a hook loses as many characters as the ending of events has. Putting the ending back
leads to the name again just if the name has this ending, and something before it. Recasing neither
takes the ending from a name nor gives it one: it changes the first letter only, no ending begins
inside what a letter turns into, and nothing that a letter turns into is mistaken for a mark. Main
statements: `append_dropLastChars_iff`, `isEventName_recase`, `isEventName_of_holdsCodes`.
-/

namespace Bindery

namespace Text

/-! ## Code points -/

/-- Nothing is lost when a text is cut into what holds its code points. -/
theorem flatten_glyphs (cs : List Char) : (glyphs cs).flatten = cs := by
  fun_induction glyphs cs with
  | case1 b c rest ih => simp [ih]
  | case2 a b c rest h ih => simpa using ih
  | case3 a rest h ih => simpa using ih
  | case4 => rfl

/-- What holds a code point is not empty. -/
theorem ne_nil_of_mem_glyphs {cs glyph : List Char} (h : glyph ∈ glyphs cs) : glyph ≠ [] := by
  fun_induction glyphs cs with
  | case1 b c rest ih =>
    rcases List.mem_cons.1 h with rfl | h
    · exact List.cons_ne_nil _ _
    · exact ih h
  | case2 a b c rest hne ih =>
    rcases List.mem_cons.1 h with rfl | h
    · exact List.cons_ne_nil _ _
    · exact ih h
  | case3 a rest hne ih =>
    rcases List.mem_cons.1 h with rfl | h
    · exact List.cons_ne_nil _ _
    · exact ih h
  | case4 => cases h

/-- Characters that are not the mark are held by themselves when they come first. -/
theorem glyphs_append {before : List Char} (h : mark ∉ before) (cs : List Char) :
    glyphs (before ++ cs) = before.map (fun c => [c]) ++ glyphs cs := by
  induction before with
  | nil => rfl
  | cons c before ih =>
    rw [List.mem_cons, not_or] at h
    rw [List.cons_append, glyphs_cons (Ne.symm h.1), ih h.2]
    rfl

/-- Pieces that are not empty have at least one character each. -/
theorem length_le_length_flatten {pieces : List (List Char)} (h : ∀ p ∈ pieces, p ≠ []) :
    pieces.length ≤ pieces.flatten.length := by
  induction pieces with
  | nil => exact Nat.le_refl 0
  | cons p pieces ih =>
    have some := List.length_pos_iff.2 (h p List.mem_cons_self)
    have others := ih fun p hp => h p (List.mem_cons_of_mem _ hp)
    rw [List.flatten_cons, List.length_append, List.length_cons]
    omega

/-- As many pieces as there are characters are single characters. -/
theorem eq_map_of_length_flatten {pieces : List (List Char)} (h : ∀ p ∈ pieces, p ≠ [])
    (length : pieces.flatten.length ≤ pieces.length) :
    pieces = pieces.flatten.map fun c => [c] := by
  induction pieces with
  | nil => rfl
  | cons p pieces ih =>
    obtain ⟨c, rest, rfl⟩ := List.exists_cons_of_ne_nil (h p List.mem_cons_self)
    have others : ∀ p ∈ pieces, p ≠ [] := fun p hp => h p (List.mem_cons_of_mem _ hp)
    have least := length_le_length_flatten others
    rw [List.flatten_cons, List.length_append, List.length_cons, List.length_cons] at length
    obtain rfl : rest = [] := List.length_eq_zero_iff.1 (by omega)
    have most : pieces.flatten.length ≤ pieces.length := by
      rw [List.length_nil] at length
      omega
    rw [List.flatten_cons, List.singleton_append, List.map_cons, ← ih others most]

end Text

open Text

/-! ## Taking the ending off -/

/-- The code points of the ending. -/
def suffixGlyphs : List (List Char) := eventSuffix.toList.map fun c => [c]

/-- Whether a text is the name of an event with the ending behind it, code point by code point. -/
def IsEventName (s : String) : Prop := ∃ event ≠ [], glyphs s.toList = event ++ suffixGlyphs

/-- Without its last characters and with the ending put back, a text is the same again, and
something was left of it, just if it is the name of an event with the ending behind it. -/
theorem append_dropLastChars_iff (s : String) :
    dropLastChars eventSuffix.length s ≠ "" ∧
        dropLastChars eventSuffix.length s ++ eventSuffix = s ↔ IsEventName s := by
  have size : suffixGlyphs.length = eventSuffix.length := by decide
  have ending : suffixGlyphs.flatten = eventSuffix.toList := by decide
  have whole := flatten_glyphs s.toList
  have solid : ∀ g ∈ glyphs s.toList, g ≠ [] := fun g => ne_nil_of_mem_glyphs
  rw [dropLastChars, IsEventName]
  generalize glyphs s.toList = gs at whole solid
  generalize hk : gs.length - eventSuffix.length = k
  constructor
  · rintro ⟨given, again⟩
    have left : k ≠ 0 := by
      rintro rfl
      exact given rfl
    have dropped : (gs.drop k).flatten = eventSuffix.toList := by
      have chars := congrArg String.toList again
      rw [String.toList_append, String.toList_ofList, ← whole, ← List.take_append_drop k gs,
        List.flatten_append, List.take_append_drop] at chars
      exact (List.append_cancel_left chars).symm
    have single : gs.drop k = suffixGlyphs := by
      rw [suffixGlyphs, ← dropped]
      refine eq_map_of_length_flatten (fun p hp => solid p (List.mem_of_mem_drop hp)) ?_
      rw [dropped, List.length_drop, String.length_toList]
      omega
    refine ⟨gs.take k, fun h => ?_, by rw [← single, List.take_append_drop]⟩
    rcases List.take_eq_nil_iff.1 h with h | h
    · exact left h
    · rw [h] at hk
      exact left hk.symm
  · rintro ⟨event, given, rfl⟩
    rw [List.length_append, size, Nat.add_sub_cancel] at hk
    subst hk
    rw [List.take_left]
    constructor
    · intro h
      obtain ⟨g, rest, rfl⟩ := List.exists_cons_of_ne_nil given
      have none := congrArg String.toList h
      rw [String.toList_ofList, List.flatten_cons] at none
      exact solid g (by simp) (List.append_eq_nil_iff.1 none).1
    · rw [List.flatten_append, ending] at whole
      rw [← String.ofList_toList (s := s), ← whole, String.ofList_append, String.ofList_toList]

/-! ## Recasing -/

namespace Text

/-- The mark as a run of its own. -/
def markRun : CaseRun := ⟨mark.toNat, mark.toNat, 1, 0⟩

/-- Whether what a map leads to holds no mark, and the ending begins nowhere inside of it. -/
def CaseMap.sparesEnding (m : CaseMap) : Bool :=
  (m.expansions.all fun e =>
    let image := e.2.map Char.ofNat
    !image.contains mark && !image.tail.contains 'E') && m.runs.all fun r => r.avoids markRun

/-- The upper-case map spares endings. -/
theorem sparesEnding_upperMap : upperMap.sparesEnding = true := by decide +kernel

/-- The lower-case map spares endings. -/
theorem sparesEnding_lowerMap : lowerMap.sparesEnding = true := by decide +kernel

/-- The mark is no letter. -/
theorem ne_mark_of_isLetter {c : Char} (h : isLetter c = true) : c ≠ mark := by
  rintro rfl
  revert h
  decide +kernel

/-- What a letter turns into holds no mark, and the ending begins nowhere inside of it. -/
theorem not_mem_apply {m : CaseMap} (h : m.sparesEnding = true) {c : Char} (hc : c ≠ mark) :
    mark ∉ m.apply c ∧ 'E' ∉ (m.apply c).tail := by
  rw [CaseMap.sparesEnding, Bool.and_eq_true, List.all_eq_true, List.all_eq_true] at h
  rw [CaseMap.apply]
  cases he : m.expansions.lookup c.toNat with
  | some image =>
    obtain ⟨before, after, hs, -⟩ := List.lookup_eq_some_iff.1 he
    have spared := h.1 (c.toNat, image) (by simp [hs])
    rw [Bool.and_eq_true, Bool.not_eq_true', Bool.not_eq_true'] at spared
    constructor
    · intro hm
      rw [List.contains_iff_mem.2 hm] at spared
      cases spared.1
    · intro hm
      rw [List.contains_iff_mem.2 hm] at spared
      cases spared.2
  | none =>
    dsimp only
    cases hr : m.runs.findSome? fun r => r.apply? c.toNat with
    | some d =>
      obtain ⟨r, hm, hd⟩ := List.exists_of_findSome?_eq_some hr
      rw [CaseRun.apply_eq] at hd
      split at hd
      · next covered =>
        obtain rfl := Option.some.inj hd
        have other := CaseRun.covers_of_avoids (h.2 r hm) covered
        refine ⟨fun hm => ?_, List.not_mem_nil⟩
        rw [← List.mem_singleton.1 hm] at other
        revert other
        decide
      · cases hd
    | none => exact ⟨fun hm => hc (List.mem_singleton.1 hm).symm, List.not_mem_nil⟩

end Text

/-- Behind some code points, in the last of which no ending begins, a text has the ending just if it
has the ending without them. -/
theorem exists_append_suffixGlyphs_iff {first : List Char} (given : first ≠ [])
    (inside : 'E' ∉ first.tail) (gs : List (List Char)) :
    (∃ event ≠ [], first.map (fun c => [c]) ++ gs = event ++ suffixGlyphs) ↔
      suffixGlyphs <:+ gs := by
  constructor
  · rintro ⟨event, some, eq⟩
    rcases List.append_eq_append_iff.1 eq with ⟨more, -, rest⟩ | ⟨more, split, rest⟩
    · exact ⟨more, rest.symm⟩
    · cases more with
      | nil =>
        rw [List.nil_append] at rest
        exact ⟨[], rest⟩
      | cons g more =>
        -- The ending would begin in the middle of what is in front.
        have letter : g = ['E'] := by
          have heads := congrArg List.head? rest
          exact (Option.some.inj heads).symm
        obtain ⟨d, event, rfl⟩ := List.exists_cons_of_ne_nil some
        obtain ⟨c, first, rfl⟩ := List.exists_cons_of_ne_nil given
        have tails : first.map (fun c => [c]) = event ++ g :: more := (List.cons.inj split).2
        have there : ['E'] ∈ first.map fun c => [c] := by
          rw [tails, letter]
          exact List.mem_append_right _ List.mem_cons_self
        obtain ⟨e, he, single⟩ := List.mem_map.1 there
        obtain rfl := (List.cons.inj single).1
        exact absurd he inside
  · rintro ⟨event, rfl⟩
    refine ⟨first.map (fun c => [c]) ++ event, ?_, (List.append_assoc _ _ _).symm⟩
    exact List.append_ne_nil_of_left_ne_nil (by simpa using given) _

/-- Recasing the first letter neither takes the ending from a name nor gives it one. -/
theorem isEventName_mapFirstLetter {m : CaseMap} (h : m.settles = true)
    (spares : m.sparesEnding = true) (cs : List Char) :
    IsEventName (String.ofList (mapFirstLetter m.apply cs)) ↔ IsEventName (String.ofList cs) := by
  cases cs with
  | nil => exact Iff.rfl
  | cons c cs =>
    rw [mapFirstLetter]
    split
    · next letter =>
      have other := ne_mark_of_isLetter letter
      obtain ⟨unmarked, inside⟩ := not_mem_apply spares other
      obtain ⟨d, ds, image, -⟩ := CaseMap.exists_apply_eq h c
      have given : m.apply c ≠ [] := by
        rw [image]
        exact List.cons_ne_nil _ _
      have recased := exists_append_suffixGlyphs_iff given inside (glyphs cs)
      have before := exists_append_suffixGlyphs_iff (List.cons_ne_nil c []) List.not_mem_nil
        (glyphs cs)
      rw [IsEventName, IsEventName, String.toList_ofList, String.toList_ofList,
        glyphs_append unmarked, glyphs_cons other]
      exact recased.trans before.symm
    · exact Iff.rfl

/-- Recasing neither takes the ending from a name nor gives it one. -/
theorem isEventName_recase (p : CasePattern) (s : String) :
    IsEventName (p.recase s) ↔ IsEventName s := by
  rw [← String.ofList_toList (s := s)]
  cases p with
  | upperCamel =>
    have kept := isEventName_mapFirstLetter settles_upperMap sparesEnding_upperMap s.toList
    rwa [CasePattern.recase, String.toList_ofList]
  | lowerCamel =>
    have kept := isEventName_mapFirstLetter settles_lowerMap sparesEnding_lowerMap s.toList
    rwa [CasePattern.recase, String.toList_ofList]

/-! ## Texts that hold code points -/

namespace Text

/-- Whether a text was put together from what holds code points. -/
def HoldsCodes (s : String) : Prop := ∃ ns : List Nat, s.toList = ns.flatMap ofCode

/-- What holds a code point and ends in a character of its own is this character. -/
theorem ofCode_eq_singleton {n : Nat} {before : List Char} {c : Char} (h : isReserved c = false)
    (eq : ofCode n = before ++ [c]) : ofCode n = [c] := by
  have last := congrArg List.getLast? eq
  rw [List.getLast?_concat] at last
  rw [ofCode] at last ⊢
  split at last
  · next half =>
    rw [if_pos half]
    exact congrArg (fun c => [c]) (Option.some.inj last)
  · next whole =>
    rw [if_neg whole]
    rw [hold] at last ⊢
    split at last
    · -- The mark is not a character of its own.
      obtain rfl : mark = c := Option.some.inj last
      cases h
    · next free =>
      rw [if_neg free]
      exact congrArg (fun c => [c]) (Option.some.inj last)

/-- What holds a code point is not empty. -/
theorem ofCode_ne_nil (n : Nat) : ofCode n ≠ [] := by
  rw [ofCode, hold]
  split
  · exact List.cons_ne_nil _ _
  · split <;> exact List.cons_ne_nil _ _

/-- A row of code points that is held by a text with characters of their own at its end has these at
its end. -/
theorem exists_map_ofCode_eq {cs : List Char} (h : ∀ c ∈ cs, isReserved c = false) :
    ∀ {ns : List Nat} {before : List Char}, ns.flatMap ofCode = before ++ cs →
      ∃ ms : List Nat, before = ms.flatMap ofCode ∧
        ns.map ofCode = ms.map ofCode ++ cs.map fun c => [c] := by
  induction cs using List.reverseRecOn with
  | nil =>
    intro ns before eq
    exact ⟨ns, by rw [eq, List.append_nil], (List.append_nil _).symm⟩
  | append_singleton cs c ih =>
    intro ns before eq
    rcases List.eq_nil_or_concat ns with rfl | ⟨ms, n, rfl⟩
    · simp at eq
    · rw [List.concat_eq_append] at eq ⊢
      obtain ⟨p, d, hp⟩ := (List.eq_nil_or_concat (ofCode n)).resolve_left (ofCode_ne_nil n)
      rw [List.concat_eq_append] at hp
      rw [List.flatMap_append, List.flatMap_singleton, ← List.append_assoc, hp,
        ← List.append_assoc] at eq
      obtain ⟨front, last⟩ := List.append_inj' eq rfl
      obtain rfl : d = c := (List.cons.inj last).1
      have single := ofCode_eq_singleton (h d (by simp)) hp
      obtain rfl : p = [] := by
        rw [single] at hp
        exact List.self_eq_append_left.1 hp
      rw [List.append_nil] at front
      obtain ⟨ms', whole, rest⟩ := ih (fun e he => h e (List.mem_append_left _ he)) front
      refine ⟨ms', whole, ?_⟩
      rw [List.map_append, List.map_append, rest, List.map_singleton, List.map_singleton, single,
        List.append_assoc]

/-- A text that was put together from what holds code points is cut into just that. -/
theorem glyphs_flatMap_ofCode (ns : List Nat) : glyphs (ns.flatMap ofCode) = ns.map ofCode := by
  induction ns with
  | nil => rfl
  | cons n ns ih => rw [List.flatMap_cons, glyphs_ofCode_append, ih, List.map_cons]

end Text

/-- A text that holds code points is the name of an event with the ending behind it if it is so
character by character. -/
theorem isEventName_of_holdsCodes {event : String} (h : HoldsCodes (event ++ eventSuffix))
    (given : event ≠ "") : IsEventName (event ++ eventSuffix) := by
  obtain ⟨ns, held⟩ := h
  have free : ∀ c ∈ eventSuffix.toList, isReserved c = false := by
    have table : (eventSuffix.toList.all fun c => !isReserved c) = true := by decide
    intro c hc
    simpa using List.all_eq_true.1 table c hc
  have split : ns.flatMap ofCode = event.toList ++ eventSuffix.toList := by
    rw [← held, String.toList_append]
  obtain ⟨ms, whole, row⟩ := exists_map_ofCode_eq free split
  refine ⟨ms.map ofCode, ?_, by rw [held, glyphs_flatMap_ofCode, row, suffixGlyphs]⟩
  intro none
  obtain rfl := List.map_eq_nil_iff.1 none
  exact given (String.toList_eq_nil_iff.1 whole)

end Bindery
