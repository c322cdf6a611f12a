import Bindery.Module.Name
import Bindery.Proofs.Spelling
import Mathlib.Data.Nat.Find

/-!
# Names of libraries

The pattern for the name of a library is searched for from the left, prefers a digit before the name
of the module, and takes as little of a word for that name as it can. What comes of it can be told
without a search: a library name is `Qt`, a word, perhaps an extension and perhaps a line end, and
the module is that word without a leading digit and without a final mark, as long as something
remains. Main statement: `ofLibrary_grammar`.
-/

namespace Bindery

open Text

/-! ## Digits -/

namespace Text

namespace Ranges

/-- Whether every range of one list lies within some range of another. -/
def areWithin (ranges others : Ranges) : Bool :=
  ranges.all fun r => others.any fun s => Nat.ble s.1 r.1 && Nat.ble r.2 s.2

/-- Of ascending ranges every one is covered. -/
theorem coversCode_of_mem {ranges : Ranges} (ascending : ranges.IsChain fun r s => r.1 ≤ s.1)
    {r : Nat × Nat} (hr : r ∈ ranges) {n : Nat} (low : r.1 ≤ n) (high : n ≤ r.2) :
    ranges.coversCode n = true := by
  induction ranges with
  | nil => cases hr
  | cons s ranges ih =>
    have least : s.1 ≤ r.1 := by
      rcases List.mem_cons.1 hr with rfl | hr
      · exact Nat.le_refl _
      · have : IsTrans (Nat × Nat) fun r s => r.1 ≤ s.1 := ⟨fun _ _ _ => Nat.le_trans⟩
        exact (List.pairwise_cons.1 (List.isChain_iff_pairwise.1 ascending)).1 r hr
    rw [coversCode, if_neg (Nat.not_lt.2 (Nat.le_trans least low)), Bool.or_eq_true]
    rcases List.mem_cons.1 hr with rfl | hr
    · exact .inl (decide_eq_true high)
    · exact .inr (ih ascending.tail hr)

/-- What ranges cover is covered by ascending ranges that they lie within. -/
theorem coversCode_of_areWithin {ranges others : Ranges} (h : ranges.areWithin others = true)
    (ascending : others.IsChain fun r s => r.1 ≤ s.1) {n : Nat} (hn : ranges.coversCode n = true) :
    others.coversCode n = true := by
  obtain ⟨r, hr, low, high⟩ := exists_of_coversCode hn
  obtain ⟨s, hs, within⟩ := List.any_eq_true.1 (List.all_eq_true.1 h r hr)
  rw [Bool.and_eq_true, Nat.ble_eq, Nat.ble_eq] at within
  exact coversCode_of_mem ascending hs (Nat.le_trans within.1 low) (Nat.le_trans high within.2)

end Ranges

/-- A decimal digit is a word character. -/
theorem isWord_of_isDecimalDigit {c : Char} (h : isDecimalDigit c = true) : isWord c = true := by
  have numeral : isNumeral c = true :=
    Ranges.coversCode_of_areWithin (by decide +kernel) (by decide +kernel) h
  rw [isWord, numeral, Bool.or_true]

end Text

/-! ## Ways of patterns -/

namespace Text.Pattern

variable {isMember : Char → Bool} {first next part : Pattern} {cs rest : List Char}

/-- What is left behind characters of a class is what follows one or more of them. -/
theorem mem_restsOf : rest ∈ restsOf isMember cs ↔
    ∃ w ≠ [], (∀ c ∈ w, isMember c = true) ∧ cs = w ++ rest := by
  induction cs with
  | nil => simp [restsOf]
  | cons c cs ih =>
    rw [restsOf]
    split
    · next hc =>
      rw [List.mem_cons, ih]
      constructor
      · rintro (rfl | ⟨w, -, hw, rfl⟩)
        · exact ⟨[c], List.cons_ne_nil _ _, by simpa using hc, rfl⟩
        · exact ⟨c :: w, List.cons_ne_nil _ _, by simpa using ⟨hc, hw⟩, rfl⟩
      · rintro ⟨w, given, hw, split⟩
        obtain ⟨d, w, rfl⟩ := List.exists_cons_of_ne_nil given
        obtain ⟨rfl, rfl⟩ := List.cons.inj split
        rcases eq_or_ne w [] with rfl | more
        · exact .inl rfl
        · exact .inr ⟨w, more, fun e he => hw e (List.mem_cons_of_mem _ he), rfl⟩
    · next hc =>
      refine iff_of_false List.not_mem_nil ?_
      rintro ⟨w, given, hw, split⟩
      obtain ⟨d, w, rfl⟩ := List.exists_cons_of_ne_nil given
      obtain ⟨rfl, -⟩ := List.cons.inj split
      exact hc (hw c List.mem_cons_self)

/-- Behind a part that can be read in one way only, and of which nothing is remembered, everything
is as for the second part alone. -/
theorem ways_followedBy_of_single (h : first.ways cs = [{ rest }]) :
    (first.followedBy next).ways cs = next.ways rest := by
  simp [ways, h]

/-- A character is read in one way. -/
theorem ways_char_followedBy (c : Char) (cs : List Char) :
    ((char c).followedBy next).ways (c :: cs) = next.ways cs :=
  ways_followedBy_of_single (by simp [ways])

/-- No other character is read. -/
theorem ways_char_followedBy_of_ne {c : Char} (h : ∀ rest, cs ≠ c :: rest) :
    ((char c).followedBy next).ways cs = [] := by
  cases cs with
  | nil => rfl
  | cons d cs =>
    have other : d ≠ c := fun same => h cs (by rw [same])
    simp [ways, other]

/-- A preferred character of a class is tried first where there is one. -/
theorem ways_optional_oneOf_followedBy (c : Char) (cs : List Char) :
    ((optional (oneOf isMember)).followedBy next).ways (c :: cs) =
      if isMember c then next.ways cs ++ next.ways (c :: cs) else next.ways (c :: cs) := by
  by_cases h : isMember c <;> simp [ways, h]

/-- Whether a pattern has no part whose text is remembered. -/
def isPlain : Pattern → Bool
  | remembered _ => false
  | optional part => part.isPlain
  | followedBy first next => first.isPlain && next.isPlain
  | _ => true

/-- Of a pattern without such a part nothing is remembered. -/
theorem span?_of_isPlain {p : Pattern} (h : p.isPlain = true) {way : Way} (hw : way ∈ p.ways cs) :
    way.span? = none := by
  induction p generalizing cs way with
  | char c | oneOf isMember =>
    cases cs with
    | nil => cases hw
    | cons d cs =>
      rw [ways] at hw
      split at hw
      · rw [List.mem_singleton.1 hw]
      · cases hw
  | fewest isMember | most isMember =>
    rw [ways] at hw
    obtain ⟨rest, -, rfl⟩ := List.mem_map.1 hw
    rfl
  | optional part ih =>
    rw [ways, List.mem_append, List.mem_singleton] at hw
    rcases hw with hw | rfl
    · exact ih h hw
    · rfl
  | remembered part => cases h
  | atEnd =>
    rw [ways] at hw
    split at hw
    · rw [List.mem_singleton.1 hw]
    · cases hw
  | followedBy first next ih ih' =>
    rw [isPlain, Bool.and_eq_true] at h
    rw [ways, List.mem_flatMap] at hw
    obtain ⟨before, hb, hw⟩ := hw
    obtain ⟨later, hl, rfl⟩ := List.mem_map.1 hw
    rw [ih h.1 hb, ih' h.2 hl]
    rfl

/-- Where few characters are preferred and remembered, it is the first of what may be left that
decides, if it suits what comes behind. -/
theorem remembered?_ways_fewest (plain : next.isPlain = true) (cs : List Char) :
    (((remembered (fewest isMember)).followedBy next).ways cs).head?.bind Way.remembered? =
      ((restsOf isMember cs).find? fun rest => decide (next.ways rest ≠ [])).map fun rest =>
        cs.take (cs.length - rest.length) := by
  rw [ways, ways, ways, List.map_map]
  generalize restsOf isMember cs = rests
  induction rests with
  | nil => rfl
  | cons rest rests ih =>
    rw [List.map_cons, List.flatMap_cons, List.find?_cons]
    cases hw : next.ways rest with
    | nil => simpa [hw] using ih
    | cons way ways =>
      have none := span?_of_isPlain plain (hw ▸ List.mem_cons_self : way ∈ next.ways rest)
      simp [hw, none, Way.remembered?]

/-- Where the first part and what follows it fit in no way, the search goes on. -/
theorem search?_of_ways_eq_nil {p : Pattern} {c : Char} (h : p.ways (c :: cs) = []) :
    p.search? (c :: cs) = p.search? cs := by
  rw [search?, h]
  rfl

/-- A pattern that does not fit at any place is not found. -/
theorem search?_eq_none {p : Pattern} (h : ∀ before rest, cs = before ++ rest → p.ways rest = []) :
    p.search? cs = none := by
  induction cs with
  | nil => rw [search?, h [] [] rfl, List.head?_nil]
  | cons c cs ih =>
    rw [search?_of_ways_eq_nil (h [] _ rfl)]
    exact ih fun before rest split => h (c :: before) rest (by rw [split, List.cons_append])

/-- A pattern is found at the leftmost place where it fits. -/
theorem search?_append {p : Pattern} {before : List Char} (fits : p.ways rest ≠ [])
    (leftmost : ∀ before' rest', before ++ rest = before' ++ rest' → p.ways rest' ≠ [] →
      before.length ≤ before'.length) :
    p.search? (before ++ rest) = (p.ways rest).head? := by
  induction before with
  | nil =>
    rw [List.nil_append]
    cases rest with
    | nil => rw [search?]
    | cons c rest =>
      rw [search?]
      cases h : (p.ways (c :: rest)).head? with
      | some way => rfl
      | none => exact absurd (List.head?_eq_none_iff.1 h) fits
  | cons c before ih =>
    have early : p.ways (c :: before ++ rest) = [] := by
      by_contra fits'
      exact absurd (leftmost [] _ rfl fits') (by simp)
    rw [List.cons_append] at early ⊢
    rw [search?_of_ways_eq_nil early]
    refine ih fun before' rest' split fits' => ?_
    have later := leftmost (c :: before') rest' (by rw [List.cons_append, split, List.cons_append])
      fits'
    simpa using later

end Text.Pattern

namespace ModuleName

open Pattern

/-! ## The grammar -/

/-- A word is made of one or more word characters. -/
def IsWord (w : List Char) : Prop := w ≠ [] ∧ ∀ c ∈ w, isWord c = true

/-- What can be at the end of a library name: nothing, or a line end. -/
def IsEnd (cs : List Char) : Prop := cs = [] ∨ cs = ['\n']

/-- What can be behind the word of a library name: an extension or none, and the end. -/
def IsTail (cs : List Char) : Prop :=
  IsEnd cs ∨ ∃ extension ending, IsWord extension ∧ IsEnd ending ∧ cs = '.' :: (extension ++ ending)

/-- A library name with the given word in it. -/
def IsLibraryName (w cs : List Char) : Prop :=
  IsWord w ∧ ∃ tail, IsTail tail ∧ cs = 'Q' :: 't' :: (w ++ tail)

/-- A word without the digit of a major version; a lone digit is kept. -/
def withoutVersion : List Char → List Char
  | c :: d :: w => if isDecimalDigit c then d :: w else c :: d :: w
  | w => w

/-- A word without the mark of a debug build; a lone mark is kept. -/
def withoutMark (w : List Char) : List Char :=
  if w.getLast? = some 'd' ∧ 1 < w.length then w.dropLast else w

/-- The module that the word of a library name stands for. -/
def moduleOf (w : List Char) : List Char := withoutMark (withoutVersion w)

instance (w : List Char) : Decidable (IsWord w) :=
  decidable_of_iff (w ≠ [] ∧ w.all isWord = true) (and_congr_right' List.all_eq_true)

instance (cs : List Char) : Decidable (IsEnd cs) := inferInstanceAs (Decidable (_ ∨ _))

variable {w tail cs rest : List Char}

/-- No end begins with a word. -/
theorem not_isWord_of_isEnd {c : Char} (h : IsEnd (c :: cs)) : isWord c = false := by
  rcases h with h | h
  · cases h
  · obtain ⟨rfl, -⟩ := List.cons.inj h
    decide

/-- Nothing that can be behind a word begins with a word. -/
theorem not_isWord_of_isTail {c : Char} (h : IsTail (c :: cs)) : isWord c = false := by
  rcases h with h | ⟨extension, ending, -, -, h⟩
  · exact not_isWord_of_isEnd h
  · obtain ⟨rfl, -⟩ := List.cons.inj h
    decide

/-- Of word characters and what can be behind a word, none belongs to both. -/
theorem eq_nil_of_isTail_append (hw : ∀ c ∈ w, isWord c = true) (h : IsTail (w ++ rest)) :
    w = [] := by
  cases w with
  | nil => rfl
  | cons c w =>
    have word := hw c List.mem_cons_self
    rw [not_isWord_of_isTail h] at word
    cases word

/-! ## Ways of reading -/

/-- What the pattern has for an extension. -/
def extensionPattern : Pattern := .followedBy (.char '.') (.most isWord)

/-- What the pattern has for the part behind the mark of a debug build. -/
def tailPattern : Pattern := .followedBy (.optional extensionPattern) .atEnd

/-- What the pattern has for the part behind the name of the module. -/
def restPattern : Pattern := .followedBy (.optional (.char 'd')) tailPattern

/-- What the pattern has for the name of the module and the part behind it. -/
def namePattern : Pattern := .followedBy (.remembered (.fewest isWord)) restPattern

/-- An extension is read in one way for each of its beginnings. -/
theorem mem_ways_extensionPattern {way : Way} : way ∈ extensionPattern.ways cs ↔
    ∃ extension, IsWord extension ∧ cs = '.' :: (extension ++ way.rest) ∧ way.span? = none := by
  by_cases dot : ∃ rest, cs = '.' :: rest
  · obtain ⟨rest, rfl⟩ := dot
    rw [extensionPattern, ways_char_followedBy, ways, List.mem_map]
    simp only [List.mem_reverse, mem_restsOf, List.cons.injEq, true_and]
    constructor
    · rintro ⟨rest', ⟨extension, given, word, rfl⟩, rfl⟩
      exact ⟨extension, ⟨given, word⟩, rfl, rfl⟩
    · rintro ⟨extension, ⟨given, word⟩, rfl, plain⟩
      exact ⟨way.rest, ⟨extension, given, word, rfl⟩, by rw [← plain]⟩
  · rw [extensionPattern, ways_char_followedBy_of_ne fun rest same => dot ⟨rest, same⟩]
    refine iff_of_false List.not_mem_nil ?_
    rintro ⟨extension, -, same, -⟩
    exact dot ⟨_, same⟩

/-- The end fits just what can be at the end. -/
theorem ways_atEnd_ne_nil : Pattern.atEnd.ways cs ≠ [] ↔ IsEnd cs := by
  rw [ways, IsEnd]
  split <;> simp_all

/-- The tail of the pattern fits just what can be behind the word of a library name. -/
theorem ways_tailPattern_ne_nil : tailPattern.ways cs ≠ [] ↔ IsTail cs := by
  rw [tailPattern, ways_followedBy_ne_nil, ways, IsTail]
  simp only [ways_atEnd_ne_nil, List.mem_append, List.mem_singleton, mem_ways_extensionPattern]
  constructor
  · rintro ⟨way, ⟨extension, word, same, -⟩ | rfl, atEnd⟩
    · exact .inr ⟨extension, way.rest, word, atEnd, same⟩
    · exact .inl atEnd
  · rintro (atEnd | ⟨extension, ending, word, atEnd, same⟩)
    · exact ⟨_, .inr rfl, atEnd⟩
    · exact ⟨{ rest := ending }, .inl ⟨extension, word, same, rfl⟩, atEnd⟩

/-- The rest of the pattern fits a tail, or a mark and a tail. -/
theorem ways_restPattern_ne_nil : restPattern.ways cs ≠ [] ↔
    IsTail cs ∨ ∃ rest, IsTail rest ∧ cs = 'd' :: rest := by
  rw [restPattern, ways_followedBy_ne_nil, ways, ways.eq_def (.char 'd')]
  simp only [ways_tailPattern_ne_nil, List.mem_append, List.mem_singleton]
  constructor
  · rintro ⟨way, marked | rfl, tail⟩
    · cases cs with
      | nil => cases marked
      | cons c cs =>
        dsimp only at marked
        split at marked
        · next same =>
          rw [List.mem_singleton.1 marked] at tail
          exact .inr ⟨cs, tail, by rw [same]⟩
        · cases marked
    · exact .inl tail
  · rintro (tail | ⟨rest, tail, rfl⟩)
    · exact ⟨_, .inr rfl, tail⟩
    · exact ⟨{ rest }, .inl (by simp), tail⟩

/-- Inside a word the rest of the pattern fits only before a final mark. -/
theorem ways_restPattern_append_ne_nil {c : Char} (hw : ∀ d ∈ c :: w, isWord d = true)
    (ht : IsTail tail) : restPattern.ways (c :: (w ++ tail)) ≠ [] ↔ c = 'd' ∧ w = [] := by
  rw [ways_restPattern_ne_nil]
  constructor
  · rintro (inside | ⟨rest, inside, same⟩)
    · exact absurd (eq_nil_of_isTail_append hw inside) (List.cons_ne_nil _ _)
    · obtain ⟨rfl, rfl⟩ := List.cons.inj same
      exact ⟨rfl, eq_nil_of_isTail_append (fun d hd => hw d (List.mem_cons_of_mem _ hd)) inside⟩
  · rintro ⟨rfl, rfl⟩
    exact .inr ⟨tail, ht, rfl⟩

/-- The first thing that may be left of a word and is such that the rest of the pattern fits is the
mark at its end if there is one, and otherwise nothing. -/
theorem find?_restsOf {c : Char} (hw : ∀ d ∈ c :: w, isWord d = true) (ht : IsTail tail) :
    (restsOf isWord (c :: (w ++ tail))).find? (fun rest => decide (restPattern.ways rest ≠ [])) =
      some (if w.getLast? = some 'd' then 'd' :: tail else tail) := by
  induction w generalizing c with
  | nil =>
    rw [List.nil_append, restsOf, if_pos (hw c List.mem_cons_self), List.find?_cons_of_pos]
    · rfl
    · exact decide_eq_true (ways_restPattern_ne_nil.2 (.inl ht))
  | cons d w ih =>
    have hw' : ∀ e ∈ d :: w, isWord e = true := fun e he => hw e (List.mem_cons_of_mem c he)
    have fits := ways_restPattern_append_ne_nil hw' ht
    rw [restsOf, if_pos (hw c List.mem_cons_self), List.cons_append]
    by_cases marked : d = 'd' ∧ w = []
    · have first : decide (restPattern.ways (d :: (w ++ tail)) ≠ []) = true :=
        decide_eq_true (fits.2 marked)
      rw [List.find?_cons, first, marked.1, marked.2]
      rfl
    · have first : decide (restPattern.ways (d :: (w ++ tail)) ≠ []) = false :=
        decide_eq_false (mt fits.1 marked)
      rw [List.find?_cons, first]
      dsimp only
      rw [ih hw']
      cases w with
      | nil =>
        have other : d ≠ 'd' := fun same => marked ⟨same, rfl⟩
        simp [other]
      | cons e w => rw [List.getLast?_cons_cons]

/-- The name of a module is a word without the final mark. -/
theorem remembered?_ways_namePattern (hw : IsWord w) (ht : IsTail tail) :
    (namePattern.ways (w ++ tail)).head?.bind Way.remembered? = some (withoutMark w) := by
  obtain ⟨given, word⟩ := hw
  obtain ⟨c, w, rfl⟩ := List.exists_cons_of_ne_nil given
  rw [namePattern, remembered?_ways_fewest (by decide), List.cons_append, find?_restsOf word ht,
    Option.map_some, withoutMark, ← List.cons_append]
  have taken : ∀ before rest : List Char, (before ++ rest).take
      ((before ++ rest).length - rest.length) = before := by simp
  rcases List.eq_nil_or_concat w with rfl | ⟨w, d, rfl⟩
  · simp
  · rw [List.concat_eq_append, ← List.cons_append, List.getLast?_concat, List.getLast?_concat,
      List.dropLast_concat]
    by_cases marked : d = 'd'
    · rw [if_pos (by rw [marked]), if_pos ⟨by rw [marked], by simp⟩, marked, List.append_assoc]
      exact congrArg some (taken _ _)
    · have other : ¬ some d = some 'd' := fun same => marked (Option.some.inj same)
      rw [if_neg other, if_neg fun h => other h.1]
      exact congrArg some (taken _ _)

/-- The pattern for the name of a module fits only words with a tail behind them. -/
theorem exists_of_ways_namePattern_ne_nil (h : namePattern.ways cs ≠ []) :
    ∃ w tail, IsWord w ∧ IsTail tail ∧ cs = w ++ tail := by
  rw [namePattern, ways_followedBy_ne_nil, ways, ways] at h
  obtain ⟨way, hw, fits⟩ := h
  simp only [List.mem_map] at hw
  obtain ⟨-, ⟨rest, hr, rfl⟩, rfl⟩ := hw
  obtain ⟨w, given, word, rfl⟩ := mem_restsOf.1 hr
  rcases ways_restPattern_ne_nil.1 fits with tail | ⟨rest, tail, rfl⟩
  · exact ⟨w, _, ⟨given, word⟩, tail, rfl⟩
  · refine ⟨w ++ ['d'], rest, ⟨by simp, fun c hc => ?_⟩, tail, by simp⟩
    rcases List.mem_append.1 hc with hc | hc
    · exact word c hc
    · rw [List.mem_singleton.1 hc]
      decide

/-- What stands behind the first two letters of the pattern. -/
theorem ways_pattern (cs : List Char) : pattern.ways ('Q' :: 't' :: cs) =
    ((Pattern.optional (.oneOf isDecimalDigit)).followedBy namePattern).ways cs := by
  rw [pattern, ways_char_followedBy, ways_char_followedBy]
  rfl

/-- From a library name the module is read off. -/
theorem remembered?_ways_pattern (h : IsLibraryName w cs) :
    (pattern.ways cs).head?.bind Way.remembered? = some (moduleOf w) := by
  obtain ⟨⟨given, word⟩, tail, ht, rfl⟩ := h
  obtain ⟨c, w, rfl⟩ := List.exists_cons_of_ne_nil given
  have whole := remembered?_ways_namePattern ⟨given, word⟩ ht
  rw [ways_pattern, List.cons_append, ways_optional_oneOf_followedBy]
  split
  · next digit =>
    cases w with
    | nil =>
      have none : namePattern.ways tail = [] := by
        by_contra fits
        obtain ⟨w, rest, hw, -, rfl⟩ := exists_of_ways_namePattern_ne_nil fits
        exact hw.1 (eq_nil_of_isTail_append hw.2 ht)
      rw [List.nil_append, none, List.nil_append]
      exact whole
    | cons d w =>
      have named := remembered?_ways_namePattern (w := d :: w)
        ⟨List.cons_ne_nil _ _, fun e he => word e (List.mem_cons_of_mem c he)⟩ ht
      rw [moduleOf, withoutVersion, if_pos digit, ← named, List.head?_append]
      cases fits : (namePattern.ways (d :: w ++ tail)).head? with
      | some way => rfl
      | none =>
        rw [fits] at named
        cases named
  · next digit =>
    cases w with
    | nil => exact whole
    | cons d w =>
      rw [moduleOf, withoutVersion, if_neg digit]
      exact whole

/-- The pattern fits just library names. -/
theorem ways_pattern_ne_nil : pattern.ways cs ≠ [] ↔ ∃ w, IsLibraryName w cs := by
  constructor
  · intro fits
    have begins : ∃ rest, cs = 'Q' :: 't' :: rest := by
      by_contra none
      refine fits ?_
      by_cases first : ∃ rest, cs = 'Q' :: rest
      · obtain ⟨rest, rfl⟩ := first
        rw [pattern, ways_char_followedBy]
        exact ways_char_followedBy_of_ne fun rest' same => none ⟨rest', by rw [same]⟩
      · exact ways_char_followedBy_of_ne fun rest same => first ⟨rest, same⟩
    obtain ⟨rest, rfl⟩ := begins
    rw [ways_pattern] at fits
    have named : ∀ {rest}, namePattern.ways rest ≠ [] →
        ∃ w, IsLibraryName w ('Q' :: 't' :: rest) := by
      intro rest fits
      obtain ⟨w, tail, hw, ht, rfl⟩ := exists_of_ways_namePattern_ne_nil fits
      exact ⟨w, hw, tail, ht, rfl⟩
    cases rest with
    | nil => exact named fits
    | cons c rest =>
      rw [ways_optional_oneOf_followedBy] at fits
      split at fits
      · next digit =>
        rcases eq_or_ne (namePattern.ways rest) [] with none | some
        · rw [none, List.nil_append] at fits
          exact named fits
        · -- Behind the digit there is a word, and so there is with the digit in front of it.
          obtain ⟨w, tail, hw, ht, rfl⟩ := exists_of_ways_namePattern_ne_nil some
          refine ⟨c :: w, ⟨List.cons_ne_nil _ _, ?_⟩, tail, ht, rfl⟩
          exact List.forall_mem_cons.2 ⟨isWord_of_isDecimalDigit digit, hw.2⟩
      · exact named fits
  · rintro ⟨w, h⟩ none
    have read := remembered?_ways_pattern h
    rw [none] at read
    cases read

/-! ## The search -/

/-- The text ends in a library name with the given word, which begins behind some characters. -/
def EndsIn (cs before w : List Char) : Prop := ∃ rest, cs = before ++ rest ∧ IsLibraryName w rest

/-- The text ends in a library name, and in none that begins further to the left. -/
structure IsLeftmost (cs before w : List Char) : Prop where
  /-- A library name is there. -/
  ends : EndsIn cs before w
  /-- None begins before it. -/
  least : ∀ before' w', EndsIn cs before' w' → before.length ≤ before'.length

/-- Where a text ends in a library name, it ends in a leftmost one. -/
theorem EndsIn.exists_isLeftmost {before : List Char} (h : EndsIn cs before w) :
    ∃ before w, IsLeftmost cs before w := by
  classical
  have some : ∃ n, ∃ before w, before.length = n ∧ EndsIn cs before w := ⟨_, before, w, rfl, h⟩
  obtain ⟨before, w, length, ends⟩ := Nat.find_spec some
  refine ⟨before, w, ends, fun before' w' ends' => ?_⟩
  rw [length]
  exact Nat.find_min' some ⟨before', w', rfl, ends'⟩

/-- The module is read off the leftmost library name. -/
theorem IsLeftmost.find? {before : List Char} (h : IsLeftmost cs before w) :
    find? cs = some (moduleOf w) := by
  obtain ⟨⟨rest, rfl, named⟩, least⟩ := h
  rw [ModuleName.find?, search?_append (ways_pattern_ne_nil.2 ⟨w, named⟩),
    remembered?_ways_pattern named]
  intro before' rest' split fits
  obtain ⟨w', named'⟩ := ways_pattern_ne_nil.1 fits
  exact least before' w' ⟨rest', split, named'⟩

/-- Where a text ends in no library name, nothing is found. -/
theorem find?_eq_none (h : ∀ before w, ¬ EndsIn cs before w) : find? cs = none := by
  rw [find?, search?_eq_none]
  · rfl
  · intro before rest split
    by_contra fits
    obtain ⟨w, named⟩ := ways_pattern_ne_nil.1 fits
    exact h before w ⟨rest, split, named⟩

/-- A module always has a name. -/
theorem moduleOf_ne_nil (h : w ≠ []) : moduleOf w ≠ [] := by
  have kept : withoutVersion w ≠ [] := by
    match w with
    | [] => exact absurd rfl h
    | [c] => exact List.cons_ne_nil _ _
    | c :: d :: w =>
      rw [withoutVersion]
      split <;> exact List.cons_ne_nil _ _
  rw [moduleOf, withoutMark]
  split
  · next marked =>
    intro none
    have length := congrArg List.length none
    rw [List.length_dropLast, List.length_nil] at length
    omega
  · exact kept

variable {library : String}

/-- The library belongs to the module that is read off the leftmost library name. -/
theorem IsLeftmost.ofLibrary {before : List Char} (h : IsLeftmost library.toList before w) :
    ofLibrary library = .ok (String.ofList (moduleOf w)) := by
  obtain ⟨rest, -, named⟩ := h.ends
  obtain ⟨c, name, read⟩ := List.exists_cons_of_ne_nil (moduleOf_ne_nil named.1.1)
  rw [ModuleName.ofLibrary, h.find?, read]

/-- Nothing begins further to the left than at the beginning. -/
theorem IsLibraryName.isLeftmost (h : IsLibraryName w cs) : IsLeftmost cs [] w :=
  ⟨⟨cs, rfl, h⟩, fun _ _ _ => Nat.zero_le _⟩

/-- A name that neither begins with a digit nor ends in a mark is what is left if a digit is put
before it or a mark behind it. -/
theorem moduleOf_decorated {version name mark : List Char}
    (hv : version = [] ∨ ∃ d, isDecimalDigit d = true ∧ version = [d]) (given : name ≠ [])
    (first : ∀ c ∈ name.head?, isDecimalDigit c = false) (last : name.getLast? ≠ some 'd')
    (hm : mark = [] ∨ mark = ['d']) : moduleOf (version ++ name ++ mark) = name := by
  obtain ⟨c, w, rfl⟩ := List.exists_cons_of_ne_nil given
  have plain : isDecimalDigit c = false := first c rfl
  have unversioned : withoutVersion (version ++ (c :: w) ++ mark) = c :: w ++ mark := by
    rcases hv with rfl | ⟨d, digit, rfl⟩
    · rw [List.nil_append, List.cons_append]
      cases w ++ mark with
      | nil => rfl
      | cons e rest => simp [withoutVersion, plain]
    · simp [withoutVersion, digit]
  rw [moduleOf, unversioned, withoutMark]
  rcases hm with rfl | rfl
  · rw [List.append_nil, if_neg fun h => last h.1]
  · rw [if_pos ⟨List.getLast?_concat, by simp⟩, List.dropLast_concat]

/-- A library belongs to a module just if its name ends in a library name: `Qt`, a word, perhaps an
extension and perhaps a line end. The leftmost one counts, and the module is its word without the
digit in front and without the mark at the end, as long as something remains. Every other name is
reported as a fault of the configuration. So a name that neither begins with a digit nor ends in a
mark is found between a digit and a mark, each of which may be missing, with or without an
extension. -/
theorem ofLibrary_grammar (library : String) :
    ((∃ name, ofLibrary library = .ok name) ↔ ∃ before w, EndsIn library.toList before w) ∧
      (∀ before w, IsLeftmost library.toList before w →
        ofLibrary library = .ok (String.ofList (moduleOf w))) ∧
      ((∀ before w, ¬ EndsIn library.toList before w) →
        ofLibrary library = .error (.unnamedModule library) ∧
          (Fault.unnamedModule library).isConfiguration = true) ∧
      ∀ version name mark extension,
        (version = [] ∨ ∃ d, isDecimalDigit d = true ∧ version = [d]) → IsWord name →
        (∀ c ∈ name.head?, isDecimalDigit c = false) → name.getLast? ≠ some 'd' →
        (mark = [] ∨ mark = ['d']) → (extension = [] ∨ ∃ e, IsWord e ∧ extension = '.' :: e) →
        library.toList = 'Q' :: 't' :: (version ++ name ++ mark ++ extension) →
        ofLibrary library = .ok (String.ofList name) := by
  have refused : (∀ before w, ¬ EndsIn library.toList before w) →
      ofLibrary library = .error (.unnamedModule library) := by
    intro none
    rw [ofLibrary, find?_eq_none none]
  refine ⟨⟨?_, ?_⟩, fun before w leftmost => leftmost.ofLibrary,
    fun none => ⟨refused none, rfl⟩, ?_⟩
  · rintro ⟨name, found⟩
    by_contra none
    rw [refused fun before w ends => none ⟨before, w, ends⟩] at found
    cases found
  · rintro ⟨before, w, ends⟩
    obtain ⟨before, w, leftmost⟩ := ends.exists_isLeftmost
    exact ⟨_, leftmost.ofLibrary⟩
  · intro version name mark extension hv hn first last hm he whole
    have word : IsWord (version ++ name ++ mark) := by
      refine ⟨by simp [hn.1], fun c hc => ?_⟩
      rw [List.mem_append, List.mem_append] at hc
      rcases hc with (hc | hc) | hc
      · rcases hv with rfl | ⟨d, digit, rfl⟩
        · cases hc
        · exact List.mem_singleton.1 hc ▸ isWord_of_isDecimalDigit digit
      · exact hn.2 c hc
      · rcases hm with rfl | rfl
        · cases hc
        · rw [List.mem_singleton.1 hc]
          decide
    have tail : IsTail extension := by
      rcases he with rfl | ⟨e, he, rfl⟩
      · exact .inl (.inl rfl)
      · exact .inr ⟨e, [], he, .inl rfl, by rw [List.append_nil]⟩
    have named : IsLibraryName (version ++ name ++ mark) library.toList :=
      ⟨word, extension, tail, whole⟩
    rw [named.isLeftmost.ofLibrary, moduleOf_decorated hv hn.1 first last hm]

/-- Of two library names in one name, the left one counts; it is marked as a debug build. -/
theorem ofLibrary_grammar_sample :
    IsLeftmost "libQt5QtGuid.so\n".toList "lib".toList "5QtGuid".toList ∧
      ofLibrary "libQt5QtGuid.so\n" = .ok "QtGui" := by
  have tail : IsTail ".so\n".toList := .inr ⟨"so".toList, ['\n'], by decide, by decide, rfl⟩
  have leftmost : IsLeftmost "libQt5QtGuid.so\n".toList "lib".toList "5QtGuid".toList := by
    refine ⟨⟨"Qt5QtGuid.so\n".toList, rfl, by decide, ".so\n".toList, tail, rfl⟩, ?_⟩
    rintro before w ⟨rest, split, -, tail, -, rfl⟩
    match before with
    | [] | [_] | [_, _] => simp at split
    | _ :: _ :: _ :: before => simp
  exact ⟨leftmost, (ofLibrary_grammar _).2.1 _ _ leftmost⟩

end ModuleName

end Bindery
