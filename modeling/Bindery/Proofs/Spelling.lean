import Bindery.TypeSpelling
import Mathlib.Data.List.SplitBy

/-!
# What a bare type says of a spelling

A bare type comes of a whole spelling: qualifiers and marks are blanked out, and the words that are
left are put together again. If a single word is left, then this word stands in the spelling as a
stretch of its own, and everything else in the spelling is a qualifier, a blank or a mark. Main
statements: `TypeSpelling.bare_eq_iff`, `TypeSpelling.bare_eq_void_iff`.
-/

namespace Bindery

namespace Text

/-! ## Word characters and blanks -/

namespace Ranges

/-- A code point that is covered lies in one of the ranges. -/
theorem exists_of_coversCode {ranges : Ranges} {n : Nat} (h : ranges.coversCode n = true) :
    ∃ r ∈ ranges, r.1 ≤ n ∧ n ≤ r.2 := by
  induction ranges with
  | nil => cases h
  | cons r rest ih =>
    rw [coversCode] at h
    split at h
    · cases h
    · next low =>
      rw [Bool.or_eq_true] at h
      rcases h with high | others
      · exact ⟨r, List.mem_cons_self, Nat.le_of_not_lt low, of_decide_eq_true high⟩
      · obtain ⟨s, hs, inside⟩ := ih others
        exact ⟨s, List.mem_cons_of_mem _ hs, inside⟩

/-- Whether every range of one list lies on one side of every range of another. -/
def areApart (ranges others : Ranges) : Bool :=
  ranges.all fun r => others.all fun s => Nat.blt r.2 s.1 || Nat.blt s.2 r.1

/-- Ranges that lie apart cover no code point in common. -/
theorem coversCode_of_areApart {ranges others : Ranges} (h : ranges.areApart others = true)
    {n : Nat} (hn : ranges.coversCode n = true) : others.coversCode n = false := by
  rw [← Bool.not_eq_true]
  intro hs
  obtain ⟨r, hr, low, high⟩ := exists_of_coversCode hn
  obtain ⟨s, hs, low', high'⟩ := exists_of_coversCode hs
  have side := List.all_eq_true.1 (List.all_eq_true.1 h r hr) s hs
  rw [Bool.or_eq_true, Nat.blt_eq, Nat.blt_eq] at side
  omega

end Ranges

/-- No blank is a word character. -/
theorem isWord_of_isBlank {c : Char} (h : isBlank c = true) : isWord c = false := by
  have blank : blanks.coversCode c.toNat = true := h
  have letter : isLetter c = false := Ranges.coversCode_of_areApart (by decide +kernel) blank
  have numeral : isNumeral c = false := Ranges.coversCode_of_areApart (by decide +kernel) blank
  have underscore : (c == '_') = false := by
    rw [beq_eq_false_iff_ne]
    rintro rfl
    revert h
    decide
  rw [isWord, underscore, letter, numeral]
  rfl

/-! ## Words -/

/-- Up to the first separator nothing is cut. -/
theorem cut_append {isSeparator : Char → Bool} {piece : List Char}
    (h : ∀ c ∈ piece, isSeparator c = false) (rest : List Char) :
    cut isSeparator (piece ++ rest) =
      (piece ++ (cut isSeparator rest).headD []) :: (cut isSeparator rest).tail := by
  induction piece with
  | nil =>
    cases hc : cut isSeparator rest with
    | nil => exact absurd hc (cut_ne_nil _ _)
    | cons first others => rw [List.nil_append, hc]; rfl
  | cons c piece ih =>
    rw [List.cons_append, cut, if_neg (by simp [h c List.mem_cons_self]),
      ih fun d hd => h d (List.mem_cons_of_mem _ hd)]
    rfl

/-- A separator cuts a text in two. -/
theorem cut_append_cons (isSeparator : Char → Bool) {c : Char} (h : isSeparator c = true)
    (front back : List Char) :
    cut isSeparator (front ++ c :: back) = cut isSeparator front ++ cut isSeparator back := by
  induction front with
  | nil => simp [cut, h]
  | cons d front ih =>
    rw [List.cons_append, cut, cut, ih]
    by_cases hd : isSeparator d = true
    · simp [hd]
    · cases pieces : cut isSeparator front with
      | nil => exact absurd pieces (cut_ne_nil isSeparator front)
      | cons piece pieces => simp [hd]

/-- A blank in front makes no difference to the words. -/
theorem words_cons_of_isBlank {c : Char} (h : isBlank c = true) (cs : List Char) :
    words (c :: cs) = words cs := by
  rw [words, cut, if_pos h]
  rfl

/-- Blanks in front make no difference to the words. -/
theorem words_append_of_blanks {before : List Char} (h : ∀ c ∈ before, isBlank c = true)
    (cs : List Char) : words (before ++ cs) = words cs := by
  induction before with
  | nil => rfl
  | cons c before ih =>
    rw [List.cons_append, words_cons_of_isBlank (h c List.mem_cons_self),
      ih fun d hd => h d (List.mem_cons_of_mem _ hd)]

/-- A stretch without blanks is the first word, if it ends with the text or before a blank. -/
theorem words_append {word rest : List Char} (hw : word ≠ [])
    (h : ∀ c ∈ word, isBlank c = false) (hr : ∀ c ∈ rest.head?, isBlank c = true) :
    words (word ++ rest) = word :: words rest := by
  have given : (!word.isEmpty) = true := by simpa using hw
  rw [words, cut_append h]
  cases rest with
  | nil => simp [cut, words, given]
  | cons c rest =>
    rw [cut, if_pos (hr c rfl), words_cons_of_isBlank (hr c rfl)]
    simp [words, given]

/-- Unless there are only blanks, a text is some blanks, a word, and what does not go on with it. -/
theorem blanks_or_exists_word (cs : List Char) : (∀ c ∈ cs, isBlank c = true) ∨
    ∃ before word rest, cs = before ++ (word ++ rest) ∧ (∀ c ∈ before, isBlank c = true) ∧
      word ≠ [] ∧ (∀ c ∈ word, isBlank c = false) ∧ ∀ c ∈ rest.head?, isBlank c = true := by
  induction cs with
  | nil => exact Or.inl nofun
  | cons c cs ih =>
    cases hc : isBlank c with
    | true =>
      rcases ih with blanks | ⟨before, word, rest, rfl, blanks, others⟩
      · exact Or.inl (List.forall_mem_cons.2 ⟨hc, blanks⟩)
      · exact Or.inr ⟨c :: before, word, rest, rfl, List.forall_mem_cons.2 ⟨hc, blanks⟩, others⟩
    | false =>
      -- The word that begins here ends before the next blank.
      rcases ih with blanks | ⟨before, word, rest, rfl, blanks, -, unbroken, stop⟩
      · refine Or.inr ⟨[], [c], cs, rfl, nofun, by simp, by simpa using hc, fun d hd => ?_⟩
        exact blanks d (List.mem_of_head? hd)
      · cases before with
        | nil =>
          exact Or.inr ⟨[], c :: word, rest, rfl, nofun, by simp,
            List.forall_mem_cons.2 ⟨hc, unbroken⟩, stop⟩
        | cons d before =>
          refine Or.inr ⟨[], [c], _, rfl, nofun, by simp, by simpa using hc, fun e he => ?_⟩
          obtain rfl := Option.some.inj he
          exact blanks d List.mem_cons_self

/-- There are no words just if there are only blanks. -/
theorem words_eq_nil_iff {cs : List Char} : words cs = [] ↔ ∀ c ∈ cs, isBlank c = true := by
  constructor
  · intro h
    rcases blanks_or_exists_word cs with blanks | ⟨before, word, rest, rfl, hb, hw, unbroken, stop⟩
    · exact blanks
    · rw [words_append_of_blanks hb, words_append hw unbroken stop] at h
      cases h
  · intro h
    have none := words_append_of_blanks h []
    rwa [List.append_nil] at none

/-- There is a single word just if it stands among blanks. -/
theorem words_eq_singleton_iff {cs word : List Char} (hw : word ≠ [])
    (unbroken : ∀ c ∈ word, isBlank c = false) : words cs = [word] ↔
      ∃ before after, cs = before ++ (word ++ after) ∧ (∀ c ∈ before, isBlank c = true) ∧
        ∀ c ∈ after, isBlank c = true := by
  constructor
  · intro h
    rcases blanks_or_exists_word cs with blanks | ⟨before, first, rest, rfl, hb, hf, unbroken', stop⟩
    · rw [words_eq_nil_iff.2 blanks] at h
      cases h
    · rw [words_append_of_blanks hb, words_append hf unbroken' stop] at h
      obtain ⟨rfl, none⟩ := List.cons.inj h
      exact ⟨before, rest, rfl, hb, words_eq_nil_iff.1 none⟩
  · rintro ⟨before, after, rfl, hb, ha⟩
    rw [words_append_of_blanks hb, words_append hw unbroken fun c hc => ha c (List.mem_of_head? hc),
      words_eq_nil_iff.2 ha]

/-- Words that are put together to one without blanks are a single word. -/
theorem unwords_eq_iff {ws : List (List Char)} {word : List Char} (hw : word ≠ [])
    (unbroken : ∀ c ∈ word, isBlank c = false) : unwords ws = word ↔ ws = [word] := by
  constructor
  · intro h
    match ws with
    | [] => exact absurd h.symm hw
    | [first] => rw [← h, unwords_singleton]
    | first :: second :: rest =>
      -- Between the first two words there is a blank.
      have space : ' ' ∈ word := by
        rw [← h, unwords_cons first (List.cons_ne_nil second rest)]
        simp
      exact absurd (unbroken ' ' space) (by decide)
  · rintro rfl
    exact unwords_singleton word

/-! ## Stretches -/

/-- Whether texts alternate between such of word characters and such of other characters. -/
structure AreStretches (ss : List (List Char)) : Prop where
  /-- None is empty. -/
  nonempty : ∀ s ∈ ss, s ≠ []
  /-- The characters of one are of the same kind. -/
  uniform : ∀ s ∈ ss, ∀ c ∈ s, ∀ d ∈ s, isWord c = isWord d
  /-- The characters of neighbours are of different kinds. -/
  alternate : ss.IsChain fun s s' => ∀ c ∈ s, ∀ d ∈ s', isWord c ≠ isWord d

/-- The characters of a text are those of its stretches. -/
theorem mem_iff_exists_stretch {cs : List Char} {c : Char} :
    c ∈ cs ↔ ∃ s ∈ stretches cs, c ∈ s := by
  rw [← List.mem_flatten, stretches, List.flatten_splitBy]

/-- Behind a stretch there are stretches. -/
theorem AreStretches.tail {s : List Char} {ss : List (List Char)} (h : AreStretches (s :: ss)) :
    AreStretches ss where
  nonempty s' hs := h.nonempty s' (List.mem_cons_of_mem _ hs)
  uniform s' hs := h.uniform s' (List.mem_cons_of_mem _ hs)
  alternate := (List.isChain_cons.1 h.alternate).2

/-- A text is cut into stretches. -/
theorem areStretches_stretches (cs : List Char) : AreStretches (stretches cs) := by
  have uniform : ∀ s ∈ stretches cs, ∀ c ∈ s, ∀ d ∈ s, isWord c = isWord d := by
    intro s hs c hc d hd
    have chain : s.IsChain fun c d => isWord c = isWord d :=
      (List.isChain_of_mem_splitBy hs).imp fun _ _ same => beq_iff_eq.1 same
    have pairs := List.pairwise_iff_getElem.1 (List.isChain_iff_pairwise.1 chain)
    obtain ⟨i, hi, rfl⟩ := List.getElem_of_mem hc
    obtain ⟨j, hj, rfl⟩ := List.getElem_of_mem hd
    rcases Nat.lt_trichotomy i j with hij | rfl | hji
    · exact pairs i j hi hj hij
    · rfl
    · exact (pairs j i hj hi hji).symm
  refine ⟨fun s hs => List.ne_nil_of_mem_splitBy hs, uniform, ?_⟩
  refine (List.isChain_getLast_head_splitBy _ cs).imp_of_mem_imp ?_
  rintro s s' hs hs' ⟨ha, hb, differ⟩ c hc d hd
  rw [uniform s hs c hc _ (List.getLast_mem ha), uniform s' hs' d hd _ (List.head_mem hb)]
  exact beq_eq_false_iff_ne.1 differ

end Text

namespace TypeSpelling

open Text

/-- Whether a spelling is a word and, besides it, consists only of certain other words, of blanks
and of certain marks. -/
def Wraps (others : List (List Char)) (marks : List Char) (word : List Char) (spelling : String) :
    Prop :=
  ∃ before after, stretches spelling.toList = before ++ word :: after ∧
    ∀ s ∈ before ++ after, s ∈ others ∨ ∀ c ∈ s, isBlank c = true ∨ c ∈ marks

/-- The marks of pointers and references. -/
def indirections : List Char := ['*', '&']

/-- What is left of a stretch: a qualifier is blanked out, and so are marks. -/
def residue (s : List Char) : List Char :=
  dropMarks (if qualifiers.contains s then [' '] else s)

/-- A blank is left of a qualifier. -/
theorem residue_of_mem {s : List Char} (h : s ∈ qualifiers) : residue s = [' '] := by
  rw [residue, if_pos (List.contains_iff_mem.2 h)]
  rfl

/-- All but the marks is left of other stretches. -/
theorem residue_of_notMem {s : List Char} (h : s ∉ qualifiers) :
    residue s = s.map fun c => if c = '*' ∨ c = '&' then ' ' else c := by
  rw [residue, if_neg (mt List.contains_iff_mem.1 h), dropMarks]

/-- What is left of a spelling is what is left of its stretches. -/
theorem dropMarks_dropQualifiers (cs : List Char) :
    dropMarks (dropQualifiers cs) = (stretches cs).flatMap residue := by
  rw [dropQualifiers, mapStretches, dropMarks, List.map_flatMap]
  refine congrArg (fun f => (stretches cs).flatMap f) (funext fun s => ?_)
  by_cases hq : s ∈ qualifiers
  · rw [residue_of_mem hq, if_pos hq]
    rfl
  · rw [residue_of_notMem hq, if_neg hq]

/-- Only blanks are left of a stretch just if it is a qualifier, or consists of blanks and marks. -/
theorem blanks_residue_iff {s : List Char} : (∀ c ∈ residue s, isBlank c = true) ↔
    s ∈ qualifiers ∨ ∀ c ∈ s, isBlank c = true ∨ c ∈ indirections := by
  have mark : ∀ c : Char, isBlank (if c = '*' ∨ c = '&' then ' ' else c) = true ↔
      isBlank c = true ∨ c ∈ indirections := by
    intro c
    rw [indirections, List.mem_pair]
    split
    · next hc => exact iff_of_true (by decide) (Or.inr hc)
    · next hc => simp [hc]
  by_cases hq : s ∈ qualifiers
  · rw [residue_of_mem hq]
    exact iff_of_true (List.forall_mem_singleton.2 (by decide)) (Or.inl hq)
  · rw [residue_of_notMem hq, List.forall_mem_map, or_iff_right hq]
    exact forall₂_congr fun c _ => mark c

/-- No qualifier is empty, and all consist of word characters. -/
theorem isWord_of_mem_qualifiers : ∀ s ∈ qualifiers, s ≠ [] ∧ ∀ c ∈ s, isWord c = true := by
  have table : (qualifiers.all fun s => !s.isEmpty && s.all isWord) = true := by decide
  intro s hs
  have row := List.all_eq_true.1 table s hs
  rwa [Bool.and_eq_true, Bool.not_eq_true', List.isEmpty_eq_false_iff, List.all_eq_true] at row

/-- Nothing is lost of a word that is no qualifier. -/
theorem residue_of_isWord {s : List Char} (hs : s ∉ qualifiers) (h : ∀ c ∈ s, isWord c = true) :
    residue s = s := by
  rw [residue_of_notMem hs]
  refine (List.map_congr_left fun c hc => ?_).trans (List.map_id s)
  have word := h c hc
  rw [if_neg]
  · rfl
  · rintro (rfl | rfl) <;> exact absurd word (by decide)

/-- Something is left of every stretch. -/
theorem residue_ne_nil {s : List Char} (hs : s ≠ []) : residue s ≠ [] := by
  by_cases hq : s ∈ qualifiers
  · rw [residue_of_mem hq]
    exact List.cons_ne_nil _ _
  · rwa [residue_of_notMem hq, Ne, List.map_eq_nil_iff]

/-- Of other characters than word characters such are left. -/
theorem isWord_of_mem_residue {s : List Char} (h : ∀ c ∈ s, isWord c = false) :
    ∀ c ∈ residue s, isWord c = false := by
  by_cases hq : s ∈ qualifiers
  · rw [residue_of_mem hq]
    exact List.forall_mem_singleton.2 (by decide)
  · rw [residue_of_notMem hq, List.forall_mem_map]
    intro c hc
    split
    · decide
    · exact h c hc

section Word

variable {word before after : List Char} (given : word ≠ [])
  (letters : ∀ c ∈ word, isWord c = true) (hb : ∀ c ∈ before, isBlank c = true)
  (ha : ∀ c ∈ after, isBlank c = true)

include letters in
/-- There are no blanks in a word. -/
theorem isBlank_of_mem_word : ∀ c ∈ word, isBlank c = false := by
  intro c hc
  rw [← Bool.not_eq_true]
  intro blank
  have other := isWord_of_isBlank blank
  rw [letters c hc] at other
  cases other

include given letters hb in
/-- If a text with a single word begins with blanks, the word comes behind them. -/
theorem exists_of_blanks_append {blanks rest : List Char} (h : ∀ c ∈ blanks, isBlank c = true)
    (eq : blanks ++ rest = before ++ (word ++ after)) :
    ∃ more, (∀ c ∈ more, isBlank c = true) ∧ rest = more ++ (word ++ after) := by
  rcases List.append_eq_append_iff.1 eq with ⟨more, rfl, rest⟩ | ⟨more, rfl, rest⟩
  · exact ⟨more, fun c hc => hb c (List.mem_append_right _ hc), rest⟩
  · cases more with
    | nil => exact ⟨[], nofun, rest.symm⟩
    | cons c more =>
      obtain ⟨d, letters', rfl⟩ := List.exists_cons_of_ne_nil given
      obtain ⟨rfl, -⟩ := List.cons.inj rest
      have blank := h d (List.mem_append_right _ List.mem_cons_self)
      rw [isBlank_of_mem_word letters d List.mem_cons_self] at blank
      cases blank

include letters hb ha in
/-- If something is left of a stretch before and behind which there are blanks at most but for a
single word, the stretch is a word that is no qualifier. -/
theorem isWord_of_residue {s rest : List Char}
    (uniform : ∀ c ∈ s, ∀ d ∈ s, isWord c = isWord d)
    (eq : residue s ++ rest = before ++ (word ++ after))
    (h : ¬ ∀ c ∈ residue s, isBlank c = true) : s ∉ qualifiers ∧ ∀ c ∈ s, isWord c = true := by
  have free : s ∉ qualifiers := fun hq => h (blanks_residue_iff.2 (Or.inl hq))
  refine ⟨free, ?_⟩
  by_contra other
  have none : ∀ c ∈ s, isWord c = false := by
    intro c hc
    rw [← Bool.not_eq_true]
    exact fun hw => other fun d hd => (uniform d hd c hc).trans hw
  refine h fun c hc => ?_
  have there : c ∈ before ++ (word ++ after) := eq ▸ List.mem_append_left rest hc
  rcases List.mem_append.1 there with there | there
  · exact hb c there
  · rcases List.mem_append.1 there with there | there
    · have letter := isWord_of_mem_residue none c hc
      rw [letters c there] at letter
      cases letter
    · exact ha c there

include letters ha in
/-- A stretch with which a single word begins is the word: what comes next is no word character. -/
theorem eq_of_stretch_append {s : List Char} {ss : List (List Char)} (h : AreStretches (s :: ss))
    (hs : ∀ c ∈ s, isWord c = true) (eq : s ++ ss.flatMap residue = word ++ after) : s = word := by
  have nonempty := h.nonempty s List.mem_cons_self
  obtain ⟨first, hf⟩ := List.exists_mem_of_ne_nil s nonempty
  rcases List.append_eq_append_iff.1 eq with ⟨more, hw, rest⟩ | ⟨more, rfl, rest⟩
  · cases more with
    | nil => rw [hw, List.append_nil]
    | cons c more =>
      -- The next stretch would begin with a word character.
      cases ss with
      | nil => cases rest
      | cons s' ss =>
        have other : ∀ d ∈ s', isWord d = false := by
          intro d hd
          have differ := (List.isChain_cons.1 h.alternate).1 s' rfl first hf d hd
          rw [hs first hf] at differ
          simpa using differ.symm
        obtain ⟨d, left, hl⟩ := List.exists_cons_of_ne_nil
          (residue_ne_nil (h.nonempty s' (by simp)))
        rw [List.flatMap_cons, hl] at rest
        obtain ⟨rfl, -⟩ := List.cons.inj rest
        have none := isWord_of_mem_residue other d (hl ▸ List.mem_cons_self)
        rw [letters d (hw ▸ by simp)] at none
        cases none
  · cases more with
    | nil => rw [List.append_nil]
    | cons c more =>
      have blank := ha c (rest ▸ by simp)
      rw [isBlank_of_mem_word hs c (by simp)] at blank
      cases blank

include given letters hb ha in
/-- If a single word is left of stretches, it is one of them, and only blanks are left of the
others. -/
theorem exists_of_flatMap_residue {ss : List (List Char)} (h : AreStretches ss)
    (eq : ss.flatMap residue = before ++ (word ++ after)) :
    ∃ earlier later, ss = earlier ++ word :: later ∧
      ∀ s ∈ earlier ++ later, ∀ c ∈ residue s, isBlank c = true := by
  induction ss generalizing before with
  | nil => exact absurd (List.append_eq_nil_iff.1 (List.append_eq_nil_iff.1 eq.symm).2).1 given
  | cons s ss ih =>
    rw [List.flatMap_cons] at eq
    by_cases blanks : ∀ c ∈ residue s, isBlank c = true
    · obtain ⟨more, hm, rest⟩ := exists_of_blanks_append given letters hb blanks eq
      obtain ⟨earlier, later, rfl, others⟩ := ih hm h.tail rest
      exact ⟨s :: earlier, later, rfl, List.forall_mem_cons.2 ⟨blanks, others⟩⟩
    · obtain ⟨free, hs⟩ := isWord_of_residue letters hb ha
        (h.uniform s List.mem_cons_self) eq blanks
      rw [residue_of_isWord free hs] at eq
      -- The stretch begins with no blank, so the word is not behind it.
      obtain rfl : before = [] := by
        cases before with
        | nil => rfl
        | cons c before =>
          obtain ⟨d, more, rfl⟩ := List.exists_cons_of_ne_nil (h.nonempty s List.mem_cons_self)
          obtain ⟨rfl, -⟩ := List.cons.inj eq
          have blank := hb d List.mem_cons_self
          rw [isBlank_of_mem_word hs d List.mem_cons_self] at blank
          cases blank
      obtain rfl := eq_of_stretch_append letters ha h hs eq
      have rest := List.append_cancel_left eq
      refine ⟨[], ss, rfl, fun s' hs' c hc => ha c ?_⟩
      rw [← rest]
      exact List.mem_flatMap.2 ⟨s', hs', hc⟩

include given letters in
/-- The bare type of a spelling is a certain word just if the spelling is the word and, besides it,
consists only of qualifiers, blanks and the marks of pointers and references. -/
theorem bare_eq_iff (free : word ∉ qualifiers) (spelling : String) :
    bare spelling = String.ofList word ↔ Wraps qualifiers indirections word spelling := by
  have unbroken := isBlank_of_mem_word letters
  rw [bare, String.ofList_inj, bareChars, unwords_eq_iff given unbroken,
    words_eq_singleton_iff given unbroken, dropMarks_dropQualifiers, Wraps]
  constructor
  · rintro ⟨before, after, eq, hb, ha⟩
    obtain ⟨earlier, later, hs, others⟩ := exists_of_flatMap_residue given letters hb ha
      (areStretches_stretches spelling.toList) eq
    exact ⟨earlier, later, hs, fun s hs => blanks_residue_iff.1 (others s hs)⟩
  · rintro ⟨earlier, later, hs, others⟩
    refine ⟨earlier.flatMap residue, later.flatMap residue, ?_, ?_, ?_⟩
    · rw [hs, List.flatMap_append, List.flatMap_cons, residue_of_isWord free letters]
    · intro c hc
      obtain ⟨s, hs, hc⟩ := List.mem_flatMap.1 hc
      exact blanks_residue_iff.2 (others s (List.mem_append_left _ hs)) c hc
    · intro c hc
      obtain ⟨s, hs, hc⟩ := List.mem_flatMap.1 hc
      exact blanks_residue_iff.2 (others s (List.mem_append_right _ hs)) c hc

end Word

/-! ## Void -/

/-- The spelling of void. -/
def voidWord : List Char := "void".toList

/-- The words that qualify a type. -/
def cvQualifiers : List (List Char) := ["const".toList, "volatile".toList]

/-- The words that elaborate a type. -/
def elaborations : List (List Char) := ["struct".toList, "class".toList, "enum".toList]

/-- Void is a word. -/
theorem isWord_of_mem_voidWord : ∀ c ∈ voidWord, isWord c = true :=
  List.all_eq_true.1 (by decide)

/-- The words that qualify a type are qualifiers. -/
theorem mem_qualifiers_of_mem_cvQualifiers : ∀ s ∈ cvQualifiers, s ∈ qualifiers := by decide

/-- Whether a spelling is that of void, qualified or not. -/
def IsVoid (spelling : String) : Prop := Wraps cvQualifiers [] voidWord spelling

/-- Whether a spelling is that of void behind something that says it is another type: the mark of a
pointer or a reference, or an elaboration. -/
def HidesVoid (spelling : String) : Prop :=
  Wraps qualifiers indirections voidWord spelling ∧
    ((∃ c ∈ spelling.toList, c ∈ indirections) ∨
      ∃ s ∈ stretches spelling.toList, s ∈ elaborations)

/-- A word with less around it is a word with more around it. -/
theorem Wraps.mono {others others' : List (List Char)} {marks marks' word : List Char}
    {spelling : String} (h : Wraps others marks word spelling)
    (words : ∀ s ∈ others, s ∈ others') (signs : ∀ c ∈ marks, c ∈ marks') :
    Wraps others' marks' word spelling := by
  obtain ⟨before, after, hs, around⟩ := h
  refine ⟨before, after, hs, fun s hs => (around s hs).imp (words s) fun blank c hc => ?_⟩
  exact (blank c hc).imp_right (signs c)

/-- No mark occurs in a spelling of void. -/
theorem IsVoid.not_mem_indirections {spelling : String} (h : IsVoid spelling) :
    ∀ c ∈ spelling.toList, c ∉ indirections := by
  have sign : ∀ c ∈ indirections, isBlank c = false ∧ isWord c = false := by
    intro c hc
    rcases List.mem_pair.1 hc with rfl | rfl <;> decide
  obtain ⟨before, after, hs, around⟩ := h
  intro c hc mark
  obtain ⟨solid, other⟩ := sign c mark
  obtain ⟨s, there, hc⟩ := mem_iff_exists_stretch.1 hc
  rw [hs, List.mem_append, List.mem_cons] at there
  rcases or_left_comm.1 there with rfl | there
  · rw [isWord_of_mem_voidWord c hc] at other
    cases other
  · rcases around s (List.mem_append.2 there) with qualifier | blank
    · have word := isWord_of_mem_qualifiers s (mem_qualifiers_of_mem_cvQualifiers s qualifier)
      rw [word.2 c hc] at other
      cases other
    · rw [(blank c hc).resolve_right List.not_mem_nil] at solid
      cases solid

/-- The bare type of a spelling is void just if it is spelled as void, or hides void. -/
theorem bare_eq_void_iff (spelling : String) :
    bare spelling = "void" ↔ IsVoid spelling ∨ HidesVoid spelling := by
  have wraps : bare spelling = "void" ↔ Wraps qualifiers indirections voidWord spelling :=
    bare_eq_iff (List.cons_ne_nil _ _) isWord_of_mem_voidWord (by decide) spelling
  rw [wraps]
  constructor
  · intro h
    by_cases hides : (∃ c ∈ spelling.toList, c ∈ indirections) ∨
        ∃ s ∈ stretches spelling.toList, s ∈ elaborations
    · exact Or.inr ⟨h, hides⟩
    · left
      obtain ⟨unmarked, plain⟩ := not_or.1 hides
      have kinds : ∀ s ∈ qualifiers, s ∈ cvQualifiers ∨ s ∈ elaborations := by decide
      obtain ⟨before, after, hs, around⟩ := h
      refine ⟨before, after, hs, fun s there => ?_⟩
      have stretch : s ∈ stretches spelling.toList := by
        rw [hs]
        exact List.mem_append.2 ((List.mem_append.1 there).imp_right (List.mem_cons_of_mem _))
      refine (around s there).imp (fun qualifier => ?_) fun blank c hc => ?_
      · exact (kinds s qualifier).resolve_right fun elaborated => plain ⟨s, stretch, elaborated⟩
      · exact Or.inl ((blank c hc).resolve_right fun mark =>
          unmarked ⟨c, mem_iff_exists_stretch.2 ⟨s, stretch, hc⟩, mark⟩)
  · rintro (h | h)
    · exact h.mono mem_qualifiers_of_mem_cvQualifiers nofun
    · exact h.1

end TypeSpelling

end Bindery
