import Bindery.Proofs.Spacing

/-!
# What the bare type does not depend on

Blanking out qualifiers and marks is done part by part wherever no word goes on, so the words of a
bare type are found part by part between blanks and marks. This is why blanks and trimmings make no
difference to a bare type, and why reducing it once more finds nothing left to blank out. The bare
types are exactly the spellings that are reduced to themselves. Main statements:
`bareChars_eq_self_iff`, `bare_respelled`.
-/

namespace Bindery.TypeSpelling

open Text

/-! ## What is left of a spelling -/

/-- A spelling with blanks in place of its qualifiers and marks. -/
def remainder (cs : List Char) : List Char := dropMarks (dropQualifiers cs)

/-- Of a run of characters of one kind is left what is left of a stretch. -/
theorem remainder_of_run {b : Bool} {r : List Char} (run : ∀ c ∈ r, isWord c = b) :
    remainder r = residue r := by
  by_cases given : r = []
  · rw [given]
    rfl
  · have chain : r.IsChain fun c d => (isWord c == isWord d) = true :=
      (List.pairwise_of_forall_mem_list fun c hc d hd =>
        beq_iff_eq.2 ((run c hc).trans (run d hd).symm)).isChain
    rw [remainder, dropMarks_dropQualifiers, stretches, List.splitBy_of_isChain given chain]
    exact List.flatMap_singleton _ _

/-- What is left of a run of characters of one kind is found apart from what comes behind it. -/
theorem remainder_append_of_run {b : Bool} {r cs : List Char} (run : ∀ c ∈ r, isWord c = b)
    (stop : ∀ c ∈ cs.head?, isWord c = !b) : remainder (r ++ cs) = remainder r ++ remainder cs := by
  have cut : stretches (r ++ cs) = stretches r ++ stretches cs := by
    refine List.splitBy_append fun c hc d hd => ?_
    rw [run c (List.mem_of_mem_getLast? hc), stop d hd]
    cases b <;> rfl
  simp only [remainder, dropMarks_dropQualifiers, cut, List.flatMap_append]

/-- Other characters than word characters are no qualifier. -/
theorem notMem_qualifiers_of_others {s : List Char} (h : ∀ c ∈ s, isWord c = false) :
    s ∉ qualifiers := by
  intro hq
  obtain ⟨given, letters⟩ := isWord_of_mem_qualifiers s hq
  obtain ⟨c, hc⟩ := List.exists_mem_of_ne_nil s given
  have letter := letters c hc
  rw [h c hc] at letter
  cases letter

/-- Of other characters than word characters all but the marks is left. -/
theorem remainder_of_others {s : List Char} (h : ∀ c ∈ s, isWord c = false) :
    remainder s = dropMarks s := by
  rw [remainder_of_run h, residue_of_notMem (notMem_qualifiers_of_others h), dropMarks]

/-- A character that is no word character is blanked out or kept on its own. -/
theorem remainder_cons_of_other {c : Char} (h : isWord c = false) (cs : List Char) :
    remainder (c :: cs) = remainder [c] ++ remainder cs := by
  have alone : ∀ d ∈ [c], isWord d = false := by simpa using h
  -- The stretch that begins with the character ends where the next word begins.
  induction cs using run_induction (p := isWord) (b := false) with
  | nil => exact (List.append_nil _).symm
  | other d cs letter _ => exact remainder_append_of_run alone (by simpa using letter)
  | run r cs _ others stop _ =>
    have all : ∀ d ∈ c :: r, isWord d = false := List.forall_mem_cons.2 ⟨h, others⟩
    calc remainder (c :: r ++ cs)
        = dropMarks (c :: r) ++ remainder cs := by
          rw [remainder_append_of_run all stop, remainder_of_others all]
      _ = dropMarks [c] ++ (dropMarks r ++ remainder cs) := rfl
      _ = remainder [c] ++ remainder (r ++ cs) := by
          rw [remainder_append_of_run others stop, remainder_of_others alone,
            remainder_of_others others]

/-- What is left of a spelling is found part by part where no word goes on. -/
theorem remainder_append {u v : List Char} (h : Apart u v) :
    remainder (u ++ v) = remainder u ++ remainder v := by
  have behind : ∀ {u u' : List Char}, Apart (u ++ u') v → Apart u' v := fun apart =>
    apart.imp_left fun ends c hc => ends c (List.mem_getLast?_append_of_mem_getLast? hc)
  induction u using run_induction (p := isWord) (b := true) with
  | nil => rfl
  | other c u other ih =>
    rw [List.cons_append, remainder_cons_of_other other (u ++ v), ih (behind (u := [c]) h),
      remainder_cons_of_other other u, List.append_assoc]
  | run r u given letters stop ih =>
    have next : ∀ d ∈ (u ++ v).head?, isWord d = false := by
      cases u with
      | nil =>
        have ends : Apart ([] ++ r) v := by rwa [List.append_nil] at h
        exact head_of_apart given letters ends
      | cons d u => exact stop
    rw [List.append_assoc, remainder_append_of_run letters next,
      remainder_append_of_run letters stop, ih (behind h), List.append_assoc]

/-- A text that does not begin with a word leaves one that does not. -/
theorem head_remainder {cs : List Char} (h : ∀ c ∈ cs.head?, isWord c = false) :
    ∀ c ∈ (remainder cs).head?, isWord c = false := by
  cases cs with
  | nil => nofun
  | cons c cs =>
    have other : ∀ d ∈ [c], isWord d = false := by simpa using h c rfl
    rw [remainder_cons_of_other (h c rfl), remainder_of_run other]
    intro d hd
    rw [List.head?_append_of_ne_nil _ (residue_ne_nil (List.cons_ne_nil c []))] at hd
    exact isWord_of_mem_residue other d (List.mem_of_mem_head? hd)

/-- No qualifier stands in what is left: none is kept, and none comes up. -/
theorem not_standsIn_remainder {q : List Char} (hq : q ∈ qualifiers) (cs : List Char) :
    ¬ StandsIn q (remainder cs) := by
  obtain ⟨given, letters⟩ := isWord_of_mem_qualifiers q hq
  induction cs using run_induction (p := isWord) (b := true) with
  | nil => exact not_standsIn_of_others given letters nofun
  | other c cs other ih =>
    have alone : ∀ d ∈ remainder [c], isWord d = false := by
      have single : ∀ d ∈ [c], isWord d = false := by simpa using other
      rw [remainder_of_run single]
      exact isWord_of_mem_residue single
    have apart : Apart (remainder [c]) (remainder cs) :=
      Or.inl fun d hd => alone d (List.mem_of_mem_getLast? hd)
    rw [remainder_cons_of_other other, standsIn_append_iff given letters apart, not_or]
    exact ⟨not_standsIn_of_others given letters alone, ih⟩
  | run r cs _ letters' stop ih =>
    have kept : ¬ StandsIn q (residue r) := by
      by_cases hr : r ∈ qualifiers
      · rw [residue_of_mem hr]
        exact not_standsIn_of_others given letters (List.forall_mem_singleton.2 (by decide))
      · rw [residue_of_isWord hr letters']
        exact fun stands => hr (stands.eq_of_letters letters' ▸ hq)
    have apart : Apart (residue r) (remainder cs) := Or.inr (head_remainder stop)
    rw [remainder_append_of_run letters' stop, remainder_of_run letters',
      standsIn_append_iff given letters apart, not_or]
    exact ⟨kept, ih⟩

/-- Nor is there a mark in it. -/
theorem not_mem_indirections_of_mem_remainder {cs : List Char} {c : Char}
    (h : c ∈ remainder cs) : c ∉ indirections := by
  obtain ⟨d, -, rfl⟩ := List.mem_map.1 h
  rw [indirections, List.mem_pair]
  split
  · decide
  · next other => exact other

/-! ## The words of a bare type -/

/-- The words that name the underlying type of a spelling. -/
def bareWords (cs : List Char) : List (List Char) := words (remainder cs)

theorem bareChars_eq_unwords (cs : List Char) : bareChars cs = unwords (bareWords cs) := rfl

/-- No mark is a word character. -/
theorem isWord_of_mem_indirections : ∀ c ∈ indirections, isWord c = false := by
  intro c hc
  rcases List.mem_pair.1 hc with rfl | rfl <;> decide

/-- The words are found part by part between blanks and marks. -/
theorem bareWords_append_cons {c : Char} (h : isBlank c = true ∨ c ∈ indirections)
    (u v : List Char) : bareWords (u ++ c :: v) = bareWords u ++ bareWords v := by
  have other : isWord c = false := h.elim isWord_of_isBlank (isWord_of_mem_indirections c)
  have alone : ∀ d ∈ [c], isWord d = false := by simpa using other
  -- Of the character itself a single blank is left.
  obtain ⟨b, left⟩ : ∃ b, remainder [c] = [b] := ⟨_, remainder_of_others alone⟩
  have blank : isBlank b = true := by
    have blanks := (blanks_residue_iff (s := [c])).2 (Or.inr (by simpa using h))
    rw [← remainder_of_run alone, left] at blanks
    exact blanks b List.mem_cons_self
  rw [bareWords, remainder_append (Or.inr (by simpa using other)), remainder_cons_of_other other,
    left]
  exact words_append_cons blank _ _

/-- A blank or a mark in front makes no difference to the words. -/
theorem bareWords_cons {c : Char} (h : isBlank c = true ∨ c ∈ indirections) (cs : List Char) :
    bareWords (c :: cs) = bareWords cs :=
  bareWords_append_cons h [] cs

/-- The words of joined texts are those of the texts. -/
theorem bareWords_unwords (ws : List (List Char)) :
    bareWords (unwords ws) = ws.flatMap bareWords := by
  induction ws with
  | nil => rfl
  | cons w ws ih =>
    rw [List.flatMap_cons]
    by_cases hs : ws = []
    · rw [hs, unwords_singleton, List.flatMap_nil, List.append_nil]
    · rw [unwords_cons w hs, bareWords_append_cons (Or.inl rfl), ih]

/-- They are found word by word. -/
theorem bareWords_eq_flatMap_words (cs : List Char) :
    bareWords cs = (words cs).flatMap bareWords := by
  induction cs using run_induction (p := isBlank) (b := false) with
  | nil => rfl
  | other c cs blank ih => rw [bareWords_cons (Or.inl blank), words_cons_of_isBlank blank, ih]
  | run r cs given unbroken stop ih =>
    rw [words_append given unbroken stop, List.flatMap_cons, ← ih]
    cases cs with
    | nil =>
      have none : bareWords [] = [] := rfl
      rw [none, List.append_nil, List.append_nil]
    | cons c cs =>
      have blank : isBlank c = true := stop c rfl
      rw [bareWords_append_cons (Or.inl blank), bareWords_cons (Or.inl blank)]

/-- A blank before a mark makes no difference to the words. -/
theorem bareWords_append_glue {mark : Char} (h : mark ∈ indirections) (u cs : List Char) :
    bareWords (u ++ glue mark cs) = bareWords (u ++ cs) := by
  induction cs generalizing u with
  | nil => rfl
  | cons c cs ih =>
    rw [glue]
    split
    · next space =>
      obtain ⟨rfl, next⟩ := space
      obtain ⟨cs, rfl⟩ := List.head?_eq_some_iff.1 next
      rw [ih u, bareWords_append_cons (c := ' ') (Or.inl rfl), bareWords_cons (Or.inr h),
        bareWords_append_cons (Or.inr h)]
    · have behind := ih (u ++ [c])
      rwa [List.append_assoc, List.append_assoc] at behind

/-- Normal spelling makes no difference to the words. -/
theorem bareWords_normalChars (cs : List Char) : bareWords (normalChars cs) = bareWords cs := by
  calc bareWords (normalChars cs)
      = bareWords (glue '*' (unwords (words cs))) := bareWords_append_glue (by decide) [] _
    _ = bareWords (unwords (words cs)) := bareWords_append_glue (by decide) [] _
    _ = (words cs).flatMap bareWords := bareWords_unwords _
    _ = bareWords cs := (bareWords_eq_flatMap_words cs).symm

/-! ## Trimmings -/

/-- Texts that mix blanks, marks and qualifiers in any order, every qualifier a whole word. -/
inductive IsTrimming : List Char → Prop
  /-- Nothing at all. -/
  | nil : IsTrimming []
  /-- A blank or a mark in front. -/
  | gap (c : Char) (cs : List Char) (h : isBlank c = true ∨ c ∈ indirections)
    (more : IsTrimming cs) : IsTrimming (c :: cs)
  /-- A qualifier in front. -/
  | qualifier (q cs : List Char) (h : q ∈ qualifiers) (apart : Apart q cs)
    (more : IsTrimming cs) : IsTrimming (q ++ cs)

/-- Only blanks are left of trimmings. -/
theorem IsTrimming.blanks_remainder {cs : List Char} (h : IsTrimming cs) :
    ∀ c ∈ remainder cs, isBlank c = true := by
  rw [← words_eq_nil_iff]
  change bareWords cs = []
  induction h with
  | nil => rfl
  | gap c cs h _ ih => rw [bareWords_cons h, ih]
  | qualifier q cs h apart _ ih =>
    have left : remainder q = [' '] := by
      rw [remainder_of_run (isWord_of_mem_qualifiers q h).2, residue_of_mem h]
    rw [bareWords, remainder_append apart, left, List.singleton_append, words_cons_of_isBlank rfl]
    exact ih

/-- Trimmings at the end make no difference to the words, if no word goes on into them. -/
theorem bareWords_append_trimming {u trimming : List Char} (h : IsTrimming trimming)
    (apart : Apart u trimming) : bareWords (u ++ trimming) = bareWords u := by
  rw [bareWords, remainder_append apart, words_append_blanks h.blanks_remainder, bareWords]

/-- Nor do trimmings in front, if no word goes on behind them. -/
theorem bareWords_trimming_append {u trimming : List Char} (h : IsTrimming trimming)
    (apart : Apart trimming u) : bareWords (trimming ++ u) = bareWords u := by
  rw [bareWords, remainder_append apart, words_append_of_blanks h.blanks_remainder, bareWords]

/-- Blanks are trimmings. -/
theorem isTrimming_of_blanks {cs : List Char} (h : ∀ c ∈ cs, isBlank c = true) : IsTrimming cs := by
  induction cs with
  | nil => exact .nil
  | cons c cs ih =>
    obtain ⟨blank, blanks⟩ := List.forall_mem_cons.1 h
    exact .gap c cs (Or.inl blank) (ih blanks)

/-- A qualifier and blanks in front make no difference to the words. -/
theorem bareWords_qualifier_append {q blanks : List Char} (hq : q ∈ qualifiers)
    (given : blanks ≠ []) (hb : ∀ c ∈ blanks, isBlank c = true) (cs : List Char) :
    bareWords (q ++ blanks ++ cs) = bareWords cs := by
  have apart : Apart q blanks :=
    Or.inr fun c hc => isWord_of_isBlank (hb c (List.mem_of_mem_head? hc))
  have front : IsTrimming (q ++ blanks) := .qualifier q blanks hq apart (isTrimming_of_blanks hb)
  refine bareWords_trimming_append front (Or.inl fun c hc => isWord_of_isBlank (hb c ?_))
  rw [List.getLast?_append_of_ne_nil q given] at hc
  exact List.mem_of_mem_getLast? hc

/-! ## Bare types -/

/-- Whether a text is words with single spaces between them, without a mark, and without a
qualifier as a whole word. -/
structure IsBare (cs : List Char) : Prop extends IsSpaced cs where
  /-- There is no mark of a pointer or a reference. -/
  unmarked : ∀ c ∈ cs, c ∉ indirections
  /-- No qualifier stands as a whole word. -/
  unqualified : ∀ q ∈ qualifiers, ¬ StandsIn q cs

/-- What a spelling is reduced to is bare. -/
theorem isBare_bareChars (cs : List Char) : IsBare (bareChars cs) where
  toIsSpaced := isSpaced_words (remainder cs)
  unmarked c hc := by
    rcases exists_of_mem_unwords hc with rfl | ⟨w, hw, hc⟩
    · decide
    · have hw : w ∈ words (remainder cs) := hw
      obtain ⟨before, after, eq, -⟩ := exists_of_mem_words hw
      have there : c ∈ remainder cs := by simp [eq, hc]
      exact not_mem_indirections_of_mem_remainder there
  unqualified q hq stands := by
    obtain ⟨given, letters⟩ := isWord_of_mem_qualifiers q hq
    obtain ⟨w, hw, stands⟩ := exists_of_standsIn_unwords given letters stands
    exact not_standsIn_remainder hq cs (standsIn_of_mem_words given letters hw stands)

/-- A part of a text in which no qualifier stands is such a text. -/
theorem unqualified_of_append {u v : List Char} (apart : Apart u v)
    (h : ∀ q ∈ qualifiers, ¬ StandsIn q (u ++ v)) : ∀ q ∈ qualifiers, ¬ StandsIn q v := by
  intro q hq stands
  obtain ⟨given, letters⟩ := isWord_of_mem_qualifiers q hq
  exact h q hq ((standsIn_append_iff given letters apart).2 (Or.inr stands))

/-- Without marks and qualifiers everything is left of a spelling. -/
theorem remainder_eq_self {cs : List Char} (unmarked : ∀ c ∈ cs, c ∉ indirections)
    (unqualified : ∀ q ∈ qualifiers, ¬ StandsIn q cs) : remainder cs = cs := by
  induction cs using run_induction (p := isWord) (b := true) with
  | nil => rfl
  | other c cs other ih =>
    obtain ⟨unmarked, others⟩ := List.forall_mem_cons.1 unmarked
    rw [indirections, List.mem_pair] at unmarked
    have kept : remainder [c] = [c] := by
      rw [remainder_of_others (by simpa using other), dropMarks, List.map_singleton,
        if_neg unmarked]
    have apart : Apart [c] cs := Or.inl (by simpa using other)
    rw [remainder_cons_of_other other, kept, ih others (unqualified_of_append apart unqualified),
      List.singleton_append]
  | run r cs _ letters stop ih =>
    have free : r ∉ qualifiers := fun hq => unqualified r hq (standsIn_append stop)
    rw [remainder_append_of_run letters stop, remainder_of_run letters,
      residue_of_isWord free letters, ih (fun c hc => unmarked c (List.mem_append_right r hc))
        (unqualified_of_append (Or.inr stop) unqualified)]

/-- The bare types are the spellings that are reduced to themselves. -/
theorem bareChars_eq_self_iff {cs : List Char} : bareChars cs = cs ↔ IsBare cs := by
  constructor
  · intro h
    rw [← h]
    exact isBare_bareChars cs
  · intro h
    rw [bareChars_eq_unwords, bareWords, remainder_eq_self h.unmarked h.unqualified]
    exact unwords_words_eq_self_iff.2 h.toIsSpaced

/-! ## Respelling -/

/-- A bare type is the text of the words. -/
theorem toList_bare (spelling : String) : (bare spelling).toList = bareChars spelling.toList :=
  String.toList_ofList

/-- Spellings with the same words have the same bare type. -/
theorem bare_eq_of_bareWords_eq {spelling spelling' : String}
    (h : bareWords spelling.toList = bareWords spelling'.toList) :
    bare spelling = bare spelling' := by
  rw [bare, bareChars_eq_unwords, h, ← bareChars_eq_unwords, bare]

/-- The bare type of a spelling is that of its bare type and of its normal spelling, of the spelling
with a qualifier and blanks in front, and of the spelling with trimmings behind it into which no
word goes on. It has no mark in it, no qualifier as a whole word, no blanks at its ends, and none
but single spaces. -/
theorem bare_respelled (spelling : String) :
    bare (bare spelling) = bare spelling ∧
    bare (normalize spelling) = bare spelling ∧
    (∀ qualifier blanks : String, qualifier.toList ∈ qualifiers → blanks ≠ "" →
      (∀ c ∈ blanks.toList, isBlank c = true) →
        bare (qualifier ++ blanks ++ spelling) = bare spelling) ∧
    (∀ trimming : String, IsTrimming trimming.toList → Apart spelling.toList trimming.toList →
      bare (spelling ++ trimming) = bare spelling) ∧
    IsBare (bare spelling).toList := by
  have isBare : IsBare (bare spelling).toList := by
    rw [toList_bare]
    exact isBare_bareChars spelling.toList
  refine ⟨?_, ?_, ?_, ?_, isBare⟩
  · rw [bare, bareChars_eq_self_iff.2 isBare, String.ofList_toList]
  · refine bare_eq_of_bareWords_eq ?_
    rw [normalize, String.toList_ofList, bareWords_normalChars]
  · intro qualifier blanks hq given hb
    refine bare_eq_of_bareWords_eq ?_
    rw [String.toList_append, String.toList_append]
    exact bareWords_qualifier_append hq (by simpa using given) hb spelling.toList
  · intro trimming behind apart
    refine bare_eq_of_bareWords_eq ?_
    rw [String.toList_append, bareWords_append_trimming behind apart]

/-- The bare type of a list of pointers, with a qualifier in front and trimmings behind. -/
theorem bare_respelled_sample :
    "volatile".toList ∈ qualifiers ∧ "\t " ≠ "" ∧ (∀ c ∈ "\t ".toList, isBlank c = true) ∧
      IsTrimming " *const&".toList ∧ Apart "std::list<const QEvent*>".toList " *const&".toList ∧
      bare ("volatile" ++ "\t " ++ "std::list<const QEvent*>") = "std::list< QEvent >" ∧
      bare ("std::list<const QEvent*>" ++ " *const&") = "std::list< QEvent >" := by
  have mark : ∀ c ∈ ['&'].head?, isWord c = false := by
    rintro c ⟨⟩
    decide
  have space : ∀ c ∈ " *const&".toList.head?, isWord c = false := by
    rintro c ⟨⟩
    decide
  have behind : IsTrimming " *const&".toList :=
    .gap ' ' _ (Or.inl rfl) (.gap '*' _ (Or.inr (by decide))
      (.qualifier "const".toList ['&'] (by decide) (Or.inr mark)
        (.gap '&' [] (Or.inr (by decide)) .nil)))
  have blanks : ∀ c ∈ "\t ".toList, isBlank c = true := List.all_eq_true.1 (by decide)
  have reduced : bare "std::list<const QEvent*>" = "std::list< QEvent >" := by decide
  obtain ⟨-, -, front, trimmed, -⟩ := bare_respelled "std::list<const QEvent*>"
  refine ⟨by decide, by decide, blanks, behind, Or.inr space, ?_, ?_⟩
  · exact (front "volatile" "\t " (by decide) (by decide) blanks).trans reduced
  · exact (trimmed " *const&" behind (Or.inr space)).trans reduced

end Bindery.TypeSpelling
