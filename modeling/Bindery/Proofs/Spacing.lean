import Bindery.Proofs.Spelling

/-!
# Words in a text and the spaces between them

A text can be taken apart wherever no word goes on from one part to the next: what stands in it as a
whole word stands in one of the parts. Cutting a text into the words between its blanks is a way to
take it apart, and putting them together again gives the text back just if there are single spaces
between the words and nothing else around them. Main statements: `standsIn_append_iff`,
`unwords_words_eq_self_iff`.
-/

namespace Bindery.Text

/-! ## Runs of characters -/

/-- A text is built from its end by putting in front either a character of the other kind, or a run
of characters of one kind that does not go on. -/
@[elab_as_elim]
theorem run_induction {p : Char → Bool} {b : Bool} {P : List Char → Prop} (nil : P [])
    (other : ∀ c cs, p c = !b → P cs → P (c :: cs))
    (run : ∀ r cs, r ≠ [] → (∀ c ∈ r, p c = b) → (∀ c ∈ cs.head?, p c = !b) → P cs →
      P (r ++ cs)) (cs : List Char) : P cs := by
  -- A run that was begun is carried along until it ends.
  suffices carried : ∀ r, (∀ c ∈ r, p c = b) → P (r ++ cs) from carried [] nofun
  induction cs with
  | nil =>
    intro r hr
    cases r with
    | nil => exact nil
    | cons c r => exact run _ [] (List.cons_ne_nil c r) hr nofun nil
  | cons c cs ih =>
    intro r hr
    by_cases hc : p c = b
    · have longer := ih (r ++ [c]) (List.forall_mem_append.2 ⟨hr, by simpa using hc⟩)
      rwa [List.append_assoc] at longer
    · have stops : p c = !b := Bool.eq_not.2 hc
      have behind : P (c :: cs) := other c cs stops (ih [] nofun)
      cases r with
      | nil => exact behind
      | cons d r => exact run _ _ (List.cons_ne_nil d r) hr (by simpa using stops) behind

/-! ## Whole words -/

/-- Whether no word goes on from the end of one text to the beginning of another. -/
def Apart (u v : List Char) : Prop :=
  (∀ c ∈ u.getLast?, isWord c = false) ∨ ∀ c ∈ v.head?, isWord c = false

/-- Whether a word stands somewhere in a text with no word character next to it. -/
def StandsIn (word cs : List Char) : Prop :=
  ∃ before after, cs = before ++ (word ++ after) ∧ (∀ c ∈ before.getLast?, isWord c = false) ∧
    ∀ c ∈ after.head?, isWord c = false

/-- A word stands in front of what it does not go on into. -/
theorem standsIn_append {word after : List Char} (h : ∀ c ∈ after.head?, isWord c = false) :
    StandsIn word (word ++ after) :=
  ⟨[], after, rfl, by simp, h⟩

/-- What stands in a text is a part of it. -/
theorem StandsIn.subset {word cs : List Char} (h : StandsIn word cs) : word ⊆ cs := by
  obtain ⟨before, after, rfl, -⟩ := h
  intro c hc
  simp [hc]

/-- Nothing but itself stands in a word. -/
theorem StandsIn.eq_of_letters {word cs : List Char} (h : StandsIn word cs)
    (letters : ∀ c ∈ cs, isWord c = true) : cs = word := by
  obtain ⟨before, after, rfl, hb, ha⟩ := h
  have other : ∀ c ∈ before ++ (word ++ after), ¬ isWord c = false := fun c hc => by
    rw [letters c hc]
    decide
  have empty : before = [] := by
    by_contra given
    exact other _ (by simp) (hb _ (List.getLast_mem_getLast? given))
  have empty' : after = [] := by
    by_contra given
    exact other _ (by simp) (ha _ (List.head_mem_head? given))
  rw [empty, empty', List.nil_append, List.append_nil]

section Word

variable {word : List Char} (given : word ≠ []) (letters : ∀ c ∈ word, isWord c = true)

include given letters

/-- No word stands in a text without word characters. -/
theorem not_standsIn_of_others {cs : List Char} (h : ∀ c ∈ cs, isWord c = false) :
    ¬ StandsIn word cs := by
  intro stands
  obtain ⟨c, hc⟩ := List.exists_mem_of_ne_nil word given
  have other := h c (stands.subset hc)
  rw [letters c hc] at other
  cases other

/-- Behind a word comes no word character if no word goes on there. -/
theorem head_of_apart {before v : List Char} (h : Apart (before ++ word) v) :
    ∀ c ∈ v.head?, isWord c = false := by
  refine h.resolve_left fun ends => ?_
  have last := ends (word.getLast given) (by simp [given, List.getLast?_eq_getLast_of_ne_nil])
  rw [letters _ (List.getLast_mem given)] at last
  cases last

/-- Before a word comes no word character if no word goes on there. -/
theorem getLast_of_apart {u after : List Char} (h : Apart u (word ++ after)) :
    ∀ c ∈ u.getLast?, isWord c = false := by
  refine h.resolve_right fun begins => ?_
  have first := begins (word.head given) (by simp [given, List.head?_eq_some_head])
  rw [letters _ (List.head_mem given)] at first
  cases first

/-- If a text is taken apart where no word goes on, the words that stand in it are those that stand
in one of the parts. -/
theorem standsIn_append_iff {u v : List Char} (h : Apart u v) :
    StandsIn word (u ++ v) ↔ StandsIn word u ∨ StandsIn word v := by
  constructor
  · rintro ⟨before, after, eq, hb, ha⟩
    rcases List.append_eq_append_iff.1 eq with ⟨m, rfl, rfl⟩ | ⟨m, rfl, rest⟩
    · exact Or.inr ⟨m, after, rfl, fun c hc => hb c (List.mem_getLast?_append_of_mem_getLast? hc),
        ha⟩
    · rcases List.append_eq_append_iff.1 rest with ⟨m', rfl, rfl⟩ | ⟨m', rfl, rfl⟩
      · exact Or.inl ⟨before, m', rfl, hb, fun c hc => ha c (List.mem_head?_append_of_mem_head? hc)⟩
      · -- The word would go on from one part to the other, unless one of its pieces is empty.
        rcases List.eq_nil_or_concat m with rfl | ⟨m, c, rfl⟩
        · exact Or.inr ⟨[], after, rfl, nofun, ha⟩
        · cases m' with
          | nil => exact Or.inl ⟨before, [], by simp, hb, nofun⟩
          | cons d m' =>
            rcases h with ends | begins
            · have last := ends c (by simp)
              rw [letters c (by simp)] at last
              cases last
            · have first := begins d (by simp)
              rw [letters d (by simp)] at first
              cases first
  · rintro (⟨before, after, rfl, hb, ha⟩ | ⟨before, after, rfl, hb, ha⟩)
    · refine ⟨before, after ++ v, by simp, hb, ?_⟩
      cases after with
      | nil =>
        rw [List.append_nil] at h
        exact head_of_apart given letters h
      | cons c after => exact ha
    · refine ⟨u ++ before, after, by simp, ?_, ha⟩
      cases before using List.reverseRecOn with
      | nil =>
        rw [List.append_nil]
        exact getLast_of_apart given letters h
      | append_singleton before c => simpa using hb

end Word

/-! ## Words between blanks -/

/-- Where there is a blank, no word goes on. -/
theorem apart_cons_of_isBlank {c : Char} (h : isBlank c = true) (u v : List Char) :
    Apart u (c :: v) := by
  refine Or.inr fun d hd => ?_
  obtain rfl := Option.some.inj hd
  exact isWord_of_isBlank h

/-- The words of a text are those before and behind a blank. -/
theorem words_append_cons {c : Char} (h : isBlank c = true) (u v : List Char) :
    words (u ++ c :: v) = words u ++ words v := by
  rw [words, cut_append_cons isBlank h, List.filter_append, words, words]

/-- Blanks at the end make no difference to the words. -/
theorem words_append_blanks {after : List Char} (h : ∀ c ∈ after, isBlank c = true)
    (cs : List Char) : words (cs ++ after) = words cs := by
  cases after with
  | nil => rw [List.append_nil]
  | cons c after =>
    obtain ⟨blank, blanks⟩ := List.forall_mem_cons.1 h
    rw [words_append_cons blank, words_eq_nil_iff.2 blanks, List.append_nil]

/-- A word of a text comes between blanks, or at an end of the text, and there are none in it. -/
theorem exists_of_mem_words {cs w : List Char} (h : w ∈ words cs) :
    ∃ before after, cs = before ++ (w ++ after) ∧ w ≠ [] ∧ (∀ c ∈ w, isBlank c = false) ∧
      (∀ c ∈ before.getLast?, isBlank c = true) ∧ ∀ c ∈ after.head?, isBlank c = true := by
  induction cs using run_induction (p := isBlank) (b := false) with
  | nil => cases h
  | other c cs blank ih =>
    rw [words_cons_of_isBlank blank] at h
    obtain ⟨before, after, rfl, given, unbroken, hb, ha⟩ := ih h
    refine ⟨c :: before, after, rfl, given, unbroken, ?_, ha⟩
    cases before with
    | nil => simpa using blank
    | cons d before => rwa [List.getLast?_cons_cons]
  | run r cs given unbroken stop ih =>
    rw [words_append given unbroken stop] at h
    rcases List.mem_cons.1 h with rfl | h
    · exact ⟨[], cs, rfl, given, unbroken, nofun, stop⟩
    · obtain ⟨before, after, rfl, given', unbroken', hb, ha⟩ := ih h
      refine ⟨r ++ before, after, (List.append_assoc ..).symm, given', unbroken', ?_, ha⟩
      have apart : before ≠ [] := by
        rintro rfl
        obtain ⟨c, w, rfl⟩ := List.exists_cons_of_ne_nil given'
        have blank := stop c rfl
        rw [unbroken' c List.mem_cons_self] at blank
        cases blank
      rwa [List.getLast?_append_of_ne_nil r apart]

/-- Joined words consist of spaces and of their characters. -/
theorem exists_of_mem_unwords {ws : List (List Char)} {c : Char} (h : c ∈ unwords ws) :
    c = ' ' ∨ ∃ w ∈ ws, c ∈ w := by
  rw [unwords_eq_tail] at h
  obtain ⟨w, hw, hc⟩ := List.mem_flatMap.1 (List.mem_of_mem_tail h)
  exact (List.mem_cons.1 hc).imp_right fun hc => ⟨w, hw, hc⟩

section Word

variable {word : List Char} (given : word ≠ []) (letters : ∀ c ∈ word, isWord c = true)

include given letters

/-- What stands in a word of a text stands in the text. -/
theorem standsIn_of_mem_words {cs w : List Char} (h : w ∈ words cs) (stands : StandsIn word w) :
    StandsIn word cs := by
  obtain ⟨before, after, rfl, -, -, hb, ha⟩ := exists_of_mem_words h
  have front : Apart before (w ++ after) := Or.inl fun c hc => isWord_of_isBlank (hb c hc)
  have back : Apart w after := Or.inr fun c hc => isWord_of_isBlank (ha c hc)
  rw [standsIn_append_iff given letters front, standsIn_append_iff given letters back]
  exact Or.inr (Or.inl stands)

/-- What stands in joined words stands in one of them. -/
theorem exists_of_standsIn_unwords {ws : List (List Char)} (h : StandsIn word (unwords ws)) :
    ∃ w ∈ ws, StandsIn word w := by
  induction ws with
  | nil => exact absurd h (not_standsIn_of_others given letters nofun)
  | cons w ws ih =>
    by_cases hs : ws = []
    · subst hs
      rw [unwords_singleton] at h
      exact ⟨w, List.mem_cons_self, h⟩
    · rw [unwords_cons w hs, standsIn_append_iff given letters (apart_cons_of_isBlank rfl _ _)] at h
      rcases h with first | later
      · exact ⟨w, List.mem_cons_self, first⟩
      · have alone : ∀ c ∈ [' '], isWord c = false := List.forall_mem_singleton.2 (by decide)
        have space : Apart [' '] (unwords ws) := Or.inl fun c hc =>
          alone c (List.mem_of_mem_getLast? hc)
        rw [← List.singleton_append, standsIn_append_iff given letters space] at later
        obtain ⟨w', hw, stands⟩ := ih (later.resolve_left
          (not_standsIn_of_others given letters alone))
        exact ⟨w', List.mem_cons_of_mem w hw, stands⟩

end Word

/-! ## Single spaces -/

/-- Whether a text has no blanks at its ends, none next to each other, and none but spaces. -/
structure IsSpaced (cs : List Char) : Prop where
  /-- The text does not begin with a blank. -/
  first : ∀ c ∈ cs.head?, isBlank c = false
  /-- Nor does it end with one. -/
  last : ∀ c ∈ cs.getLast?, isBlank c = false
  /-- Of neighbours at most one is a blank. -/
  single : cs.IsChain fun c d => isBlank c = false ∨ isBlank d = false
  /-- Every blank is a space. -/
  plain : ∀ c ∈ cs, isBlank c = true → c = ' '

/-- A text without blanks is spaced. -/
theorem isSpaced_of_unbroken {cs : List Char} (h : ∀ c ∈ cs, isBlank c = false) : IsSpaced cs where
  first c hc := h c (List.mem_of_mem_head? hc)
  last c hc := h c (List.mem_of_mem_getLast? hc)
  single := (List.pairwise_of_forall_mem_list fun c hc _ _ => Or.inl (h c hc)).isChain
  plain c hc blank := by
    rw [h c hc] at blank
    cases blank

/-- Spaced texts with a space between them are a spaced text. -/
theorem IsSpaced.append {u v : List Char} (hu : IsSpaced u) (hv : IsSpaced v) (given : u ≠ [])
    (given' : v ≠ []) : IsSpaced (u ++ ' ' :: v) where
  first := by
    rw [List.head?_append_of_ne_nil _ given]
    exact hu.first
  last := by
    rw [List.getLast?_append_of_ne_nil _ (List.cons_ne_nil _ _),
      List.getLast?_cons_of_ne_nil given']
    exact hv.last
  single := by
    refine List.isChain_append.2 ⟨hu.single, ?_, fun c hc _ _ => Or.inl (hu.last c hc)⟩
    exact List.isChain_cons.2 ⟨fun d hd => Or.inr (hv.first d hd), hv.single⟩
  plain c hc blank := by
    rcases List.mem_append.1 hc with hc | hc
    · exact hu.plain c hc blank
    · rcases List.mem_cons.1 hc with rfl | hc
      · rfl
      · exact hv.plain c hc blank

/-- Words, if there are any, are not joined to the empty text. -/
theorem unwords_ne_nil {ws : List (List Char)} (given : ws ≠ []) (h : ∀ w ∈ ws, w ≠ []) :
    unwords ws ≠ [] := by
  obtain ⟨w, ws, rfl⟩ := List.exists_cons_of_ne_nil given
  by_cases hs : ws = []
  · rw [hs, unwords_singleton]
    exact h w List.mem_cons_self
  · rw [unwords_cons w hs]
    simp

/-- Words are joined to a spaced text. -/
theorem isSpaced_unwords {ws : List (List Char)}
    (h : ∀ w ∈ ws, w ≠ [] ∧ ∀ c ∈ w, isBlank c = false) : IsSpaced (unwords ws) := by
  induction ws with
  | nil => exact isSpaced_of_unbroken nofun
  | cons w ws ih =>
    obtain ⟨⟨given, unbroken⟩, others⟩ := List.forall_mem_cons.1 h
    by_cases hs : ws = []
    · rw [hs, unwords_singleton]
      exact isSpaced_of_unbroken unbroken
    · rw [unwords_cons w hs]
      exact (isSpaced_of_unbroken unbroken).append (ih others) given
        (unwords_ne_nil hs fun w hw => (others w hw).1)

/-- So are the words of a text. -/
theorem isSpaced_words (cs : List Char) : IsSpaced (unwords (words cs)) := by
  refine isSpaced_unwords fun w hw => ?_
  obtain ⟨-, -, -, given, unbroken, -⟩ := exists_of_mem_words hw
  exact ⟨given, unbroken⟩

/-- If there are single spaces between words and nothing behind them, then cutting a text into words
and joining them loses only the blanks in front. -/
theorem unwords_words_eq_dropWhile {cs : List Char} (last : ∀ c ∈ cs.getLast?, isBlank c = false)
    (single : cs.IsChain fun c d => isBlank c = false ∨ isBlank d = false)
    (plain : ∀ c ∈ cs, isBlank c = true → c = ' ') :
    unwords (words cs) = cs.dropWhile isBlank := by
  induction cs using run_induction (p := isBlank) (b := false) with
  | nil => rfl
  | other c cs blank ih =>
    have blank : isBlank c = true := blank
    rw [words_cons_of_isBlank blank, List.dropWhile_cons_of_pos blank]
    have ends : ∀ d ∈ cs.getLast?, d ∈ ([c] ++ cs).getLast? := fun d hd =>
      List.mem_getLast?_append_of_mem_getLast? hd
    exact ih (fun d hd => last d (ends d hd)) single.tail fun d hd =>
      plain d (List.mem_cons_of_mem c hd)
  | run r cs given unbroken stop ih =>
    have kept : (r ++ cs).dropWhile isBlank = r ++ cs := by
      obtain ⟨c, r, rfl⟩ := List.exists_cons_of_ne_nil given
      exact List.dropWhile_cons_of_neg (by simp [unbroken c List.mem_cons_self])
    rw [words_append given unbroken stop, kept]
    cases cs with
    | nil => rw [List.append_nil]; exact unwords_singleton r
    | cons c cs =>
      have blank : isBlank c = true := stop c rfl
      obtain rfl := plain c (by simp) blank
      -- Behind the space comes something that is no blank, so there are more words.
      have behind := (List.isChain_append.1 single).2.1
      cases cs with
      | nil => exact absurd (last ' ' (by simp)) (by decide)
      | cons d cs =>
        have other : isBlank d = false :=
          ((List.isChain_cons_cons.1 behind).1).resolve_left (by decide)
        have more : words (' ' :: d :: cs) ≠ [] := by
          rw [Ne, words_eq_nil_iff]
          intro blanks
          rw [blanks d (by simp)] at other
          cases other
        rw [unwords_cons r more, ih (by simpa using last) behind fun e he =>
            plain e (List.mem_append_right r he),
          List.dropWhile_cons_of_pos blank, List.dropWhile_cons_of_neg (by simp [other])]

/-- Cutting a text into words and joining them gives it back just if it is spaced. -/
theorem unwords_words_eq_self_iff {cs : List Char} : unwords (words cs) = cs ↔ IsSpaced cs := by
  constructor
  · intro h
    rw [← h]
    exact isSpaced_words cs
  · intro h
    rw [unwords_words_eq_dropWhile h.last h.single h.plain]
    cases cs with
    | nil => rfl
    | cons c cs => exact List.dropWhile_cons_of_neg (by simp [h.first c rfl])

end Bindery.Text
