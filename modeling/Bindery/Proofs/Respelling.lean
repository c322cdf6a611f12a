import Bindery.Corpus
import Bindery.Proofs.Filing
import Bindery.Proofs.Spelling
import Mathlib.Logic.Relation

/-!
# Parameter lists read in one scan

A normal type spelling is made by cutting a text into words, putting them together again, and
gluing the marks. The canonical form of a parameter list is made by cutting it at every comma first.
Both are what a single scan writes that remembers nothing but the gap since the character that it
wrote last. So one scan can follow another, and a change of the blanks that leaves the gaps alone is
not seen. Main statements: `Corpus.joined_normal`, `Respelled.scan_eq`.
-/

namespace Bindery

namespace TypeSpelling

open Text

/-! ## The scan -/

/-- What lies between the character that was written last and the one that is read next. -/
inductive Gap where
  /-- Nothing has been written. -/
  | start
  /-- Nothing. -/
  | tight
  /-- Only blanks. -/
  | blank
  /-- A separator, and any blanks. -/
  | divided
  deriving DecidableEq

namespace Gap

/-- The gap behind a blank. -/
def widen : Gap → Gap
  | start => start
  | tight | blank => blank
  | divided => divided

/-- The gap behind a separator. -/
def divide : Gap → Gap
  | start => start
  | tight | blank | divided => divided

/-- What is written for a gap before a character; a blank is not before one that sticks. -/
def fill (sticks : Char → Bool) (c : Char) : Gap → List Char
  | start | tight => []
  | blank => if sticks c then [] else [' ']
  | divided => [',', ' ']

/-- A gap that is read where there was one before. -/
def within : Gap → Gap → Gap
  | start, outer | tight, outer => outer
  | blank, outer => outer.widen
  | divided, outer => outer.divide

@[simp] theorem widen_widen (g : Gap) : g.widen.widen = g.widen := by cases g <;> rfl

@[simp] theorem divide_widen (g : Gap) : g.divide.widen = g.divide := by cases g <;> rfl

@[simp] theorem widen_divide (g : Gap) : g.widen.divide = g.divide := by cases g <;> rfl

@[simp] theorem divide_divide (g : Gap) : g.divide.divide = g.divide := by cases g <;> rfl

/-- Before a character that sticks a blank makes no difference. -/
theorem fill_widen {sticks : Char → Bool} {c : Char} (h : sticks c = true) (g : Gap) :
    g.widen.fill sticks c = g.fill sticks c := by
  cases g <;> simp [widen, fill, h]

end Gap

/-- What the scan writes behind a gap: blanks and separators only widen the gap, and any other
character is written behind what the gap stands for. -/
def scan (separates sticks : Char → Bool) : Gap → List Char → List Char
  | _, [] => []
  | g, c :: cs =>
    if isBlank c then scan separates sticks g.widen cs
    else if separates c then scan separates sticks g.divide cs
    else g.fill sticks c ++ c :: scan separates sticks .tight cs

section Scan

variable {separates sticks : Char → Bool} {c : Char}

theorem scan_of_isBlank (h : isBlank c = true) (g : Gap) (cs : List Char) :
    scan separates sticks g (c :: cs) = scan separates sticks g.widen cs := by
  rw [scan, if_pos h]

theorem scan_of_separates (h : isBlank c = false) (h' : separates c = true) (g : Gap)
    (cs : List Char) : scan separates sticks g (c :: cs) = scan separates sticks g.divide cs := by
  rw [scan, if_neg (Bool.eq_false_iff.1 h), if_pos h']

theorem scan_of_other (h : isBlank c = false) (h' : separates c = false) (g : Gap)
    (cs : List Char) : scan separates sticks g (c :: cs) =
      g.fill sticks c ++ c :: scan separates sticks .tight cs := by
  rw [scan, if_neg (Bool.eq_false_iff.1 h), if_neg (Bool.eq_false_iff.1 h')]

/-- Blanks widen the gap once, however many there are. -/
theorem scan_append_of_blanks {blanks : List Char} (given : blanks ≠ [])
    (h : ∀ c ∈ blanks, isBlank c = true) (g : Gap) (cs : List Char) :
    scan separates sticks g (blanks ++ cs) = scan separates sticks g.widen cs := by
  induction blanks generalizing g with
  | nil => exact absurd rfl given
  | cons c blanks ih =>
    rw [List.cons_append, scan_of_isBlank (h c List.mem_cons_self)]
    cases blanks with
    | nil => rfl
    | cons d blanks =>
      rw [ih (List.cons_ne_nil _ _) (fun d hd => h d (List.mem_cons_of_mem _ hd)), Gap.widen_widen]

/-- Texts that are scanned alike behind every gap are scanned alike behind every text. -/
theorem scan_append_congr {u v : List Char}
    (h : ∀ g, scan separates sticks g u = scan separates sticks g v) (before : List Char)
    (g : Gap) :
    scan separates sticks g (before ++ u) = scan separates sticks g (before ++ v) := by
  induction before generalizing g with
  | nil => exact h g
  | cons c before ih => simp only [List.cons_append, scan, ih]

end Scan

/-! ## Type spellings -/

/-- No character is one of these. -/
def never : Char → Bool := fun _ => false

theorem never_eq_false (c : Char) : never c = false := rfl

/-- Whether a character marks a pointer or a reference. -/
def isMark (c : Char) : Bool := c == '*' || c == '&'

/-- No mark is a blank. -/
theorem isBlank_of_isMark {c : Char} (h : isMark c = true) : isBlank c = false := by
  rw [isMark, Bool.or_eq_true, beq_iff_eq, beq_iff_eq] at h
  rcases h with rfl | rfl <;> decide

/-- Pieces with a separator in front of each, the first one too. -/
def leading (separator : List Char) (pieces : List (List Char)) : List Char :=
  pieces.flatMap (separator ++ ·)

/-- Joined pieces are the first one and the others with a separator in front. -/
theorem joinWith_cons (separator piece : List Char) (pieces : List (List Char)) :
    joinWith separator (piece :: pieces) = piece ++ leading separator pieces := by
  induction pieces generalizing piece with
  | nil => simp [joinWith, leading]
  | cons next pieces ih =>
    rw [joinWith, List.intercalate_cons_cons, ← joinWith, ih]
    simp [leading]

/-- Cutting a text behind a character that does not separate. -/
theorem cut_cons_of_not {isSeparator : Char → Bool} {c : Char} (h : isSeparator c = false)
    {cs first : List Char} {rest : List (List Char)} (hc : cut isSeparator cs = first :: rest) :
    cut isSeparator (c :: cs) = (c :: first) :: rest := by
  rw [cut, if_neg (Bool.eq_false_iff.1 h), hc]

/-- A text that is scanned for its words: a word that was begun goes on up to the first blank, and
behind a gap come the words. -/
theorem scan_words (cs : List Char) : ∃ first rest, cut isBlank cs = first :: rest ∧
    scan never never .tight cs = first ++ leading [' '] (rest.filter fun w => !w.isEmpty) ∧
    scan never never .blank cs = leading [' '] (words cs) ∧
    scan never never .start cs = unwords (words cs) := by
  induction cs with
  | nil => exact ⟨[], [], rfl, rfl, rfl, rfl⟩
  | cons c cs ih =>
    obtain ⟨first, rest, hc, tight, blank, start⟩ := ih
    cases hb : isBlank c with
    | true =>
      refine ⟨[], cut isBlank cs, by rw [cut, if_pos hb], ?_⟩
      simp only [scan_of_isBlank hb, words_cons_of_isBlank hb]
      exact ⟨blank, blank, start⟩
    | false =>
      have hc' := cut_cons_of_not hb hc
      have hw : words (c :: cs) = (c :: first) :: rest.filter fun w => !w.isEmpty := by
        rw [words, hc', List.filter_cons_of_pos rfl]
      refine ⟨c :: first, rest, hc', ?_⟩
      simp only [scan_of_other hb (never_eq_false c), tight, hw]
      exact ⟨rfl, rfl, (joinWith_cons [' '] (c :: first) _).symm⟩

/-- Only spaces are ever glued away. -/
theorem glue_cons (mark : Char) {c : Char} (h : c ≠ ' ') (cs : List Char) :
    glue mark (c :: cs) = c :: glue mark cs := by
  rw [glue, if_neg fun hc => h hc.1]

/-- Gluing a mark lets it stick. -/
theorem glue_scan (mark : Char) (sticks : Char → Bool) {g : Gap} (hg : g ≠ .divided)
    (cs : List Char) : glue mark (scan never sticks g cs) =
      scan never (fun c => sticks c || c == mark) g cs := by
  induction cs generalizing g with
  | nil => rfl
  | cons c cs ih =>
    cases hb : isBlank c with
    | true =>
      rw [scan_of_isBlank hb, scan_of_isBlank hb, ih]
      cases g <;> first | exact hg | nofun
    | false =>
      have hc : c ≠ ' ' := by
        rintro rfl
        exact absurd hb (by decide)
      have glued := glue_cons mark hc (scan never sticks .tight cs)
      rw [scan_of_other hb rfl, scan_of_other hb rfl, ← ih (by decide), ← glued]
      cases g with
      | start | tight => rfl
      | blank =>
        rw [Gap.fill, Gap.fill]
        cases hs : sticks c with
        | true => rfl
        | false => by_cases he : c = mark <;> simp [glue, he]
      | divided => exact absurd rfl hg

/-- The normal spelling is what the scan writes for which marks stick. -/
theorem normalChars_eq_scan (cs : List Char) : normalChars cs = scan never isMark .start cs := by
  obtain ⟨-, -, -, -, -, start⟩ := scan_words cs
  rw [normalChars, ← start, glue_scan '*' _ (by decide), glue_scan '&' _ (by decide)]
  rfl

/-! ## Lists of types -/

/-- Whether a character separates types. -/
def isComma (c : Char) : Bool := c == ','

theorem isBlank_of_isComma {c : Char} (h : isComma c = true) : isBlank c = false := by
  rw [beq_iff_eq.1 h]
  decide

theorem isComma_of_isMark {c : Char} (h : isMark c = true) : isComma c = false := by
  rw [isMark, Bool.or_eq_true, beq_iff_eq, beq_iff_eq] at h
  rcases h with rfl | rfl <;> decide

/-- The normal spellings of the pieces that are not blank. -/
def normalPieces (pieces : List (List Char)) : List (List Char) :=
  (pieces.filter fun p => strip p ≠ []).map normalChars

@[simp] theorem normalPieces_cons_of_blanks {piece : List Char}
    (h : ∀ c ∈ piece, isBlank c = true) (pieces : List (List Char)) :
    normalPieces (piece :: pieces) = normalPieces pieces := by
  rw [normalPieces, List.filter_cons_of_neg (by simpa using strip_eq_nil_iff.2 h), normalPieces]

theorem normalPieces_cons_of_not {piece : List Char} {c : Char} (hc : c ∈ piece)
    (h : isBlank c = false) (pieces : List (List Char)) :
    normalPieces (piece :: pieces) = scan never isMark .start piece :: normalPieces pieces := by
  have given : strip piece ≠ [] := fun hs => by
    rw [strip_eq_nil_iff.1 hs c hc] at h
    cases h
  rw [normalPieces, List.filter_cons_of_pos (by simpa using given), List.map_cons,
    normalChars_eq_scan, normalPieces]

/-- A blank in front makes no difference to the pieces. -/
theorem normalPieces_cons_cons {c : Char} (h : isBlank c = true) (piece : List Char)
    (pieces : List (List Char)) :
    normalPieces ((c :: piece) :: pieces) = normalPieces (piece :: pieces) := by
  by_cases blanks : ∀ d ∈ piece, isBlank d = true
  · rw [normalPieces_cons_of_blanks blanks,
      normalPieces_cons_of_blanks (List.forall_mem_cons.2 ⟨h, blanks⟩)]
  · push Not at blanks
    obtain ⟨d, hd, other⟩ := blanks
    rw [normalPieces_cons_of_not hd (Bool.eq_false_iff.2 other),
      normalPieces_cons_of_not (List.mem_cons_of_mem c hd) (Bool.eq_false_iff.2 other),
      scan_of_isBlank h]
    rfl

/-- A text that is scanned for its types: a type that was begun goes on up to the first comma, and
behind a gap come the types. -/
theorem scan_types (cs : List Char) : ∃ first rest, cut isComma cs = first :: rest ∧
    scan isComma isMark .tight cs =
      scan never isMark .tight first ++ leading [',', ' '] (normalPieces rest) ∧
    scan isComma isMark .blank cs =
      scan never isMark .blank first ++ leading [',', ' '] (normalPieces rest) ∧
    scan isComma isMark .divided cs = leading [',', ' '] (normalPieces (cut isComma cs)) ∧
    scan isComma isMark .start cs = joinWith [',', ' '] (normalPieces (cut isComma cs)) := by
  induction cs with
  | nil =>
    refine ⟨[], [], rfl, rfl, rfl, ?_⟩
    rw [cut, normalPieces_cons_of_blanks (List.forall_mem_nil _)]
    exact ⟨rfl, rfl⟩
  | cons c cs ih =>
    obtain ⟨first, rest, hc, tight, blank, divided, start⟩ := ih
    cases hb : isBlank c with
    | true =>
      have comma : isComma c = false := by
        rw [← Bool.not_eq_true]
        intro comma
        rw [isBlank_of_isComma comma] at hb
        cases hb
      have hc' := cut_cons_of_not comma hc
      refine ⟨c :: first, rest, hc', ?_⟩
      rw [hc', normalPieces_cons_cons hb, ← hc]
      simp only [scan_of_isBlank hb]
      exact ⟨blank, blank, divided, start⟩
    | false =>
      cases comma : isComma c with
      | true =>
        have hc' : cut isComma (c :: cs) = [] :: cut isComma cs := by rw [cut, if_pos comma]
        refine ⟨[], cut isComma cs, hc', ?_⟩
        rw [hc', normalPieces_cons_of_blanks (List.forall_mem_nil _)]
        simp only [scan_of_separates hb comma]
        exact ⟨divided, divided, divided, start⟩
      | false =>
        have hc' := cut_cons_of_not comma hc
        refine ⟨c :: first, rest, hc', ?_⟩
        rw [hc', normalPieces_cons_of_not List.mem_cons_self hb]
        simp only [scan_of_other hb comma,
          scan_of_other hb (never_eq_false c), tight]
        refine ⟨?_, ?_, ?_, ?_⟩
        · simp
        · simp
        · simp [leading, Gap.fill]
        · rw [joinWith_cons]; simp

/-- The canonical form of a list of types is what the scan writes for which commas separate. -/
theorem joinWith_normalPieces (cs : List Char) :
    joinWith [',', ' '] (normalPieces (cut isComma cs)) = scan isComma isMark .start cs := by
  obtain ⟨-, -, -, -, -, -, start⟩ := scan_types cs
  exact start.symm

/-! ## Scanning what was scanned -/

/-- A blank widens a gap within a gap. Where nothing was written yet it is lost, and then the outer
gap must be one that blanks do not widen. -/
theorem Gap.within_widen {g h : Gap} (hg : h = .start → g.divide = g) :
    h.widen.within g = (h.within g).widen := by
  cases h with
  | start =>
    rw [← hg rfl]
    cases g <;> rfl
  | tight => rfl
  | blank => exact g.widen_widen.symm
  | divided => exact g.divide_widen.symm

/-- A separator widens a gap within a gap, on the same condition. -/
theorem Gap.within_divide {g h : Gap} (hg : h = .start → g.divide = g) :
    h.divide.within g = (h.within g).divide := by
  cases h with
  | start => exact (hg rfl).symm
  | tight => rfl
  | blank => exact g.widen_divide.symm
  | divided => exact g.divide_divide.symm

/-- What is written for a gap is scanned as this gap. -/
theorem scan_fill {c : Char} (hb : isBlank c = false) (g h : Gap) (cs : List Char) :
    scan isComma isMark g (h.fill isMark c ++ c :: cs) =
      scan isComma isMark (h.within g) (c :: cs) := by
  cases h with
  | start | tight => rfl
  | blank =>
    cases hm : isMark c with
    | true =>
      rw [Gap.fill, if_pos hm, List.nil_append, Gap.within, scan_of_other hb (isComma_of_isMark hm),
        scan_of_other hb (isComma_of_isMark hm), Gap.fill_widen hm]
    | false =>
      rw [Gap.fill, if_neg (Bool.eq_false_iff.1 hm)]
      exact scan_of_isBlank rfl g _
  | divided =>
    have passed : scan isComma isMark g.divide (' ' :: c :: cs) =
        scan isComma isMark g.divide.widen (c :: cs) := scan_of_isBlank rfl _ _
    rw [Gap.divide_widen] at passed
    exact (scan_of_separates rfl rfl g _).trans passed

/-- A scan that follows another one writes what it would have written alone. -/
theorem scan_scan {separates : Char → Bool} (hs : ∀ c, separates c = true → isComma c = true)
    {g h : Gap} (hg : h = .start → g.divide = g) (cs rest : List Char)
    (hr : ∀ c ∈ rest.head?, isComma c = true) :
    scan isComma isMark g (scan separates isMark h cs ++ rest) =
      scan isComma isMark (h.within g) (cs ++ rest) := by
  induction cs generalizing g h with
  | nil =>
    cases rest with
    | nil => rfl
    | cons c rest =>
      have comma := hr c rfl
      simp only [scan, List.nil_append, scan_of_separates (isBlank_of_isComma comma) comma]
      cases h <;> simp [Gap.within]
  | cons c cs ih =>
    rw [List.cons_append]
    cases hb : isBlank c with
    | true =>
      have hg' : h.widen = .start → g.divide = g := by cases h <;> first | exact hg | nofun
      rw [scan_of_isBlank hb, scan_of_isBlank hb, ih hg', Gap.within_widen hg]
    | false =>
      cases hc : separates c with
      | true =>
        have hg' : h.divide = .start → g.divide = g := by cases h <;> first | exact hg | nofun
        rw [scan_of_separates hb hc, scan_of_separates hb (hs c hc), ih hg', Gap.within_divide hg]
      | false =>
        -- The character is written, and behind it neither scan is in a gap.
        have behind : ∀ g, scan isComma isMark g (scan separates isMark .tight cs ++ rest) =
            scan isComma isMark g (cs ++ rest) := fun g => ih nofun
        rw [scan_of_other hb hc, List.append_assoc, List.cons_append, scan_fill hb, scan, scan]
        simp only [behind]

/-- Scanning a list of types once more changes nothing. -/
theorem scan_start_scan (cs : List Char) :
    scan isComma isMark .start (scan isComma isMark .start cs) = scan isComma isMark .start cs := by
  have again := scan_scan (g := .start) (h := .start) (fun _ h => h) (fun _ => rfl) cs [] nofun
  rwa [List.append_nil, List.append_nil] at again

/-- Putting the types in their normal spelling first makes no difference to the scan. -/
theorem scan_normal_types {g : Gap} (hg : g.divide = g) (types : List (List Char)) :
    scan isComma isMark g (joinWith [',', ' '] (types.map normalChars)) =
      scan isComma isMark g (joinWith [','] types) := by
  induction types generalizing g with
  | nil => rfl
  | cons type types ih =>
    have alone : ∀ rest : List Char, (∀ c ∈ rest.head?, isComma c = true) →
        scan isComma isMark g (normalChars type ++ rest) =
          scan isComma isMark g (type ++ rest) := by
      rw [normalChars_eq_scan]
      exact scan_scan (fun _ h => absurd h Bool.false_ne_true) (fun _ => hg) type
    cases types with
    | nil => simpa [joinWith] using alone [] fun _ h => absurd h (Option.not_mem_none _)
    | cons next types =>
      have behind : ∀ g, scan isComma isMark g
          (',' :: ' ' :: joinWith [',', ' '] ((next :: types).map normalChars)) =
            scan isComma isMark g (',' :: joinWith [','] (next :: types)) := by
        intro g
        have comma : isComma ',' = true := rfl
        rw [scan_of_separates rfl comma, scan_of_separates rfl comma, scan_of_isBlank rfl,
          Gap.divide_widen, ih g.divide_divide]
      have joined : ∀ (separator : List Char) (ts : List (List Char)) (t t' : List Char),
          joinWith separator (t :: t' :: ts) =
            t ++ (separator ++ joinWith separator (t' :: ts)) := by
        intro separator ts t t'
        rw [joinWith, List.intercalate_cons_cons, joinWith, List.append_assoc]
      rw [List.map_cons, List.map_cons, joined, joined]
      exact (alone _ (by simp [isComma])).trans (scan_append_congr behind type g)

/-! ## Changes of the blanks -/

/-- A change of the blanks in a list of types. -/
inductive Respaces : List Char → List Char → Prop
  /-- Blanks are replaced by others. -/
  | replace (blanks blanks' : List Char) (given : blanks ≠ []) (given' : blanks' ≠ [])
    (h : ∀ c ∈ blanks, isBlank c = true) (h' : ∀ c ∈ blanks', isBlank c = true)
    (before after : List Char) :
    Respaces (before ++ (blanks ++ after)) (before ++ (blanks' ++ after))
  /-- Blanks are put before a comma or a mark. -/
  | putBefore (blanks : List Char) (c : Char) (h : ∀ c ∈ blanks, isBlank c = true)
    (hc : isComma c = true ∨ isMark c = true) (before after : List Char) :
    Respaces (before ++ c :: after) (before ++ (blanks ++ c :: after))
  /-- Blanks are put behind a comma. -/
  | putBehind (blanks : List Char) (c : Char) (h : ∀ c ∈ blanks, isBlank c = true)
    (hc : isComma c = true) (before after : List Char) :
    Respaces (before ++ c :: after) (before ++ c :: (blanks ++ after))
  /-- Blanks are put at the beginning. -/
  | putFirst (blanks : List Char) (h : ∀ c ∈ blanks, isBlank c = true) (cs : List Char) :
    Respaces cs (blanks ++ cs)
  /-- Blanks are put at the end. -/
  | putLast (blanks : List Char) (h : ∀ c ∈ blanks, isBlank c = true) (cs : List Char) :
    Respaces cs (cs ++ blanks)

/-- Whether two spellings of a list of types differ by changes of the blanks, made or taken back. -/
def Respelled : List Char → List Char → Prop := Relation.EqvGen Respaces

/-- Blanks are passed over behind a gap that blanks do not widen. -/
theorem scan_blanks {blanks : List Char} (h : ∀ c ∈ blanks, isBlank c = true) {g : Gap}
    (hg : g.widen = g) (cs : List Char) :
    scan isComma isMark g (blanks ++ cs) = scan isComma isMark g cs := by
  cases blanks with
  | nil => rfl
  | cons c blanks => rw [scan_append_of_blanks (List.cons_ne_nil _ _) h, hg]

/-- Blanks are passed over before a comma or a mark. -/
theorem scan_blanks_before {blanks : List Char} (h : ∀ c ∈ blanks, isBlank c = true) {c : Char}
    (hc : isComma c = true ∨ isMark c = true) (g : Gap) (cs : List Char) :
    scan isComma isMark g (blanks ++ c :: cs) = scan isComma isMark g (c :: cs) := by
  cases blanks with
  | nil => rfl
  | cons d blanks =>
    rw [scan_append_of_blanks (List.cons_ne_nil _ _) h]
    rcases hc with comma | mark
    · have hb := isBlank_of_isComma comma
      rw [scan_of_separates hb comma, scan_of_separates hb comma, Gap.widen_divide]
    · have hb := isBlank_of_isMark mark
      have other := isComma_of_isMark mark
      rw [scan_of_other hb other, scan_of_other hb other, Gap.fill_widen mark]

/-- A change of the blanks is not seen by the scan. -/
theorem Respaces.scan_eq {u v : List Char} (h : Respaces u v) :
    scan isComma isMark .start u = scan isComma isMark .start v := by
  cases h with
  | replace blanks blanks' given given' h h' before after =>
    refine scan_append_congr (fun g => ?_) before .start
    rw [scan_append_of_blanks given h, scan_append_of_blanks given' h']
  | putBefore blanks c h hc before after =>
    exact scan_append_congr (fun g => (scan_blanks_before h hc g after).symm) before .start
  | putBehind blanks c h hc before after =>
    refine scan_append_congr (fun g => ?_) before .start
    rw [scan_of_separates (isBlank_of_isComma hc) hc, scan_of_separates (isBlank_of_isComma hc) hc,
      scan_blanks h g.divide_widen]
  | putFirst blanks h => exact (scan_blanks h rfl u).symm
  | putLast blanks h =>
    have behind : ∀ g, scan isComma isMark g [] = scan isComma isMark g blanks := by
      intro g
      cases blanks with
      | nil => rfl
      | cons c blanks =>
        rw [← (c :: blanks).append_nil, scan_append_of_blanks (List.cons_ne_nil _ _) h]
        rfl
    simpa using scan_append_congr behind u .start

/-- Nor are several changes. -/
theorem Respelled.scan_eq {u v : List Char} (h : Respelled u v) :
    scan isComma isMark .start u = scan isComma isMark .start v := by
  induction h with
  | rel u v h => exact h.scan_eq
  | refl u => rfl
  | symm u v _ ih => exact ih.symm
  | trans u v w _ _ ih ih' => exact ih.trans ih'

end TypeSpelling

end Bindery
