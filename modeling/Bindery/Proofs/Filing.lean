import Bindery.Proofs.Wording
import Mathlib.Data.List.DropRight

/-!
# What comments are filed under

Documentation is filed under an owner and a signature, and that of a type under its full name and
the empty signature. A declaration is looked up as a member of its owner first and then, unless it
is something callable or an event, as a type of its own. What has no name in the header asks, as a
member, for the empty signature of its owner, and so for the documentation of the owner itself. Main
statement: `backfillComments_typeText`, that the documentation of a type is given to the type and to
what is unnamed in it, and to nothing else.
-/

namespace Bindery

/-! ## Blank signatures -/

namespace Text

/-- Nothing is left of a text without its outer blanks just if there is nothing but blanks. -/
theorem strip_eq_nil_iff {cs : List Char} : strip cs = [] ↔ ∀ c ∈ cs, isBlank c = true := by
  rw [strip, List.reverse_eq_nil_iff, List.dropWhile_eq_nil_iff]
  simp only [List.mem_reverse]
  rw [← List.dropWhile_eq_nil_iff, List.dropWhile_idempotent, List.dropWhile_eq_nil_iff]

/-- A text is not split just if the mark does not occur. -/
theorem splitFirst_eq_none_iff {mark : Char} {cs : List Char} :
    (splitFirst mark cs).2 = none ↔ mark ∉ cs := by
  induction cs with
  | nil => simp [splitFirst]
  | cons c cs ih =>
    rw [splitFirst]
    split
    · next h => simp [h]
    · next h => simpa [Ne.symm h] using ih

end Text

namespace Corpus

/-- Only a blank signature has the empty canonical form: a parameter list is never lost. -/
theorem canonicalSignature_eq_empty_iff {signature : String} :
    canonicalSignature signature = "" ↔ ∀ c ∈ signature.toList, Text.isBlank c = true := by
  have hc : canonicalSignature signature = "" ↔ canonicalChars signature.toList = [] := by
    rw [canonicalSignature, ← String.toList_inj, String.toList_ofList]
    rfl
  rw [hc, canonicalChars]
  split
  · exact Text.strip_eq_nil_iff
  · next name rest hs =>
    refine iff_of_false (by simp) fun h => ?_
    have hm : ¬ '(' ∉ signature.toList := by
      rw [← Text.splitFirst_eq_none_iff, hs]
      simp
    exact absurd (h '(' (not_not.1 hm)) (by decide)

end Corpus

/-- The signature is blank. -/
def Label.IsUnsigned (l : Label) : Prop :=
  ∃ signature, l.signature = .text signature ∧ ∀ c ∈ signature.toList, Text.isBlank c = true

/-- Apart from events, whose signature is that of their source, the unsigned declarations are those
that are not callable and whose name in the header is blank: anonymous enumerations, for example. -/
theorem Label.isUnsigned_iff {l : Label} (h : l.form.isEvent = false) :
    l.IsUnsigned ↔ l.form.signature? = none ∧
      ∃ name, l.headerName = .text name ∧ ∀ c ∈ name.toList, Text.isBlank c = true := by
  have parenthesised : ∀ before after : String,
      ¬ ∀ c ∈ (before ++ "(" ++ after).toList, Text.isBlank c = true := by
    intro before after hb
    exact absurd (hb '(' (by simp)) (by decide)
  rw [IsUnsigned, signature]
  cases hf : l.form with
  | event adapter => simp [hf, Form.isEvent, Form.adapter?] at h
  | method signature traits | function signature | delegate signature =>
    refine iff_of_false ?_ (by simp [Form.signature?])
    rintro ⟨text, ht, hb⟩
    obtain rfl := Value.text.inj ht
    rw [String.append_assoc] at hb
    exact parenthesised _ _ hb
  | _ => simp [Form.signature?]

/-! ## Looking up -/

namespace Corpus

variable {corpus : Corpus} {s : Site} {l : Label} {key : CorpusKey} {text : String}

/-- How a text is found for the declaration at a site, and under which key it is filed. -/
inductive Finds (corpus : Corpus) (s : Site) (l : Label) : CorpusKey → String → Prop
  /-- It is filed under the owner and the signature. -/
  | asMember {signature text : String} (signed : l.signature = .text signature)
    (filed : corpus.lookup s.owner signature = some text) :
    Finds corpus s l ⟨s.owner, canonicalSignature signature⟩ text
  /-- Nothing is, and it is filed under the full name. -/
  | asType {signature text : String} (signed : l.signature = .text signature)
    (unfiled : corpus.lookup s.owner signature = none) (type : isMemberOnly l.form = false)
    (filed : corpus.lookup (s.chain l).qualifiedHeaderName "" = some text) :
    Finds corpus s l ⟨(s.chain l).qualifiedHeaderName, ""⟩ text

/-- Whether the documentation of the type with the given full name is that of a declaration: it is
this type, or its owner is and it has a blank signature. -/
def IsOfType (name : String) (s : Site) (l : Label) : Prop :=
  isMemberOnly l.form = false ∧ (s.chain l).qualifiedHeaderName = name ∨
    s.owner = name ∧ l.IsUnsigned

/-- What is found is filed. -/
theorem Finds.filed (h : corpus.Finds s l key text) : corpus.entries.lookup key = some text := by
  cases h with
  | asMember _ filed => exact filed
  | asType _ _ _ filed => exact filed

/-- What is found under the empty signature is documentation of that type. -/
theorem Finds.isOfType (h : corpus.Finds s l key text) (empty : key.signature = "") :
    IsOfType key.owner s l := by
  cases h with
  | asMember signed _ => exact Or.inr ⟨rfl, _, signed, canonicalSignature_eq_empty_iff.1 empty⟩
  | asType _ _ type _ => exact Or.inl ⟨type, rfl⟩

/-- What is found for a declaration with a signature. -/
theorem exists_finds_iff {signature : String} (signed : l.signature = .text signature) :
    (∃ key, corpus.Finds s l key text) ↔ corpus.lookup s.owner signature = some text ∨
      corpus.lookup s.owner signature = none ∧ isMemberOnly l.form = false ∧
        corpus.lookup (s.chain l).qualifiedHeaderName "" = some text := by
  constructor
  · rintro ⟨key, h⟩
    cases h with
    | asMember signed' filed =>
      obtain rfl := Value.text.inj (signed.symm.trans signed')
      exact Or.inl filed
    | asType signed' unfiled type filed =>
      obtain rfl := Value.text.inj (signed.symm.trans signed')
      exact Or.inr ⟨unfiled, type, filed⟩
  · rintro (filed | ⟨unfiled, type, filed⟩)
    · exact ⟨_, .asMember signed filed⟩
    · exact ⟨_, .asType signed unfiled type filed⟩

/-- Nothing is found for a declaration without a signature. -/
theorem Finds.isText (h : corpus.Finds s l key text) : l.signature.isText = true := by
  cases h with
  | asMember signed _ => rw [signed]; rfl
  | asType signed _ _ _ => rw [signed]; rfl

/-- Looking a declaration up comes to a text just if its owner has a full name and the text is
found. -/
theorem lookupAt_eq_ok_some_iff : corpus.lookupAt s l = .ok (some text) ↔
    Chain.isHeaderNamed s.scope = true ∧ ∃ key, corpus.Finds s l key text := by
  rw [lookupAt]
  split
  · next named =>
    rw [and_iff_right named]
    cases signed : l.signature with
    | text signature =>
      rw [exists_finds_iff signed, find]
      cases corpus.lookup s.owner signature with
      | some found => simp
      | none => cases isMemberOnly l.form <;> simp
    | _ =>
      refine iff_of_false (by simp [find, Value.isSimple]) ?_
      rintro ⟨key, h⟩
      have ht := h.isText
      rw [signed] at ht
      cases ht
  · next unnamed => exact iff_of_false (by simp) fun h => unnamed h.1

/-- What can be looked up has an owner with a full name, and a signature. -/
theorem exists_signature_of_lookupAt {found : Option String} (h : corpus.lookupAt s l = .ok found) :
    Chain.isHeaderNamed s.scope = true ∧ ∃ signature, l.signature = .text signature := by
  rw [lookupAt] at h
  split at h
  · next named =>
    refine ⟨named, ?_⟩
    cases signed : l.signature with
    | text signature => exact ⟨signature, rfl⟩
    | _ => simp [signed, find, Value.isSimple] at h
  · cases h

/-- A comment that the corpus tells. -/
theorem commentAt_eq_text_iff : corpus.commentAt s l = .text text ↔
    isDocumentable s l = true ∧ corpus.lookupAt s l = .ok (some text) := by
  rw [commentAt]
  split
  · next h =>
    rw [and_iff_right h]
    rcases corpus.lookupAt s l with fault | _ | found <;> simp
  · next h => exact iff_of_false (by simp) fun hc => h hc.1

/-- The corpus tells a text or nothing. -/
theorem commentAt_cases (corpus : Corpus) (s : Site) (l : Label) :
    corpus.commentAt s l = .null ∨ ∃ text, corpus.commentAt s l = .text text := by
  rw [commentAt]
  split
  · rcases corpus.lookupAt s l with fault | _ | found
    · exact Or.inl rfl
    · exact Or.inl rfl
    · exact Or.inr ⟨found, rfl⟩
  · exact Or.inl rfl

/-- If nothing but the documentation of one type is filed, a declaration that can be looked up finds
it just if it is that of its type. -/
theorem isSome_iff_isOfType {name : String} {found : Option String}
    (only : corpus.entries = [(⟨name, ""⟩, text)]) (h : corpus.lookupAt s l = .ok found) :
    found.isSome = true ↔ IsOfType name s l := by
  have filed : corpus.entries.lookup ⟨name, ""⟩ = some text := by rw [only, List.lookup_cons_self]
  obtain ⟨named, signature, signed⟩ := exists_signature_of_lookupAt h
  constructor
  · intro hf
    obtain ⟨found, rfl⟩ := Option.isSome_iff_exists.1 hf
    obtain ⟨-, key, finds⟩ := lookupAt_eq_ok_some_iff.1 h
    obtain rfl : key = ⟨name, ""⟩ := by
      have hk := finds.filed
      rw [only, List.lookup_cons, List.lookup_nil] at hk
      by_contra hne
      rw [beq_eq_false_iff_ne.2 hne] at hk
      cases hk
    exact finds.isOfType rfl
  · intro type
    cases found with
    | some found => rfl
    | none =>
      have unfound : ∀ key found, ¬ corpus.Finds s l key found := by
        intro key found finds
        have hs := lookupAt_eq_ok_some_iff.2 ⟨named, key, finds⟩
        rw [h] at hs
        cases hs
      rcases type with ⟨type, hq⟩ | ⟨owner, signature', signed', blank⟩
      · cases hm : corpus.lookup s.owner signature with
        | some found => exact absurd (.asMember signed hm) (unfound _ _)
        | none => exact absurd (.asType signed hm type (hq ▸ filed)) (unfound _ _)
      · have hm : corpus.lookup s.owner signature' = some text := by
          rw [lookup, owner, canonicalSignature_eq_empty_iff.2 blank, filed]
        exact absurd (.asMember signed' hm) (unfound _ _)

end Corpus

/-! ## Attaching documentation -/

/-- Work that has not stopped where a walk stops had not stopped before, and the walk does not stop. -/
theorem Work.fault_of_stopAt {w : Work} {stop : Option Stop} (h : (w.stopAt stop).fault = none) :
    w.fault = none ∧ stop = none := by
  cases stop with
  | none => exact ⟨h, rfl⟩
  | some halt => cases h

/-- After comments were cleared and documentation was attached, a comment is the one that the corpus
tells, unless attaching has stopped before. -/
theorem comment_backfillComments (corpus : Corpus) (w : Work) :
    let done := backfillComments corpus (clearComments w)
    ∀ y ∈ done.tree.survey, y.label.comment = corpus.commentAt y.site y.label ∨
      y.label.comment = .null ∧ done.fault ≠ none := by
  intro done y hy
  obtain ⟨stop, tree, stops⟩ : ∃ stop : Option Stop, done.tree = w.tree.cleared.relabel
      (fun s l => if s.isBefore stop then documentedLabel corpus s l else l) ∧
      (done.fault = none → stop = none) :=
    ⟨_, Work.tree_stopAt _ _, fun h => (Work.fault_of_stopAt h).2⟩
  rw [tree] at hy
  obtain ⟨x, hx, rfl⟩ := Tree.mem_survey_relabel.1 hy
  have cleared : x.label.comment = .null := by
    obtain ⟨z, -, rfl⟩ := Tree.mem_survey_relabel.1 hx
    rw [Located.label_relabel]
  rw [Tree.commentAt_relabel corpus (fun z _ => ?_) hx, Located.label_relabel]
  · split
    · rw [Corpus.documentedLabel_eq cleared]
      exact Or.inl rfl
    · next behind =>
      refine Or.inr ⟨cleared, fun h => behind ?_⟩
      rw [stops h]
      rfl
  · split
    · exact mayRead_documentedLabel corpus z
    · exact z.mayRead_self

/-- A tree whose comments were cleared and that was documented to the end is documented. -/
theorem isDocumented_backfillComments (corpus : Corpus) {w : Work}
    (completes : (backfillComments corpus (clearComments w)).fault = none) :
    (backfillComments corpus (clearComments w)).tree.IsDocumented corpus := by
  have running : (clearComments w).fault = none := (Work.fault_of_stopAt completes).1
  obtain ⟨documentable, stands⟩ := (backfillComments_turned corpus running).stands completes
  rw [stands.tree]
  exact Tree.isDocumented_documented documentable

/-- The documentation of a type is given to the type and to what is unnamed in it. So every comment
comes from the corpus, and if it was filed under the empty signature, it is documentation of the type
of its declaration; and if nothing but the documentation of one type is filed and attaching has come
to an end, it has been given to all that wants documentation and of which it is, and to nothing
else. -/
theorem backfillComments_typeText (corpus : Corpus) (w : Work) :
    let done := backfillComments corpus (clearComments w)
    (∀ y ∈ done.tree.survey, y.label.comment = .null ∨ ∃ key text,
      y.label.comment = .text text ∧ corpus.Finds y.site y.label key text ∧
        (key.signature = "" → Corpus.IsOfType key.owner y.site y.label)) ∧
    ∀ name text : String, corpus.entries = [(⟨name, ""⟩, text)] → done.fault = none →
      ∀ y ∈ done.tree.survey, y.label.comment ≠ .null ↔
        isDocumentable y.site y.label = true ∧ Corpus.IsOfType name y.site y.label := by
  intro done
  constructor
  · intro y hy
    rcases comment_backfillComments corpus w y hy with hc | ⟨hc, -⟩
    · rcases corpus.commentAt_cases y.site y.label with hn | ⟨text, ht⟩
      · exact Or.inl (hc.trans hn)
      · obtain ⟨-, found⟩ := Corpus.commentAt_eq_text_iff.1 ht
        obtain ⟨-, key, finds⟩ := Corpus.lookupAt_eq_ok_some_iff.1 found
        exact Or.inr ⟨key, text, hc.trans ht, finds, finds.isOfType⟩
    · exact Or.inl hc
  · intro name text only completes y hy
    have documented := isDocumented_backfillComments corpus completes
    rw [documented.comments y hy]
    constructor
    · intro hne
      obtain ⟨text', ht⟩ := (corpus.commentAt_cases y.site y.label).resolve_left hne
      obtain ⟨wanted, found⟩ := Corpus.commentAt_eq_text_iff.1 ht
      exact ⟨wanted, (Corpus.isSome_iff_isOfType only found).1 rfl⟩
    · rintro ⟨wanted, type⟩
      obtain ⟨found, hl⟩ := documented.documentable y hy wanted
      obtain ⟨text', rfl⟩ := Option.isSome_iff_exists.1
        ((Corpus.isSome_iff_isOfType only hl).2 type)
      rw [Corpus.commentAt_eq_text_iff.2 ⟨wanted, hl⟩]
      simp

/-- The dump of one header, with a class that has an anonymous enumeration. -/
def Tree.paletteDump : Value :=
  .mapping [("translation_units", .list [
    .mapping [("name", .text "qpalette.h"), ("file_path", .text "include/QtGui/qpalette.h"),
      ("declarations", .list [.mapping [("kind", .text "class"), ("name", .text "QPalette"),
        ("declarations", .list [.mapping [("kind", .text "enum"),
          ("items", .list [.mapping [("name", .text "Active"), ("value", .int 0)]])]])]])]])]

/-- The tree of that dump. -/
def Tree.paletteTree : Tree where
  units := [
    .node { name := .text "qpalette.h", headerName := .text "qpalette.h",
            form := .unit "include/QtGui/qpalette.h" } [
      .node { name := .text "QPalette", headerName := .text "QPalette",
              form := .classType ⟨[], false, false⟩ } [
        .node { name := .text "", headerName := .text "", form := .enumeration } [
          .node { name := .text "Active", headerName := .text "Active",
                  form := .enumItem (.int 0) } []]]]]

/-- A corpus with nothing but the documentation of that class. -/
def Corpus.ofPalette : Corpus :=
  addEntries {} [.mapping [("type", .text "QPalette"),
    ("text", .text "Contains color groups for each widget state.")]]

/-- The anonymous enumeration of the sample gets the documentation of its class, since this is what
its blank signature asks for. -/
theorem backfillComments_typeText_palette :
    let done := backfillComments .ofPalette (clearComments { tree := Tree.paletteTree })
    done.fault = none ∧ ∃ y ∈ done.tree.survey, y.label.form.isEnumeration = true ∧
      y.qualifiedHeaderName = "QPalette::" ∧ y.label.comment ≠ .null ∧
      Corpus.IsOfType "QPalette" y.site y.label := by
  intro done
  have completes : done.fault = none := Option.isNone_iff_eq_none.1 (by decide +kernel)
  have enum : ∃ y ∈ done.tree.survey, y.label.form.isEnumeration = true ∧
      y.qualifiedHeaderName = "QPalette::" ∧ y.label.comment ≠ .null := by decide +kernel
  obtain ⟨y, hy, he, hq, hc⟩ := enum
  have type := ((backfillComments_typeText .ofPalette { tree := Tree.paletteTree }).2 "QPalette"
    "Contains color groups for each widget state." (by decide +kernel) completes y hy).1 hc
  exact ⟨completes, y, hy, he, hq, hc, type.2⟩

/-- Not only the type itself gets its documentation: an anonymous enumeration in it does, too. -/
theorem not_typeText_of_type_only :
    ¬ ∀ (source : String) (document : Value) (t : Tree) (corpus : Corpus) (name text : String),
      Tree.ofDocument source document = .ok t → corpus.entries = [(⟨name, ""⟩, text)] →
        ∀ y ∈ (backfillComments corpus (clearComments { tree := t })).tree.survey,
          y.label.comment ≠ .null → y.qualifiedHeaderName = name := by
  intro h
  have only := h "dump.yml" Tree.paletteDump Tree.paletteTree .ofPalette "QPalette"
    "Contains color groups for each widget state." rfl (by decide +kernel)
  have enum : ∃ y ∈ (backfillComments .ofPalette
      (clearComments { tree := Tree.paletteTree })).tree.survey,
      y.label.comment ≠ .null ∧ y.qualifiedHeaderName ≠ "QPalette" := by decide +kernel
  obtain ⟨y, hy, hc, hq⟩ := enum
  exact hq (only y hy hc)

end Bindery
