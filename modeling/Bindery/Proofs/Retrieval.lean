import Bindery.Proofs.Respelling

/-!
# How documentation is found again

Documentation is filed under the canonical form of a signature, and asked for by the canonical form
of another one: that of a callable declaration is put together from the normal spellings of its
types, and that of a raw entry is whatever was written there. Main statement: `lookup_respelled`,
that a lookup tells the text of the last raw entry that is meant, and nothing else, and that blanks
in a parameter list do not keep a declaration from its documentation.
-/

namespace Bindery

/-! ## Splitting a signature -/

namespace Text

/-- Blanks around a text make no difference to what is left without outer blanks. -/
theorem strip_append_of_blanks {before after : List Char} (hb : ∀ c ∈ before, isBlank c = true)
    (ha : ∀ c ∈ after, isBlank c = true) (cs : List Char) :
    strip (before ++ (cs ++ after)) = strip cs := by
  rw [strip, strip, List.dropWhile_append_of_pos hb]
  by_cases blank : ∀ c ∈ cs, isBlank c = true
  · rw [List.dropWhile_append_of_pos blank, List.dropWhile_eq_nil_iff.2 ha,
      List.dropWhile_eq_nil_iff.2 blank]
  · have kept : (cs ++ after).dropWhile isBlank = cs.dropWhile isBlank ++ after := by
      rw [List.dropWhile_append, if_neg]
      simpa [List.dropWhile_eq_nil_iff] using blank
    rw [kept, List.reverse_append, List.dropWhile_append_of_pos]
    simpa using ha

/-- A text is what is left without outer blanks, among blanks. -/
theorem exists_eq_strip (cs : List Char) : ∃ before after, cs = before ++ (strip cs ++ after) ∧
    (∀ c ∈ before, isBlank c = true) ∧ ∀ c ∈ after, isBlank c = true := by
  refine ⟨cs.takeWhile isBlank, ((cs.dropWhile isBlank).reverse.takeWhile isBlank).reverse, ?_,
    fun c hc => List.mem_takeWhile_imp hc,
    fun c hc => List.mem_takeWhile_imp (List.mem_reverse.1 hc)⟩
  rw [strip, ← List.reverse_append, List.takeWhile_append_dropWhile, List.reverse_reverse,
    List.takeWhile_append_dropWhile]

/-- Nothing more is taken from a text without outer blanks. -/
theorem strip_strip (cs : List Char) : strip (strip cs) = strip cs := by
  obtain ⟨before, after, hc, hb, ha⟩ := exists_eq_strip cs
  have around := strip_append_of_blanks hb ha (strip cs)
  rwa [← hc, eq_comm] at around

/-- What is left without outer blanks was there. -/
theorem mem_of_mem_strip {c : Char} {cs : List Char} (h : c ∈ strip cs) : c ∈ cs := by
  obtain ⟨before, after, hc, -, -⟩ := exists_eq_strip cs
  rw [hc]
  exact List.mem_append_right _ (List.mem_append_left _ h)

/-- A text is split where the mark first occurs. -/
theorem splitFirst_append {mark : Char} {before : List Char} (h : mark ∉ before)
    (rest : List Char) : splitFirst mark (before ++ mark :: rest) = (before, some rest) := by
  induction before with
  | nil => simp [splitFirst]
  | cons c before ih =>
    rw [List.mem_cons, not_or] at h
    rw [List.cons_append, splitFirst, if_neg (Ne.symm h.1), ih h.2]

/-- Where a mark occurs last, the text before it is that before its last occurrence. -/
theorem beforeLast_append {mark : Char} {after : List Char} (h : mark ∉ after)
    (before : List Char) : beforeLast mark (before ++ mark :: after) = before := by
  have split := splitFirst_append (mt List.mem_reverse.1 h) before.reverse
  rw [beforeLast, List.reverse_append, List.reverse_cons, List.append_assoc, List.singleton_append,
    split]
  exact before.reverse_reverse

end Text

namespace Corpus

open Text TypeSpelling

/-- The canonical form of a parameter list is what the scan writes for it. -/
theorem canonicalParameters_eq_scan (rest : List Char) :
    canonicalParameters rest = scan isComma isMark .start (beforeLast ')' rest) := by
  rw [canonicalParameters, ← joinWith_normalPieces]
  rfl

/-- The canonical form of a signature without a parameter list. -/
theorem canonicalChars_of_notMem {cs : List Char} (h : '(' ∉ cs) :
    canonicalChars cs = strip cs := by
  have none := splitFirst_eq_none_iff.2 h
  rw [canonicalChars]
  split
  · rfl
  · next hs =>
    rw [hs] at none
    cases none

/-- The canonical form of a signature with a parameter list. -/
theorem canonicalChars_append {name : List Char} (h : '(' ∉ name) (rest : List Char) :
    canonicalChars (name ++ '(' :: rest) =
      strip name ++ '(' :: (scan isComma isMark .start (beforeLast ')' rest) ++ [')']) := by
  rw [canonicalChars, splitFirst_append h]
  simp only
  rw [canonicalParameters_eq_scan]

/-- A canonical form is its own canonical form. -/
theorem canonicalChars_canonicalChars (cs : List Char) :
    canonicalChars (canonicalChars cs) = canonicalChars cs := by
  by_cases h : '(' ∈ cs
  · obtain ⟨name, rest, rfl, hn⟩ := List.eq_append_cons_of_mem h
    rw [canonicalChars_append hn, canonicalChars_append (mt mem_of_mem_strip hn), strip_strip,
      beforeLast_append List.not_mem_nil,
      scan_start_scan]
  · rw [canonicalChars_of_notMem h, canonicalChars_of_notMem (mt mem_of_mem_strip h), strip_strip]

/-! ## The last raw entry -/

/-- The part of a raw entry under a key. -/
def part (es : Entries) (key : String) : Value := (es.lookup key).getD .null

/-- The signature that a raw entry is filed under, as it was written. -/
def written (es : Entries) : String :=
  if part es "signature" = .null then (part es "member").displayOr ""
  else (part es "signature").display

/-- The text of a raw entry. -/
def told (es : Entries) : String := String.ofList (strip (part es "text").display.toList)

/-- Whether a raw entry documents a member of an owner, and by what text. -/
inductive Documents (owner signature : String) : Value → String → Prop
  /-- The entry is a mapping with a text, the owner is the given one, and the signature has the same
  canonical form. -/
  | mapping {es : Entries} (given : (part es "text").isGiven = true)
    (owned : (part es "type").displayOr "" = owner)
    (signed : canonicalSignature (written es) = canonicalSignature signature) :
    Documents owner signature (.mapping es) (told es)

/-- Whether a text is that of the last of some raw entries to document a member of an owner. -/
def Tells (entries : List Value) (owner signature text : String) : Prop :=
  ∃ before entry after, entries = before ++ entry :: after ∧ Documents owner signature entry text ∧
    ∀ later ∈ after, ∀ other, ¬ Documents owner signature later other

/-- What a raw entry is filed as: it must be a mapping with a text. -/
theorem entryOf?_eq_some_iff {entry : Value} {key : CorpusKey} {text : String} :
    entryOf? entry = some (key, text) ↔ ∃ es, entry = .mapping es ∧
      (part es "text").isGiven = true ∧
      ⟨(part es "type").displayOr "", canonicalSignature (written es)⟩ = key ∧ told es = text := by
  constructor
  · intro h
    cases entry with
    | mapping es =>
      rw [entryOf?] at h
      split at h
      · next given =>
        obtain ⟨key, text⟩ := Prod.mk.inj (Option.some.inj h)
        exact ⟨es, rfl, given, key, text⟩
      · cases h
    | _ => cases h
  · rintro ⟨es, rfl, given, rfl, rfl⟩
    rw [entryOf?]
    exact if_pos given

/-- What a raw entry documents is what it is filed as. -/
theorem documents_iff {owner signature text : String} {entry : Value} :
    Documents owner signature entry text ↔
      entryOf? entry = some (⟨owner, canonicalSignature signature⟩, text) := by
  rw [entryOf?_eq_some_iff]
  constructor
  · rintro ⟨given, rfl, signed⟩
    exact ⟨_, rfl, given, by rw [signed], rfl⟩
  · rintro ⟨es, rfl, given, key, rfl⟩
    obtain ⟨owned, signed⟩ := CorpusKey.mk.inj key
    exact .mapping given owned signed

/-- The text that a raw entry puts under a key. -/
def textFor (key : CorpusKey) (entry : Value) : Option String :=
  (entryOf? entry).bind fun e => if e.1 = key then some e.2 else none

/-- A raw entry puts its text under its own key only. -/
theorem textFor_eq_some_iff {key : CorpusKey} {text : String} {entry : Value} :
    textFor key entry = some text ↔ entryOf? entry = some (key, text) := by
  rw [textFor, Option.bind_eq_some_iff]
  constructor
  · rintro ⟨⟨key', text'⟩, he, ht⟩
    split at ht
    · next same =>
      obtain rfl := Option.some.inj ht
      rw [he, ← same]
    · cases ht
  · intro h
    exact ⟨_, h, if_pos rfl⟩

/-- Filing a text changes what there is under its key only. -/
theorem lookup_fileUnder (key key' : CorpusKey) (text : String) (es : List (CorpusKey × String)) :
    (fileUnder key text es).lookup key' = if key = key' then some text else es.lookup key' := by
  have first : ∀ (k : CorpusKey) (t : String) (rest : List (CorpusKey × String)),
      ((k, t) :: rest).lookup key' = if k = key' then some t else rest.lookup key' := by
    intro k t rest
    by_cases h : k = key'
    · rw [if_pos h, h, List.lookup_cons_self]
    · rw [if_neg h, List.lookup_cons, beq_eq_false_iff_ne.2 (Ne.symm h)]
  induction es with
  | nil => rw [fileUnder, first]
  | cons e es ih =>
    obtain ⟨k, t⟩ := e
    rw [fileUnder]
    split
    · next same => rw [first, first, same]; split <;> rfl
    · next other =>
      rw [first, first, ih]
      split
      · next same => rw [if_neg fun h => other (same.trans h.symm)]
      · rfl

/-- Under a key there is the text of the last raw entry that put one there, or else what there was
before. -/
theorem lookup_addEntries (c : Corpus) (entries : List Value) (key : CorpusKey) :
    (c.addEntries entries).entries.lookup key =
      (entries.reverse.findSome? (textFor key)).or (c.entries.lookup key) := by
  -- What the first entry files is what there was before the others, which have precedence.
  induction entries generalizing c with
  | nil => rfl
  | cons entry entries ih =>
    have first : (c.addEntries (entry :: entries)) = (c.addEntries [entry]).addEntries entries := by
      rw [addEntries, addEntries, addEntries, ← List.foldl_append, ← List.filterMap_append]
      rfl
    have filed : (c.addEntries [entry]).entries.lookup key =
        (textFor key entry).or (c.entries.lookup key) := by
      rw [addEntries, textFor]
      cases he : entryOf? entry with
      | none => simp [he]
      | some e =>
        simp only [List.filterMap_cons, he, List.filterMap_nil, List.foldl_cons, List.foldl_nil,
          Option.bind_some]
        rw [lookup_fileUnder]
        split <;> simp
    rw [first, ih, filed, List.reverse_cons, List.findSome?_append, List.findSome?_singleton,
      Option.or_assoc]

/-- A lookup tells the text of the last raw entry that documents the member. -/
theorem lookup_eq_some_iff {entries : List Value} {owner signature text : String} :
    (addEntries {} entries).lookup owner signature = some text ↔
      Tells entries owner signature text := by
  rw [lookup, lookup_addEntries, List.lookup_nil, Option.or_none, List.findSome?_eq_some_iff]
  simp only [textFor_eq_some_iff, ← documents_iff, Option.eq_none_iff_forall_ne_some, Ne]
  constructor
  · rintro ⟨after, entry, before, he, documents, last⟩
    refine ⟨before.reverse, entry, after.reverse, ?_, documents,
      fun later hl => last later (List.mem_reverse.1 hl)⟩
    rw [← List.reverse_reverse entries, he]
    simp
  · rintro ⟨before, entry, after, rfl, documents, last⟩
    exact ⟨after.reverse, entry, before.reverse, by simp, documents,
      fun later hl => last later (List.mem_reverse.1 hl)⟩

/-- A lookup tells nothing just if there is no such entry. -/
theorem lookup_eq_none_iff {entries : List Value} {owner signature : String} :
    (addEntries {} entries).lookup owner signature = none ↔
      ∀ entry ∈ entries, ∀ text, ¬ Documents owner signature entry text := by
  rw [lookup, lookup_addEntries, List.lookup_nil, Option.or_none, List.findSome?_eq_none_iff]
  simp only [List.mem_reverse, documents_iff, ← textFor_eq_some_iff,
    Option.eq_none_iff_forall_ne_some]

/-- Whatever is filed is told by a raw entry. -/
theorem exists_told_of_lookup {entries : List Value} {key : CorpusKey} {text : String}
    (h : (addEntries {} entries).entries.lookup key = some text) :
    ∃ es, .mapping es ∈ entries ∧ (part es "text").isGiven = true ∧ told es = text := by
  rw [lookup_addEntries, List.lookup_nil, Option.or_none] at h
  obtain ⟨entry, he, ht⟩ := List.exists_of_findSome?_eq_some h
  obtain ⟨es, rfl, given, -, told⟩ := entryOf?_eq_some_iff.1 (textFor_eq_some_iff.1 ht)
  exact ⟨es, List.mem_reverse.1 he, given, told⟩

/-! ## Callable declarations -/

/-- How a signature may be written for something callable: the name, among blanks, and between
parentheses the types, separated by commas and with blanks changed. Anything may follow but a
closing parenthesis. -/
inductive Spells (name : List Char) (types : List (List Char)) : List Char → Prop
  /-- The blanks before and behind the name, the list, and what follows. -/
  | callable (before behind list trailing : List Char) (hb : ∀ c ∈ before, isBlank c = true)
    (ha : ∀ c ∈ behind, isBlank c = true) (respelled : Respelled (joinWith [','] types) list)
    (ht : ')' ∉ trailing) :
    Spells name types (before ++ (name ++ behind) ++ '(' :: (list ++ ')' :: trailing))

/-- The canonical form of a signature for a name and types. -/
def canonicalCall (name : List Char) (types : List (List Char)) : List Char :=
  strip name ++ '(' :: (scan isComma isMark .start (joinWith [','] types) ++ [')'])

/-- All ways to write a signature have one canonical form. -/
theorem Spells.canonical {name written : List Char} {types : List (List Char)}
    (h : Spells name types written) (hn : '(' ∉ name) :
    canonicalChars written = canonicalCall name types := by
  obtain ⟨before, behind, list, trailing, hb, ha, respelled, ht⟩ := h
  have unopened : ∀ {blanks : List Char}, (∀ c ∈ blanks, isBlank c = true) → '(' ∉ blanks :=
    fun h opened => absurd (h _ opened) (by decide)
  rw [canonicalChars_append, beforeLast_append ht, strip_append_of_blanks hb ha,
    ← respelled.scan_eq, canonicalCall]
  simp [unopened hb, hn, unopened ha]

/-- The signature of something callable has this canonical form, too. -/
theorem exists_signature_of_callable {l : Label} {callable : Signature}
    (h : l.form.signature? = some callable) (hn : '(' ∉ l.headerName.display.toList) :
    ∃ signature, l.signature = .text signature ∧ canonicalSignature signature =
      String.ofList (canonicalCall l.headerName.display.toList
        (callable.parameters.map fun p => p.type.toList)) := by
  have signed : l.signature = .text (l.headerName.display ++ "(" ++ ", ".intercalate
      (callable.parameters.map fun p => TypeSpelling.normalize p.type) ++ ")") := by
    rw [Label.signature]
    cases hf : l.form <;> rw [hf] at h <;> cases h <;> rfl
  have spelled : (l.headerName.display ++ "(" ++ ", ".intercalate
      (callable.parameters.map fun p => TypeSpelling.normalize p.type) ++ ")").toList =
        l.headerName.display.toList ++ '(' :: (joinWith [',', ' ']
          ((callable.parameters.map fun p => p.type.toList).map normalChars) ++ [')']) := by
    simp [TypeSpelling.normalize, joinWith, Function.comp_def]
  refine ⟨_, signed, congrArg String.ofList ?_⟩
  rw [spelled, canonicalChars_append hn, beforeLast_append List.not_mem_nil, scan_normal_types rfl,
    canonicalCall]

/-- Looking documentation up is indifferent to blanks, and to nothing else. A lookup tells the text
of the last raw entry whose owner is the given one and whose signature has the same canonical form,
and nothing if there is none. A canonical form is its own canonical form. And for a callable
declaration whose name has no opening parenthesis there is documentation whenever there is a raw
entry with its owner and a signature that is written for its name and the types of its parameters;
it is the text of this entry, unless a later one documents the same. -/
theorem lookup_respelled (entries : List Value) :
    (∀ owner signature text, (addEntries {} entries).lookup owner signature = some text ↔
      Tells entries owner signature text) ∧
    (∀ owner signature, (addEntries {} entries).lookup owner signature = none ↔
      ∀ entry ∈ entries, ∀ text, ¬ Documents owner signature entry text) ∧
    (∀ signature, canonicalSignature (canonicalSignature signature) =
      canonicalSignature signature) ∧
    ∀ (s : Site) (l : Label) (callable : Signature), l.form.signature? = some callable →
      Chain.isHeaderNamed s.scope = true → '(' ∉ l.headerName.display.toList →
      ∀ before es after, entries = before ++ .mapping es :: after →
        (part es "text").isGiven = true → (part es "type").displayOr "" = s.owner →
        Spells l.headerName.display.toList (callable.parameters.map fun p => p.type.toList)
          (written es).toList →
        ∃ signature text, l.signature = .text signature ∧
          (addEntries {} entries).lookupAt s l = .ok (some text) ∧
          Tells entries s.owner signature text ∧
          ((∀ later ∈ after, ∀ other, ¬ Documents s.owner signature later other) →
            text = told es) := by
  refine ⟨fun _ _ _ => lookup_eq_some_iff, fun _ _ => lookup_eq_none_iff,
    fun signature => ?_, ?_⟩
  · rw [canonicalSignature, canonicalSignature, String.toList_ofList, canonicalChars_canonicalChars]
  · intro s l callable hc named hn before es after he given owned spelled
    obtain ⟨signature, signed, canonical⟩ := exists_signature_of_callable hc hn
    have documents : Documents s.owner signature (.mapping es) (told es) := by
      refine .mapping given owned ?_
      rw [canonical, canonicalSignature, spelled.canonical hn]
    have told : (addEntries {} entries).lookup s.owner signature ≠ none := by
      rw [Ne, lookup_eq_none_iff]
      exact fun silent => silent (.mapping es) (by simp [he]) _ documents
    obtain ⟨text, found⟩ := Option.ne_none_iff_exists'.1 told
    refine ⟨signature, text, signed, ?_, lookup_eq_some_iff.1 found, fun last => ?_⟩
    · exact lookupAt_eq_ok_some_iff.2 ⟨named, _, .asMember signed found⟩
    · have own := lookup_eq_some_iff.2 ⟨before, _, after, he, documents, last⟩
      exact Option.some.inj (found.symm.trans own)

/-- A raw entry for a function that takes a template and a pointer to a function, with the blanks in
its signature changed. -/
def connectEntry : Entries :=
  [("type", .text "QMetaObject"),
    ("signature", .text "connect ( QMap<int,QString>,void ( *)(int, int)) const"),
    ("text", .text " Connects every key to a slot.\n")]

/-- That function. -/
def connectLabel : Label where
  name := .text "Connect"
  headerName := .text "connect"
  form := .method ⟨[⟨"map", "QMap<int, QString>"⟩, ⟨"slot", "void (*)(int, int)"⟩], "bool"⟩
    ⟨false, false, false, false, .null, .plain⟩

/-- Its place in a class of one header. -/
def connectSite : Site where
  address := [0, 0, 0]
  scope := [
    { name := .text "QMetaObject", headerName := .text "QMetaObject",
      form := .classType ⟨[], false, false⟩ },
    { name := .text "qobjectdefs.h", headerName := .text "qobjectdefs.h",
      form := .unit "include/QtCore/qobjectdefs.h" }]

/-- The function of the sample is documented, although its types contain commas and parentheses and
the blanks in them are not those of the entry. -/
theorem lookup_respelled_connect : (addEntries {} [.null, .mapping connectEntry]).lookupAt
    connectSite connectLabel = .ok (some "Connects every key to a slot.") := by
  have blank : ∀ c ∈ [' '], isBlank c = true := List.forall_mem_singleton.2 rfl
  have respelled : Respelled (joinWith [','] ["QMap<int, QString>".toList,
      "void (*)(int, int)".toList]) " QMap<int,QString>,void ( *)(int, int)".toList :=
    .trans _ _ _ (.rel _ _ (.putFirst [' '] blank _)) <|
    .trans _ _ _ (.symm _ _ (.rel _ _ (.putBehind [' '] ',' blank rfl " QMap<int".toList
      "QString>,void (*)(int, int)".toList))) <|
    .rel _ _ (.putBefore [' '] '*' blank (Or.inr rfl) " QMap<int,QString>,void (".toList
      ")(int, int)".toList)
  have spelled : Spells "connect".toList ["QMap<int, QString>".toList, "void (*)(int, int)".toList]
      (written connectEntry).toList :=
    .callable [] [' '] _ " const".toList nofun blank respelled (by decide)
  obtain ⟨signature, text, -, found, -, own⟩ :=
    (lookup_respelled [.null, .mapping connectEntry]).2.2.2 connectSite connectLabel _ rfl
      (by decide) (by decide) [.null] connectEntry [] rfl rfl (by decide) spelled
  rw [found, own (List.forall_mem_nil _)]
  rfl

end Corpus

end Bindery
