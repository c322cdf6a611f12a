import Bindery.Declaration.Dump
import Bindery.Proofs.Loaded
import Mathlib.Data.List.Forall2

/-!
# Labels that are written and read back

Writing a declaration and reading it back keeps its names, its access, what it takes and returns and
the like; what sets it apart otherwise is not written, and a comment that is not given is lost. What
is left of a label is a label. The entries of a record are looked up once for the keys of every
record, of some kinds of records, and of the records below it. Main statements:
`isRecorded_labelOf`, and `labelOf_entriesOver`, that from the entries of a label what is left of it
is read.
-/

namespace Bindery

/-! ## Displayed values -/

namespace Value

/-- A number has digits. -/
theorem toString_ne_nil (n : Int) : (toString n).toList ≠ [] := by
  cases n with
  | ofNat n =>
    rw [show toString (Int.ofNat n) = String.ofList (Nat.toDigits 10 n) from rfl,
      String.toList_ofList]
    exact List.ne_nil_of_length_pos Nat.length_toDigits_pos
  | negSucc n =>
    rw [show toString (Int.negSucc n) = "-" ++ Nat.repr (n + 1) from rfl]
    simp

/-- Digits with a point are no empty text. -/
theorem writeDigits_ne_nil (digits : List Char) (point : Int) :
    Binary64.writeDigits digits point ≠ [] := by
  unfold Binary64.writeDigits
  split
  · split
    · simp
    · dsimp only
      split <;> simp
  · simp

/-- The text of a number with a fraction is not empty. -/
theorem text_ne_nil (x : Binary64) : (x.text infinityWord).toList ≠ [] := by
  rw [Binary64.text, String.toList_ofList]
  split
  · simp
  · split
    · decide
    · rw [Binary64.magnitudeText]
      split
      · simp
      · exact writeDigits_ne_nil _ _

/-- No literal is empty. -/
theorem literalChars_ne_nil (v : Value) : v.literalChars ≠ [] := by
  cases v with
  | null => decide
  | bool b => cases b <;> decide
  | int n => exact toString_ne_nil n
  | float x => exact text_ne_nil x
  | text s => simp [literalChars, Text.quoted]
  | list items => simp [literalChars]
  | mapping es => simp [literalChars]

/-- What is given does not display as the empty text. -/
theorem display_ne_empty {v : Value} (h : v.isGiven = true) : v.display ≠ "" := by
  intro he
  have hl : ∀ w : Value, w.literal ≠ "" := fun w hw => by
    rw [literal, String.ofList_eq_empty_iff] at hw
    exact literalChars_ne_nil w hw
  cases v with
  | text s =>
    obtain rfl : s = "" := he
    cases h
  | _ => exact hl _ he

/-- Where the default is no empty text, neither is what is displayed. -/
theorem displayOr_ne_empty (v : Value) {default : String} (h : default ≠ "") :
    v.displayOr default ≠ "" := by
  rw [displayOr]
  split
  · next hv => exact display_ne_empty hv
  · exact h

/-- A text displays as itself, unless it is empty. -/
theorem displayOr_text (s default : String) :
    (text s).displayOr default = if s = "" then default else s := by
  rw [displayOr, isGiven, display_text]
  by_cases h : s = "" <;> simp [h]

/-- A text displays as itself where nothing is put for the empty text. -/
theorem displayOr_text_empty (s : String) : (text s).displayOr "" = s := by
  rw [displayOr_text]
  split
  · next h => exact h.symm
  · rfl

/-- The elements of a list are its items, also if there are none. -/
theorem elementsIfGiven_list (items : List Value) : (list items).elementsIfGiven = .ok items := by
  cases items <;> rfl

end Value

/-- Going through a list yields another one if every item yields its counterpart there. -/
theorem mapM_eq_ok {β γ ε : Type} {f : β → Except ε γ} {bs : List β} {cs : List γ}
    (h : List.Forall₂ (fun b c => f b = .ok c) bs cs) : bs.mapM f = .ok cs := by
  induction h with
  | nil => rfl
  | cons hb _ ih =>
    rw [List.mapM_cons, hb, ih]
    rfl

/-! ## What is left -/

/-- What is left of a form that is written and read back. -/
def Form.reread : Form → Form
  | classType traits => classType ⟨traits.bases, false, false⟩
  | method signature traits =>
    method signature ⟨false, false, false, false, .null, traits.operator⟩
  | field _ => field ""
  | freeVariable _ => freeVariable ""
  | property _ => property ""
  | f => f

/-- What is left of a label that is written and read back. The name of a unit is not written. -/
def Label.reread (l : Label) : Label where
  name := if l.form.isUnit then .text "" else l.name
  headerName := if l.form.isUnit then .text "" else l.headerName
  access := l.access
  comment := l.comment.orElse .null
  role := l.role
  form := l.form.reread

namespace Form

@[simp] theorem word_reread (f : Form) : f.reread.word = f.word := by cases f <;> rfl

@[simp] theorem isEnumeration_reread (f : Form) : f.reread.isEnumeration = f.isEnumeration := by
  cases f <;> rfl

@[simp] theorem signature?_reread (f : Form) : f.reread.signature? = f.signature? := by
  cases f <;> rfl

@[simp] theorem adapter?_reread (f : Form) : f.reread.adapter? = f.adapter? := by cases f <;> rfl

/-- What is left takes the same role. -/
@[simp] theorem roleIn_reread (owner f : Form) : owner.reread.roleIn f.reread = owner.roleIn f := by
  cases owner <;> cases f <;> rfl

end Form

namespace Label

variable {l : Label}

/-- What is left of a label has what is left of its form. -/
@[simp] theorem form_reread (l : Label) : l.reread.form = l.form.reread := rfl

/-- All but units keep their target-facing names. -/
theorem name_reread (unit : l.form.isUnit = false) : l.reread.name = l.name := by
  rw [reread, unit]
  rfl

/-- All but units keep their names in the header. -/
theorem headerName_reread (unit : l.form.isUnit = false) : l.reread.headerName = l.headerName := by
  rw [reread, unit]
  rfl

end Label

/-- A label as a record yields it. -/
structure Label.IsRecorded (l : Label) : Prop where
  /-- It is named by texts, and if its name in the header is empty, so is the other one. -/
  names : ∃ name header, l.name = .text name ∧ l.headerName = .text header ∧
    (header = "" → name = "")
  /-- What it returns is not empty. -/
  returns : ∀ s, l.form.signature? = some s → s.returnType ≠ ""
  /-- There are records of its form. -/
  hasRecords : l.form.hasRecords = true

namespace Decl

/-- Common parts name a declaration, and if its name in the header is empty, so is the other one. -/
theorem blank_of_commonParts {record : Value} {parts : CommonParts}
    (h : commonParts record = .ok parts) : parts.headerName = "" → parts.name = "" := by
  obtain ⟨kind, -, h⟩ := exists_of_bind_eq_ok h
  obtain ⟨name, -, h⟩ := exists_of_bind_eq_ok h
  obtain ⟨given, -, h⟩ := exists_of_bind_eq_ok h
  obtain ⟨accessWord, -, h⟩ := exists_of_bind_eq_ok h
  obtain ⟨access, -, h⟩ := exists_of_bind_eq_ok h
  obtain ⟨comment, -, h⟩ := exists_of_bind_eq_ok h
  obtain rfl := Except.ok.inj h
  intro blank
  dsimp only at blank ⊢
  split at blank
  · exact blank
  · next hg => exact absurd (String.isEmpty_iff.2 blank) hg

/-- What something callable returns is not empty. -/
theorem returnType_ne_empty {record : Value} {s : Signature} (h : signatureOf record = .ok s) :
    s.returnType ≠ "" := by
  obtain ⟨listed, -, h⟩ := exists_of_bind_eq_ok h
  obtain ⟨records, -, h⟩ := exists_of_bind_eq_ok h
  obtain ⟨parameters, -, h⟩ := exists_of_bind_eq_ok h
  obtain ⟨returned, -, h⟩ := exists_of_bind_eq_ok h
  obtain rfl := Except.ok.inj h
  exact returned.displayOr_ne_empty (by decide)

/-- The label of a record is one that a record yields. -/
theorem isRecorded_labelOf {source : String} {record : Value} {l : Label}
    (h : labelOf source record = .ok l) : l.IsRecorded := by
  obtain ⟨parts, form, hp, rfl, -, read⟩ := exists_form_of_labelOf h
  exact ⟨⟨_, _, rfl, rfl, blank_of_commonParts hp⟩,
    fun s hs => returnType_ne_empty (read.signature s hs), read.hasRecords⟩

end Decl

/-! ## Entries -/

/-- An entry at the head is found under its key, and what comes behind it under the others. -/
theorem Entries.lookup_cons (k key : String) (v : Value) (es : Entries) :
    List.lookup key ((k, v) :: es) = if key = k then some v else es.lookup key := by
  rw [List.lookup_cons]
  by_cases h : key = k
  · simp [h]
  · simp [h, beq_eq_false_iff_ne.2 h]

namespace Decl

/-- An entry that is written under a condition is found under its key if the condition holds. -/
theorem lookup_entryIf (condition : Bool) (k key : String) (v : Value) :
    (entryIf condition k v).lookup key = if condition = true ∧ key = k then some v else none := by
  cases condition <;> simp [entryIf, Entries.lookup_cons]

/-- The entries of a label with some records below it. -/
def entriesOver (sourceName : Option Value) (l : Label) (records : List Value) : Entries :=
  labelEntries sourceName l ++ entryIf (!records.isEmpty) (membersKey l.form) (.list records)

/-- The keys of every record. -/
def labelKeys : List String :=
  ["kind", "name", "generation_kind", "original_name", "explicitly_ignored", "access", "comment"]

/-- The keys that only records of some kinds are asked for. -/
def formKeys : List String :=
  ["bases", "return_type", "parameters", "operator", "value", "virtual", "override", "static",
    "has_body", "section", "incomplete", "type"]

/-- The keys for the records below a record. -/
def memberKeys : List String := ["items", "declarations"]

/-- The key for the records below a record is one of two. -/
theorem membersKey_mem (f : Form) : membersKey f ∈ memberKeys := by
  rw [membersKey]
  split <;> decide

/-- Keys of different kinds are different. -/
theorem ne_of_apart {ks ls : List String} (apart : ∀ k ∈ ks, k ∉ ls) {k l : String} (hk : k ∈ ks)
    (hl : l ∈ ls) : k ≠ l := fun e => apart k hk (e ▸ hl)

variable {sourceName : Option Value} {l : Label} {records : List Value} {key : String}

/-- A form has no entry for what every record has, or for the records below it. -/
theorem lookup_formEntries (event : l.form.isEvent = false) (h : key ∈ labelKeys ++ memberKeys) :
    (formEntries sourceName l.form).lookup key = none := by
  have other : ∀ k ∈ "type_kind" :: formKeys, key ≠ k := fun k => ne_of_apart (by decide) h
  simp only [formKeys, List.forall_mem_cons] at other
  cases hf : l.form with
  | event adapter => simp [hf, Form.isEvent, Form.adapter?] at event
  | _ => simp [formEntries, lookup_entryIf, Entries.lookup_cons, other]

/-- What every record has is found among the entries of the label. -/
theorem entry_of_mem_labelKeys (h : key ∈ labelKeys) :
    (Value.mapping (entriesOver sourceName l records)).entry key =
      .ok (((labelEntries sourceName l).lookup key).getD .null) := by
  have member : key ≠ membersKey l.form := ne_of_apart (by decide) h (membersKey_mem l.form)
  rw [Value.entry, entriesOver, List.lookup_append, lookup_entryIf, if_neg fun hc => member hc.2,
    Option.or_none]

/-- What some records have is found among the entries of the form. -/
theorem entry_of_mem_formKeys (h : key ∈ formKeys) :
    (Value.mapping (entriesOver sourceName l records)).entry key =
      .ok (((formEntries sourceName l.form).lookup key).getD .null) := by
  have member : key ≠ membersKey l.form := ne_of_apart (by decide) h (membersKey_mem l.form)
  have other : ∀ k ∈ labelKeys, key ≠ k := fun k => ne_of_apart (by decide) h
  simp only [labelKeys, List.forall_mem_cons] at other
  simp [Value.entry, entriesOver, labelEntries, lookup_entryIf, List.lookup_append,
    Entries.lookup_cons, other, member]

/-- The records below a record are found under their key, if there are any. -/
theorem lookup_of_mem_memberKeys (event : l.form.isEvent = false) (h : key ∈ memberKeys) :
    (entriesOver sourceName l records).lookup key =
      if records.isEmpty = false ∧ key = membersKey l.form then some (.list records) else none := by
  have other : ∀ k ∈ labelKeys, key ≠ k := fun k => ne_of_apart (by decide) h
  simp only [labelKeys, List.forall_mem_cons] at other
  simp [entriesOver, labelEntries, lookup_entryIf, List.lookup_append, Entries.lookup_cons, other,
    lookup_formEntries event (List.mem_append_right _ h)]

/-! ## Reading entries -/

/-- The word for an access is read as that access. -/
theorem accessOf_word (a : Access) : accessOf (.text a.word) = .ok a := by cases a <;> rfl

/-- The word for a kind of operator is read as that kind. -/
theorem operatorOf_word (k : OperatorKind) : operatorOf (.text k.word) = .ok k := by
  cases k <;> rfl

/-- The record of a parameter is read as that parameter. -/
theorem parameterOf_parameterRecord (p : Parameter) : parameterOf (parameterRecord p) = .ok p := by
  have read : parameterOf (parameterRecord p) =
      .ok ⟨(Value.text p.name).displayOr "", (Value.text p.type).displayOr ""⟩ := rfl
  rw [read, Value.displayOr_text_empty, Value.displayOr_text_empty]

/-- A name in the header is read, whether it is written or not. -/
theorem headerName_written {name header : String} (blank : header = "" → name = "") :
    let given := (if header = name then Value.null else .text header).displayOr ""
    (if given.isEmpty then name else given) = header := by
  intro given
  by_cases h : header = name
  · simp [given, h, Value.displayOr, Value.isGiven]
  · have hne : header ≠ "" := fun e => h (e.trans (blank e).symm)
    simp [given, h, Value.displayOr_text, hne]

/-- The parts that every record has are read from what is written. -/
theorem commonParts_entriesOver {name header : String} (hname : l.name = .text name)
    (hheader : l.headerName = .text header) (blank : header = "" → name = "")
    (event : l.form.isEvent = false) :
    commonParts (.mapping (entriesOver sourceName l records)) =
      .ok ⟨.text l.form.word, name, header, l.access, l.comment.orElse .null⟩ := by
  have absent : ∀ key ∈ labelKeys, (formEntries sourceName l.form).lookup key = none :=
    fun key hk => lookup_formEntries event (List.mem_append_left _ hk)
  have entry : ∀ key ∈ labelKeys, (Value.mapping (entriesOver sourceName l records)).entry key =
      .ok (((labelEntries sourceName l).lookup key).getD .null) :=
    fun key => entry_of_mem_labelKeys
  simp only [labelKeys, List.forall_mem_cons] at absent entry
  have kind : (labelEntries sourceName l).lookup "kind" = some (.text l.form.word) := by
    simp [labelEntries]
  have shown : (labelEntries sourceName l).lookup "name" = some (.text name) := by
    simp [labelEntries, Entries.lookup_cons, hname]
  have access : (labelEntries sourceName l).lookup "access" = some (.text l.access.word) := by
    simp [labelEntries, lookup_entryIf, List.lookup_append, Entries.lookup_cons]
  have given : ((labelEntries sourceName l).lookup "original_name").getD .null =
      if header = name then .null else .text header := by
    simp [labelEntries, lookup_entryIf, List.lookup_append, Entries.lookup_cons, hname, hheader,
      absent]
    split <;> rfl
  have comment : ((labelEntries sourceName l).lookup "comment").getD .null =
      l.comment.orElse .null := by
    rw [Value.orElse]
    simp [labelEntries, lookup_entryIf, List.lookup_append, Entries.lookup_cons, absent]
    split <;> rfl
  rw [commonParts, entry.1, entry.2.1, entry.2.2.2.1, entry.2.2.2.2.2.1, entry.2.2.2.2.2.2.1, kind,
    shown, access, given, comment]
  simp only [bind, Except.bind, pure, Except.pure, Option.getD_some, accessOf_word,
    Value.displayOr_text_empty, headerName_written blank]

/-- What something callable takes and returns is read from what is written. -/
theorem signatureOf_entriesOver {s : Signature} (hs : l.form.signature? = some s)
    (returns : s.returnType ≠ "") :
    signatureOf (.mapping (entriesOver sourceName l records)) = .ok s := by
  obtain ⟨listed, returned⟩ :
      (formEntries sourceName l.form).lookup "parameters" =
        some (.list (s.parameters.map parameterRecord)) ∧
      (formEntries sourceName l.form).lookup "return_type" = some (.text s.returnType) := by
    cases hf : l.form <;> simp [hf, Form.signature?] at hs <;> subst hs <;>
      simp [formEntries, Entries.lookup_cons]
  have parameters : (s.parameters.map parameterRecord).mapM parameterOf = .ok s.parameters :=
    mapM_eq_ok (List.forall₂_map_left_iff.2
      (List.forall₂_same.2 fun p _ => parameterOf_parameterRecord p))
  rw [signatureOf, entry_of_mem_formKeys (by decide), entry_of_mem_formKeys (by decide), listed,
    returned]
  simp only [bind, Except.bind, pure, Except.pure, Option.getD_some, Value.elementsIfGiven_list,
    parameters, Value.displayOr_text, if_neg returns]

/-- The bases of a class are read from what is written. -/
theorem classTraitsOf_entriesOver {traits : ClassTraits} (hf : l.form = .classType traits) :
    classTraitsOf (.mapping (entriesOver sourceName l records)) =
      .ok ⟨traits.bases, false, false⟩ := by
  have bases : (((formEntries sourceName l.form).lookup "bases").getD .null).elementsIfGiven =
      .ok (traits.bases.map Value.text) := by
    rw [hf]
    cases hb : traits.bases with
    | nil =>
      simp [formEntries, Entries.lookup_cons, lookup_entryIf, hb, Value.elementsIfGiven,
        Value.isGiven]
    | cons base bases =>
      simp [formEntries, Entries.lookup_cons, lookup_entryIf, hb, Value.elementsIfGiven_list]
  have incomplete : (formEntries sourceName l.form).lookup "incomplete" = none := by
    simp [hf, formEntries, Entries.lookup_cons, lookup_entryIf]
  have shown : (traits.bases.map Value.text).map Value.display = traits.bases := by
    simp [Function.comp_def]
  rw [classTraitsOf, flagOf, entry_of_mem_formKeys (by decide), entry_of_mem_formKeys (by decide),
    incomplete]
  simp only [bind, Except.bind, pure, Except.pure, bases, shown]
  rfl

/-- The kind of operator is read from what is written, and nothing else that sets a method apart. -/
theorem methodTraitsOf_entriesOver {s : Signature} {traits : MethodTraits}
    (hf : l.form = .method s traits) :
    methodTraitsOf (.mapping (entriesOver sourceName l records)) =
      .ok ⟨false, false, false, false, .null, traits.operator⟩ := by
  have absent : ∀ key ∈ ["virtual", "override", "static", "has_body", "section"],
      (Value.mapping (entriesOver sourceName l records)).entry key = .ok .null := by
    intro key hk
    have other : ∀ k ∈ ["return_type", "parameters", "operator"], key ≠ k :=
      fun k => ne_of_apart (by decide) hk
    simp only [List.forall_mem_cons] at other
    rw [entry_of_mem_formKeys (by revert key; decide), hf]
    simp [formEntries, Entries.lookup_cons, lookup_entryIf, other]
  have operator : operatorOf (((formEntries sourceName l.form).lookup "operator").getD .null) =
      .ok traits.operator := by
    rw [hf]
    cases ho : traits.operator with
    | plain => simp [formEntries, Entries.lookup_cons, lookup_entryIf, ho]; rfl
    | _ => simp [formEntries, Entries.lookup_cons, lookup_entryIf, ho, operatorOf_word]
  simp only [List.forall_mem_cons] at absent
  rw [methodTraitsOf, flagOf, flagOf, flagOf, flagOf, absent.1, absent.2.1, absent.2.2.1,
    absent.2.2.2.1, absent.2.2.2.2.1, entry_of_mem_formKeys (by decide)]
  simp only [bind, Except.bind, pure, Except.pure, operator]
  rfl

/-- The type of a variable is not written. -/
theorem typeOf_entriesOver (hf : formEntries sourceName l.form = []) :
    typeOf (.mapping (entriesOver sourceName l records)) = .ok "" := by
  rw [typeOf, entry_of_mem_formKeys (by decide), hf]
  rfl

/-- An enumerator is read from what is written of it. -/
theorem enumItemOf_entriesOver {name : String} {value : Value} (hname : l.name = .text name)
    (hf : l.form = .enumItem value) : enumItemOf (.mapping (entriesOver sourceName l records)) =
      .ok (.node { name := .text name, headerName := .text name, form := .enumItem value } []) := by
  have named : (Value.mapping (entriesOver sourceName l records)).require "name" =
      .ok (.text name) := by
    simp [Value.require, entriesOver, labelEntries, Entries.lookup_cons, hname]
  have valued : ((formEntries sourceName l.form).lookup "value").getD .null = value := by
    rw [hf, formEntries, lookup_entryIf]
    by_cases hv : value = .null <;> simp [hv]
  rw [enumItemOf, named, entry_of_mem_formKeys (by decide)]
  simp only [bind, Except.bind, valued]
  rfl

/-- From the entries of a label that a record has yielded, what is left of it is read. -/
theorem labelOf_entriesOver (source : String) (h : l.IsRecorded) :
    labelOf source (.mapping (entriesOver sourceName l records)) =
      .ok { l.reread with role := .nested } := by
  obtain ⟨name, header, hname, hheader, blank⟩ := h.names
  obtain ⟨unit, item, event⟩ := Form.hasRecords_iff.1 h.hasRecords
  have label : CommonParts.label ⟨.text l.form.word, name, header, l.access, l.comment.orElse .null⟩
      l.form.reread = { l.reread with role := .nested } := by
    rw [CommonParts.label, Label.reread, unit, hname, hheader]
    rfl
  rw [← label, labelOf, commonParts_entriesOver hname hheader blank event]
  have takes : ∀ s, l.form.signature? = some s →
      signatureOf (.mapping (entriesOver sourceName l records)) = .ok s :=
    fun s hs => signatureOf_entriesOver hs (h.returns s hs)
  have type : formEntries sourceName l.form = [] →
      typeOf (.mapping (entriesOver sourceName l records)) = .ok "" := typeOf_entriesOver
  cases hf : l.form with
  | unit path => simp [hf, Form.isUnit] at unit
  | enumItem value => simp [hf, Form.isEnumItem] at item
  | event adapter => simp [hf, Form.isEvent, Form.adapter?] at event
  | nameSpace | enumeration => rfl
  | classType traits =>
    simp only [bind, Except.bind, Form.word, classTraitsOf_entriesOver hf]
    rfl
  | method s traits =>
    simp only [bind, Except.bind, Form.word, takes s (by rw [hf]; rfl),
      methodTraitsOf_entriesOver hf]
    rfl
  | function s | delegate s =>
    simp only [bind, Except.bind, Form.word, takes s (by rw [hf]; rfl)]
    rfl
  | field text | freeVariable text | property text =>
    simp only [bind, Except.bind, Form.word, type (by rw [hf]; rfl)]
    rfl

end Decl

end Bindery
