import Bindery.Proofs.Loaded
import Bindery.Proofs.Reading

/-!
# What loading a dump comes to

A dump of any shape should load or be reported as a fault of the dump. This is so as long as every
part that is read item by item has items: the records of units and of nested declarations, the bases
of a class, the parameters of something callable, and the enumerators of an enumeration, which must
be mappings. Where one of these parts is of another kind, the fault of a value of the wrong kind
comes out as it is. Main statement: `Tree.ofDocument_reported_or_wrongKind`.
-/

namespace Bindery

/-- Whether a value can be read item by item: what is not given has no items. -/
def Value.isIterable : Value → Bool
  | .list _ | .text _ | .mapping _ => true
  | v => !v.isGiven

/-- The part of a record under a key, the absent value if there is none. -/
def Entries.part (es : Entries) (key : String) : Value := (es.lookup key).getD .null

namespace Decl

/-- Whether a part lists mappings and nothing else, or is not given. -/
def listsMappings : Value → Bool
  | .list items => items.all Value.isMapping
  | v => !v.isGiven

/-- Whether the bases of a class or the parameters of something callable can be read item by item. -/
def hasIterableHead (es : Entries) : Bool :=
  match es.part "kind" with
  | .text "class" => (es.part "bases").isIterable
  | .text "method" | .text "function" | .text "delegate" => (es.part "parameters").isIterable
  | _ => true

mutual

/-- Whether every part of a record that is read item by item can be. -/
def isIterableRecord (record : Value) : Bool :=
  match record with
  | .mapping es =>
    hasIterableHead es &&
      match Entries.part es "kind" with
      | .text "namespace" | .text "class" => isIterableNest es
      | .text "enum" => listsMappings (Entries.part es "items")
      | _ => true
  | _ => true
termination_by structural record

/-- Whether the nested declarations can be read item by item, and the same holds of them. -/
def isIterableNest (es : List (String × Value)) : Bool :=
  match es with
  | [] => true
  | (key, v) :: es => if key = "declarations" then areIterableRecords v else isIterableNest es
termination_by structural es

/-- Whether the records that a part holds can be read item by item, and the same holds of them. -/
def areIterableRecords (v : Value) : Bool :=
  match v with
  | .list items => areIterableItems items
  | v => v.isIterable
termination_by structural v

/-- Whether the same holds of every record of a list. -/
def areIterableItems (vs : List Value) : Bool :=
  match vs with
  | [] => true
  | v :: vs => isIterableRecord v && areIterableItems vs
termination_by structural vs

end

end Decl

/-- Whether every part of a unit record that is read item by item can be. -/
def Tree.isIterableUnit : Value → Bool
  | .mapping es => Decl.isIterableNest es
  | _ => true

/-- Whether the unit records that a part holds can be read item by item, and the same holds of
them. -/
def Tree.areIterableUnits : Value → Bool
  | .list units => units.all isIterableUnit
  | v => v.isIterable

/-- Whether every part of a dump that is read item by item can be. -/
def Tree.isIterableDump (document : Value) : Bool :=
  match document.orElse (.mapping []) with
  | .mapping es => areIterableUnits (Entries.part es "translation_units")
  | _ => true

/-- Whether a fault of a record is reported as one of the dump. -/
def Fault.isOfDump : Fault → Bool
  | .noSuchPart _ _ | .missingKey _ | .unknownChoice _ _ => true
  | fault => fault.isConfiguration

/-! ## Parts that are read item by item -/

/-- A text that is not empty has code points. -/
theorem Text.glyphs_ne_nil {cs : List Char} (h : cs ≠ []) : glyphs cs ≠ [] := by
  match cs with
  | [] => exact absurd rfl h
  | [a] => simp [glyphs]
  | [a, b] => simp [glyphs]
  | a :: b :: c :: rest =>
    rw [glyphs]
    split <;> simp

namespace Value

/-- A part that is read item by item is a list, or it holds texts, none unless it is given, or it is
of the wrong kind. -/
theorem elementsIfGiven_cases (v : Value) :
    (∃ items, v = .list items ∧ v.elementsIfGiven = .ok items) ∨
    (∃ texts : List String, v.elementsIfGiven = .ok (texts.map .text) ∧ v.isIterable = true ∧
      v.items? = none ∧ v.isGiven = !texts.isEmpty) ∨
    (v.elementsIfGiven = .error .wrongKind ∧ v.isIterable = false ∧ v.items? = none ∧
      v.isGiven = true) := by
  rw [elementsIfGiven]
  cases hg : v.isGiven with
  | false =>
    cases v with
    | list items =>
      have hi : items = [] := by simpa [isGiven] using hg
      exact Or.inl ⟨items, rfl, by rw [hi]; rfl⟩
    | text s => exact Or.inr (Or.inl ⟨[], rfl, rfl, rfl, rfl⟩)
    | mapping es => exact Or.inr (Or.inl ⟨[], rfl, rfl, rfl, rfl⟩)
    | _ => exact Or.inr (Or.inl ⟨[], rfl, congrArg not hg, rfl, rfl⟩)
  | true =>
    rw [if_pos rfl]
    cases v with
    | list items => exact Or.inl ⟨items, rfl, rfl⟩
    | text s =>
      have hn : Text.glyphs s.toList ≠ [] := Text.glyphs_ne_nil (by simpa [isGiven] using hg)
      refine Or.inr (Or.inl ⟨(Text.glyphs s.toList).map String.ofList, ?_, rfl, rfl, ?_⟩)
      · rw [List.map_map]
        rfl
      · simpa using hn
    | mapping es =>
      refine Or.inr (Or.inl ⟨es.map Prod.fst, ?_, rfl, rfl, ?_⟩)
      · rw [List.map_map]
        rfl
      · simpa [isGiven] using hg
    | _ => exact Or.inr (Or.inr ⟨rfl, congrArg not hg, rfl, rfl⟩)

/-- The items of a part can be read just if it can be read item by item. -/
theorem reads_elementsIfGiven (reported : Fault → Bool) (v : Value) :
    Reads reported v.isIterable v.elementsIfGiven := by
  rcases v.elementsIfGiven_cases with ⟨items, rfl, he⟩ | ⟨texts, he, hi, -, -⟩ | ⟨he, hi, -, -⟩
  · rw [he]
    exact rfl
  · rw [he, hi]
    exact rfl
  · rw [he, hi]
    exact Or.inr ⟨rfl, rfl⟩

end Value

/-- A part that is no list does not list anything if it is given. -/
theorem Decl.listsMappings_eq {v : Value} (h : v.items? = none) : listsMappings v = !v.isGiven := by
  cases v with
  | list items => cases h
  | _ => rfl

/-! ## Records -/

namespace Decl

/-- Asking for an entry comes to a value or is a fault of the dump. -/
theorem reads_entry (v : Value) (key : String) : Reads Fault.isOfDump true (v.entry key) := by
  cases v with
  | mapping es => exact rfl
  | _ => exact Or.inl rfl

/-- A flag comes to a value or is a fault of the dump. -/
theorem reads_flagOf (record : Value) (key : String) :
    Reads Fault.isOfDump true (flagOf record key) := (reads_entry record key).map Value.isGiven

/-- A type comes to a value or is a fault of the dump. -/
theorem reads_typeOf (record : Value) : Reads Fault.isOfDump true (typeOf record) :=
  (reads_entry record "type").map _

/-- An access comes to a value or is a fault of the dump. -/
theorem reads_accessOf (v : Value) : Reads Fault.isOfDump true (accessOf v) := by
  rw [accessOf]
  split
  · exact rfl
  · exact Or.inl rfl

/-- A kind of operator comes to a value or is a fault of the dump. -/
theorem reads_operatorOf (v : Value) : Reads Fault.isOfDump true (operatorOf v) := by
  rw [operatorOf]
  split
  · exact rfl
  · exact Or.inl rfl

/-- The common parts come to a value or are a fault of the dump. -/
theorem reads_commonParts (record : Value) : Reads Fault.isOfDump true (commonParts record) := by
  rw [commonParts]
  refine (reads_entry record "kind").followed fun kind _ => ?_
  refine (reads_entry record "name").followed fun name _ => ?_
  refine (reads_entry record "original_name").followed fun given _ => ?_
  refine (reads_entry record "access").followed fun access _ => ?_
  refine (reads_accessOf access).followed fun access _ => ?_
  exact (reads_entry record "comment").followed fun comment _ => rfl

/-- The kind among the common parts is that of the record. -/
theorem kind_commonParts {es : Entries} {parts : CommonParts}
    (h : commonParts (.mapping es) = .ok parts) : parts.kind = es.part "kind" := by
  obtain ⟨kind, hk, h⟩ := exists_of_bind_eq_ok h
  obtain ⟨name, -, h⟩ := exists_of_bind_eq_ok h
  obtain ⟨given, -, h⟩ := exists_of_bind_eq_ok h
  obtain ⟨access, -, h⟩ := exists_of_bind_eq_ok h
  obtain ⟨access, -, h⟩ := exists_of_bind_eq_ok h
  obtain ⟨comment, -, h⟩ := exists_of_bind_eq_ok h
  obtain rfl := Except.ok.inj h
  exact (Except.ok.inj hk).symm

/-- A parameter comes to a value or is a fault of the dump. -/
theorem reads_parameterOf (record : Value) : Reads Fault.isOfDump true (parameterOf record) := by
  rw [parameterOf]
  refine (reads_entry record "name").followed fun name _ => ?_
  exact (reads_entry record "type").followed fun type _ => rfl

/-- A signature comes to a value or is a fault of the dump, if its parameters have items. -/
theorem reads_signatureOf (es : Entries) :
    Reads Fault.isOfDump (es.part "parameters").isIterable (signatureOf (.mapping es)) := by
  rw [signatureOf]
  refine (reads_entry _ "parameters").followed fun listed hl => ?_
  obtain rfl : es.part "parameters" = listed := Except.ok.inj hl
  rw [← Bool.and_true (es.part "parameters").isIterable]
  refine (Value.reads_elementsIfGiven _ _).bind fun records _ => ?_
  refine (Reads.mapM_of_sound fun record _ => reads_parameterOf record).followed fun ps _ => ?_
  exact (reads_entry _ "return_type").followed fun type _ => rfl

/-- What sets a method apart comes to a value or is a fault of the dump. -/
theorem reads_methodTraitsOf (record : Value) :
    Reads Fault.isOfDump true (methodTraitsOf record) := by
  rw [methodTraitsOf]
  refine (reads_flagOf record "virtual").followed fun isVirtual _ => ?_
  refine (reads_flagOf record "override").followed fun isOverride _ => ?_
  refine (reads_flagOf record "static").followed fun isStatic _ => ?_
  refine (reads_flagOf record "has_body").followed fun hasBody _ => ?_
  refine (reads_entry record "section").followed fun sectionLabel _ => ?_
  refine (reads_entry record "operator").followed fun operator _ => ?_
  exact (reads_operatorOf operator).followed fun operator _ => rfl

/-- What sets a class apart comes to a value or is a fault of the dump, if its bases have items. -/
theorem reads_classTraitsOf (es : Entries) :
    Reads Fault.isOfDump (es.part "bases").isIterable (classTraitsOf (.mapping es)) := by
  rw [classTraitsOf]
  refine (reads_entry _ "bases").followed fun listed hl => ?_
  obtain rfl : es.part "bases" = listed := Except.ok.inj hl
  rw [← Bool.and_true (es.part "bases").isIterable]
  refine (Value.reads_elementsIfGiven _ _).bind fun bases _ => ?_
  exact (reads_flagOf _ "incomplete").followed fun isIncomplete _ => rfl

/-- An enumerator comes to a value or is a fault of the dump, if it is a mapping. -/
theorem reads_enumItemOf (record : Value) :
    Reads Fault.isOfDump record.isMapping (enumItemOf record) := by
  rw [enumItemOf]
  rw [← Bool.and_true record.isMapping]
  refine Reads.bind ?_ fun name _ => (reads_entry record "value").followed fun value _ => rfl
  cases record with
  | mapping es =>
    rw [Value.require]
    split
    · exact rfl
    · exact Or.inl rfl
  | _ => exact Or.inr ⟨rfl, rfl⟩

/-- Enumerators come to values or are a fault of the dump, if they are listed and are mappings. -/
theorem reads_items (v : Value) :
    Reads Fault.isOfDump (listsMappings v)
      (v.elementsIfGiven >>= fun items => items.mapM enumItemOf) := by
  have all : ∀ items : List Value,
      Reads Fault.isOfDump (items.all Value.isMapping) (items.mapM enumItemOf) :=
    fun items => Reads.mapM fun item _ => reads_enumItemOf item
  rcases v.elementsIfGiven_cases with ⟨items, rfl, he⟩ | ⟨texts, he, -, hl, hg⟩ | ⟨he, -, hl, hg⟩
  · rw [he]
    exact all items
  · have ha : (texts.map Value.text).all Value.isMapping = listsMappings v := by
      rw [listsMappings_eq hl, hg]
      cases texts <;> rfl
    rw [he, ← ha]
    exact all _
  · rw [he, listsMappings_eq hl, hg]
    exact Or.inr ⟨rfl, rfl⟩

/-- A label comes to a value or is a fault of the dump, if its bases or parameters have items. -/
theorem reads_labelOf (source : String) (es : Entries) :
    Reads Fault.isOfDump (hasIterableHead es) (labelOf source (.mapping es)) := by
  rw [labelOf]
  refine (reads_commonParts _).followed fun parts hp => ?_
  rw [hasIterableHead, ← kind_commonParts hp]
  generalize parts.kind = kind
  have last : ∀ {α : Type} {sound : Bool} {read : Except Fault α} (form : α → Form),
      Reads Fault.isOfDump sound read →
        Reads Fault.isOfDump sound (read >>= fun a => pure (parts.label (form a))) := by
    intro α sound read form h
    rw [← Bool.and_true sound]
    exact h.bind fun a _ => rfl
  split
  · exact last _ (reads_classTraitsOf es)
  · rw [← Bool.and_true (es.part "parameters").isIterable]
    exact (reads_signatureOf es).bind fun s _ => last (.method s) (reads_methodTraitsOf _)
  · exact last _ (reads_signatureOf es)
  · exact last _ (reads_signatureOf es)
  · next hc hm hf hd =>
    split
    · exact rfl
    · exact absurd rfl hc
    · exact rfl
    · exact absurd rfl hm
    · exact absurd rfl hf
    · exact absurd rfl hd
    · exact last _ (reads_typeOf _)
    · exact last _ (reads_typeOf _)
    · exact last _ (reads_typeOf _)
    · exact Or.inl rfl

/-- The kind of a record is the word for the form that its label has. -/
theorem kind_labelOf {source : String} {es : Entries} {l : Label}
    (h : labelOf source (.mapping es) = .ok l) : es.part "kind" = .text l.form.word := by
  obtain ⟨parts, form, hp, rfl, kind, -⟩ := exists_form_of_labelOf h
  exact (kind_commonParts hp).symm.trans kind

mutual

/-- A record comes to a declaration or is a fault of the dump, if it can be read item by item. -/
theorem reads_ofRecord (source : String) (record : Value) :
    Reads Fault.isOfDump (isIterableRecord record) (ofRecord source record) :=
  match record with
  | .mapping es => by
    rw [ofRecord, isIterableRecord]
    refine (reads_labelOf source es).bind fun l hl => ?_
    have nested : Reads Fault.isOfDump (isIterableNest es)
        (nestedRecords source es >>= fun ms => pure (owning l ms)) := by
      rw [← Bool.and_true (isIterableNest es)]
      exact (reads_nestedRecords source es).bind fun ms _ => rfl
    rw [kind_labelOf hl]
    cases l.form with
    | nameSpace => exact nested
    | classType traits => exact nested
    | enumeration =>
      have owner : ∀ ms, Reads Fault.isOfDump true (pure (owning l ms)) := fun _ => rfl
      have items := (reads_items (Entries.part es "items")).bind fun ms _ => owner ms
      rw [bind_assoc, Bool.and_true] at items
      exact items
    | _ => exact rfl
  | .null | .bool _ | .int _ | .float _ | .text _ | .list _ => by
    rw [ofRecord]
    · exact Or.inl rfl
    · intro es h
      cases h
termination_by structural record

/-- Nested records come to declarations or are a fault of the dump, if they can be read item by
item. -/
theorem reads_nestedRecords (source : String) (es : List (String × Value)) :
    Reads Fault.isOfDump (isIterableNest es) (nestedRecords source es) :=
  match es with
  | [] => rfl
  | (key, v) :: es => by
    rw [nestedRecords, isIterableNest]
    split
    · exact reads_ofRecords source v
    · exact reads_nestedRecords source es
termination_by structural es

/-- The records of a part come to declarations or are a fault of the dump, if they can be read item
by item. -/
theorem reads_ofRecords (source : String) (v : Value) :
    Reads Fault.isOfDump (areIterableRecords v) (ofRecords source v) :=
  match v with
  | .list items => reads_ofItems source items
  | .text s | .mapping s => by
    rw [ofRecords]
    split
    · exact rfl
    · exact Or.inl rfl
  | .null | .bool _ | .int _ | .float _ => by
    simp only [ofRecords]
    split
    · next hg => exact Or.inr ⟨rfl, congrArg not hg⟩
    · next hg => exact congrArg not (Bool.eq_false_iff.2 hg)
termination_by structural v

/-- A list of records comes to declarations or is a fault of the dump, if every record can be read
item by item. -/
theorem reads_ofItems (source : String) (vs : List Value) :
    Reads Fault.isOfDump (areIterableItems vs) (ofItems source vs) :=
  match vs with
  | [] => rfl
  | v :: vs => by
    rw [ofItems, areIterableItems]
    refine (reads_ofRecord source v).bind fun d _ => ?_
    rw [← Bool.and_true (areIterableItems vs)]
    exact (reads_ofItems source vs).bind fun ds _ => rfl
termination_by structural vs

end

end Decl

/-! ## Dumps -/

namespace Tree

/-- The unit records of a part that is no list can be read item by item if the part can. -/
theorem areIterableUnits_eq {v : Value} (h : v.items? = none) :
    areIterableUnits v = v.isIterable := by
  cases v with
  | list items => cases h
  | _ => rfl

/-- A fault of a record is reported as one of the dump. -/
theorem isConfiguration_reportRecord (source : String) {fault : Fault}
    (h : fault.isOfDump = true) : (reportRecord source fault).isConfiguration = true := by
  cases fault <;> first | rfl | exact h

/-- A unit record comes to a unit or is reported, if it can be read item by item. -/
theorem reads_unitOf (source : String) (record : Value) :
    Reads Fault.isConfiguration (isIterableUnit record)
      ((unitOf source record).mapError (reportRecord source)) := by
  have h : Reads Fault.isOfDump (isIterableUnit record) (unitOf source record) := by
    cases record with
    | mapping es =>
      rw [unitOf, isIterableUnit]
      refine (Decl.reads_entry _ "name").followed fun name _ => ?_
      refine (Decl.reads_entry _ "file_path").followed fun path _ => ?_
      rw [← Bool.and_true (Decl.isIterableNest es)]
      exact (Decl.reads_nestedRecords source es).bind fun ms _ => rfl
    | _ => exact Or.inl rfl
  cases hu : unitOf source record with
  | ok d =>
    rw [hu] at h
    exact h
  | error fault =>
    rw [hu] at h
    rcases h with h | ⟨rfl, hs⟩
    · exact Or.inl (isConfiguration_reportRecord source h)
    · exact Or.inr ⟨rfl, hs⟩

/-- The unit records of a dump come to units or are reported, if they can be read item by item. -/
theorem reads_units (source : String) (v : Value) :
    Reads Fault.isConfiguration (areIterableUnits v)
      (v.elementsIfGiven >>= fun records =>
        records.mapM fun r => (unitOf source r).mapError (reportRecord source)) := by
  have all : ∀ records : List Value, Reads Fault.isConfiguration (records.all isIterableUnit)
      (records.mapM fun r => (unitOf source r).mapError (reportRecord source)) :=
    fun records => Reads.mapM fun r _ => reads_unitOf source r
  rcases v.elementsIfGiven_cases with ⟨items, rfl, he⟩ | ⟨texts, he, hi, hl, -⟩ | ⟨he, hi, hl, -⟩
  · rw [he]
    exact all items
  · have ha : (texts.map Value.text).all isIterableUnit = true := by simp [isIterableUnit]
    have hr := all (texts.map Value.text)
    rw [ha] at hr
    rw [he, areIterableUnits_eq hl, hi]
    exact hr
  · rw [he, areIterableUnits_eq hl, hi]
    exact Or.inr ⟨rfl, rfl⟩

/-- A dump of any shape loads or is reported as a faulty dump, provided that every part that is read
item by item can be; otherwise it does not load, and if it is not reported, the fault of a value of
the wrong kind comes out. -/
theorem ofDocument_reported_or_wrongKind (source : String) (document : Value) :
    match ofDocument source document with
    | .ok _ => isIterableDump document = true
    | .error fault => fault.isConfiguration = true ∨
        (fault = .wrongKind ∧ isIterableDump document = false) := by
  suffices h : Reads Fault.isConfiguration (isIterableDump document)
      (ofDocument source document) by
    cases hd : ofDocument source document with
    | ok t => exact (hd ▸ h :)
    | error fault => exact (hd ▸ h :)
  rw [ofDocument, isIterableDump]
  cases document.orElse (.mapping []) with
  | mapping es =>
    have tree : ∀ units, Reads Fault.isConfiguration true (pure ({ units } : Tree)) := fun _ => rfl
    have units := (reads_units source (Entries.part es "translation_units")).bind
      fun units _ => tree units
    rw [bind_assoc, Bool.and_true] at units
    exact units
  | _ => exact Or.inl rfl

/-- Not every dump that cannot be loaded is reported as a faulty dump: the parameters of a method may
be given by a number. -/
theorem not_ofDocument_reported : ¬ ∀ (source : String) (document : Value),
    match ofDocument source document with
    | .ok _ => True
    | .error fault => fault.isConfiguration = true := by
  intro h
  have hf : Fault.wrongKind.isConfiguration = true :=
    h "dump.yml" (.mapping [("translation_units", .list [.mapping [("declarations", .list [
      .mapping [("kind", .text "method"), ("name", .text "m"), ("parameters", .int 5)]])]])])
  cases hf

end Tree

end Bindery
