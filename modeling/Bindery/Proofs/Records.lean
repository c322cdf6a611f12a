import Bindery.Proofs.Loading
import Bindery.Proofs.RoundTrip

/-!
# Records and what is made of them

A dump is a forest of records: units hold records of declarations, and so do the records of
namespaces and classes, while enumerations hold records of their items. Every record yields one
declaration, named as the record says, whose members are what the records below it yield, in the
order of the document except that classes sort theirs. Main statement:
`PlacedRecord.forall₂_ofDocument`.
-/

namespace Bindery

/-! ## Records -/

/-- What a record of a dump is read as. -/
inductive RecordSort where
  /-- As a header. -/
  | unit
  /-- As a declaration of the kind that it names. -/
  | declaration
  /-- As an enumerator. -/
  | item
  deriving DecidableEq, Repr

/-- A record of a dump. -/
structure Record where
  /-- What it is read as. -/
  sort : RecordSort
  /-- The record. -/
  value : Value

namespace Record

/-- The part of a record under a key, the absent value if there is none. -/
def part (r : Record) (key : String) : Value := (r.value.get? key).getD .null

/-- The kind that a record names. -/
def kind (r : Record) : Value := r.part "kind"

/-- Whether a record is that of a declaration of a kind. -/
def isOf (word : String) (r : Record) : Bool :=
  r.sort = .declaration && r.kind = .text word

/-- Whether a record is that of what a class keeps among its nested declarations. -/
def isNested (r : Record) : Bool := !(r.isOf "method" || r.isOf "field" || r.isOf "property")

/-- The records that a part lists. -/
def listed (sort : RecordSort) (part : Value) : List Record :=
  (part.items?.getD []).map fun value => ⟨sort, value⟩

/-- The records directly below a record: those of declarations below units, namespaces and classes,
those of items below enumerations. -/
def inner (r : Record) : List Record :=
  if r.sort = .unit ∨ r.isOf "namespace" ∨ r.isOf "class" then
    listed .declaration (r.part "declarations")
  else if r.isOf "enum" then listed .item (r.part "items")
  else []

/-- The target-facing name that a record gives, empty unless given. An item must have one. -/
def name (r : Record) : String :=
  match r.sort with
  | .item => (r.part "name").display
  | _ => (r.part "name").displayOr ""

/-- The name in the header that a record gives: only declarations can have one of its own, the others
go by their target-facing name. -/
def headerName (r : Record) : String :=
  match r.sort with
  | .declaration =>
    let given := (r.part "original_name").displayOr ""
    if given = "" then r.name else given
  | _ => r.name

/-- A label has the names and the form that a record says. -/
structure Labels (r : Record) (l : Label) : Prop where
  /-- The target-facing name. -/
  name : l.name = .text r.name
  /-- The name in the header. -/
  headerName : l.headerName = .text r.headerName
  /-- A unit is that of a file. -/
  unit : r.sort = .unit → l.form = .unit ((r.part "file_path").displayOr Tree.invalidPath)
  /-- A declaration is of the kind that the record names. -/
  declaration : r.sort = .declaration → r.kind = .text l.form.word ∧ l.form.hasRecords = true
  /-- An enumerator has a value. -/
  item : r.sort = .item → l.form = .enumItem (r.part "value")

/-- The kind of a declaration is the word for its form. -/
theorem Labels.isOf_iff {r : Record} {l : Label} (h : r.Labels l) (declaration : r.sort = .declaration)
    (word : String) : r.isOf word = true ↔ l.form.word = word := by
  simp [isOf, declaration, (h.declaration declaration).1]

/-- The record of a declaration names a class just if the declaration is one. -/
theorem Labels.isOf_class {r : Record} {l : Label} (h : r.Labels l)
    (declaration : r.sort = .declaration) : r.isOf "class" = l.form.isClass := by
  rw [Bool.eq_iff_iff, h.isOf_iff declaration]
  cases l.form <;> simp [Form.word, Form.isClass, Form.classTraits?]

/-- Which records stand below that of a declaration is told by its form. -/
theorem Labels.inner_eq {r : Record} {l : Label} (h : r.Labels l)
    (declaration : r.sort = .declaration) : r.inner =
      match l.form with
      | .nameSpace | .classType _ => listed .declaration (r.part "declarations")
      | .enumeration => listed .item (r.part "items")
      | _ => [] := by
  simp only [inner, declaration, h.isOf_iff declaration]
  cases l.form <;> simp [Form.word]

end Record

/-- A record in its document. -/
structure PlacedRecord where
  /-- The numbers that lead to it: of the unit record, and then of a record at every level. -/
  position : List Nat
  /-- The record. -/
  record : Record
  /-- The records that contain it, innermost first. -/
  owners : List Record

namespace PlacedRecord

/-- The records directly below a record, in the order of the document. -/
def inner (p : PlacedRecord) : List PlacedRecord :=
  p.record.inner.mapIdx fun i r => ⟨p.position ++ [i], r, p.record :: p.owners⟩

/-- The records directly below a record, in the order in which an owner lists what they yield: a
class has first what is no method, field or property, then its methods, its fields and its
properties, each in the order of the document. -/
def members (p : PlacedRecord) : List PlacedRecord :=
  if p.record.isOf "class" then
    (p.inner.filter fun q => q.record.isNested) ++
    ((p.inner.filter fun q => q.record.isOf "method") ++
      ((p.inner.filter fun q => q.record.isOf "field") ++
        p.inner.filter fun q => q.record.isOf "property"))
  else p.inner

/-- The unit records of a document. -/
def ofDocument (document : Value) : List PlacedRecord :=
  (Record.listed .unit ((document.get? "translation_units").getD .null)).mapIdx fun i r =>
    ⟨[i], r, []⟩

/-- A declaration is what a record yields, with everything below it. -/
inductive Yields : PlacedRecord → Decl → Prop
  | node (p : PlacedRecord) (l : Label) (ms : List Decl) (label : p.record.Labels l)
    (members : List.Forall₂ Yields p.members ms) : Yields p (.node l ms)

variable {p : PlacedRecord} {d : Decl}

/-- The label of what a record yields. -/
theorem Yields.label (h : Yields p d) : p.record.Labels d.label := by
  cases h
  assumption

/-- What a record yields, it yields in any role. -/
theorem Yields.withRole (h : Yields p d) (role : Role) : Yields p (d.withRole role) := by
  cases h with
  | node _ l ms label members =>
    exact .node p _ ms ⟨label.name, label.headerName, label.unit, label.declaration, label.item⟩
      members

end PlacedRecord

/-! ## Lists of records -/

/-- What comes of numbered items comes of the items, if the numbers do not matter. -/
theorem forall₂_mapIdx {α β γ : Type} {S : α → γ → Prop} {R : β → γ → Prop} {as : List α}
    {cs : List γ} (h : List.Forall₂ S as cs) (f : Nat → α → β)
    (each : ∀ i a c, S a c → R (f i a) c) : List.Forall₂ R (as.mapIdx f) cs := by
  induction h generalizing f with
  | nil => exact .nil
  | cons first _ ih =>
    rw [List.mapIdx_cons]
    exact .cons (each 0 _ _ first) (ih (fun i => f (i + 1)) fun i => each (i + 1))

/-- What is read item by item, by something that reads no texts, is listed. -/
theorem items_of_mapM {β : Type} {f : Value → Except Fault β} {v : Value} {vs : List Value}
    {bs : List β} (texts : ∀ s b, f (.text s) ≠ .ok b) (hv : v.elementsIfGiven = .ok vs)
    (h : vs.mapM f = .ok bs) : vs = v.items?.getD [] := by
  rcases v.elementsIfGiven_cases with ⟨items, rfl, hi⟩ | ⟨names, hi, -, none, -⟩ | ⟨hi, -⟩
  · exact Except.ok.inj (hv.symm.trans hi)
  · obtain rfl := Except.ok.inj (hv.symm.trans hi)
    rw [none]
    cases names with
    | nil => rfl
    | cons s names =>
      rw [List.map_cons, List.mapM_cons] at h
      obtain ⟨b, hb, -⟩ := exists_of_bind_eq_ok h
      exact absurd hb (texts s b)
  · cases hv.symm.trans hi

/-- A document that is read as a mapping has the parts of the mapping. -/
theorem Value.lookup_of_orElse {document : Value} {es : Entries}
    (h : document.orElse (.mapping []) = .mapping es) (key : String) :
    es.lookup key = document.get? key := by
  rw [orElse] at h
  split at h
  · rw [h]
    rfl
  · next absent =>
    obtain rfl := mapping.inj h
    cases document with
    | mapping entries =>
      have none : entries = [] := by simpa [isGiven] using absent
      rw [none]
      rfl
    | _ => rfl

/-! ## Members in their order -/

namespace Decl

/-- Members are arranged role by role. -/
theorem arrange_eq (ms : List Decl) : arrange ms =
    (ms.filter fun m => m.role == .nested) ++ ((ms.filter fun m => m.role == .method) ++
      ((ms.filter fun m => m.role == .field) ++ ((ms.filter fun m => m.role == .property) ++
        ms.filter fun m => m.role == .event))) := by
  simp [arrange, Role.all]

/-- What is no class lists its members as they come. -/
theorem arrange_ownedBy {owner : Form} (h : owner.isClass = false) (ms : List Decl) :
    arrange (ms.map (ownedBy owner)) = ms.map (ownedBy owner) := by
  have roles : ∀ m ∈ ms.map (ownedBy owner), m.role = .nested := by
    intro m hm
    obtain ⟨⟨l, below⟩, -, rfl⟩ := List.mem_map.1 hm
    change owner.roleIn l.form = .nested
    simp [Form.roleIn, h]
  have other : ∀ role ≠ Role.nested,
      (ms.map (ownedBy owner)).filter (fun m => m.role == role) = [] := by
    intro role hr
    refine List.filter_eq_nil_iff.2 fun m hm => ?_
    rw [roles m hm, beq_iff_eq]
    exact hr.symm
  have nested : (ms.map (ownedBy owner)).filter (fun m => m.role == .nested) =
      ms.map (ownedBy owner) :=
    List.filter_eq_self.2 fun m hm => beq_iff_eq.2 (roles m hm)
  rw [arrange_eq, nested, other .method (by decide), other .field (by decide),
    other .property (by decide), other .event (by decide)]
  simp

end Decl

namespace PlacedRecord

variable {p : PlacedRecord} {l : Label} {ms : List Decl}

/-- A declaration has the role in a class that goes with the kind that its record names. -/
structure FitsClass (q : PlacedRecord) (m : Decl) : Prop where
  /-- It is among the methods if it is one. -/
  method : m.role = .method ↔ q.record.isOf "method" = true
  /-- It is among the fields if it is one. -/
  field : m.role = .field ↔ q.record.isOf "field" = true
  /-- It is among the properties if it is one. -/
  property : m.role = .property ↔ q.record.isOf "property" = true
  /-- It is no event. -/
  event : m.role ≠ .event

/-- What stands nowhere else is nested. -/
theorem FitsClass.nested {q : PlacedRecord} {m : Decl} (h : FitsClass q m) :
    m.role = .nested ↔ q.record.isNested = true := by
  have event := h.event
  rw [Record.isNested, Bool.not_eq_true', ← Bool.not_eq_true, Bool.or_eq_true, Bool.or_eq_true,
    ← h.method, ← h.field, ← h.property]
  generalize m.role = role at event
  cases role <;> simp_all

/-- A declaration takes its role in a class by its kind. -/
theorem fitsClass_ownedBy {owner : Form} {q : PlacedRecord} {m : Decl}
    (label : q.record.Labels m.label) (declaration : q.record.sort = .declaration)
    (h : owner.isClass = true) : FitsClass q (m.ownedBy owner) := by
  have recorded := (label.declaration declaration).2
  have role : (m.ownedBy owner).role = owner.roleIn m.label.form := by
    cases m
    rfl
  constructor <;> simp only [role, label.isOf_iff declaration, Form.roleIn, h, if_true]
  all_goals
    cases form : m.label.form <;> simp [Form.word]
  rw [form] at recorded
  cases recorded

/-- A class lists the records of a group where it lists the members of a role. -/
theorem forall₂_filter {R : PlacedRecord → Decl → Prop} {qs : List PlacedRecord} {ms : List Decl}
    (h : List.Forall₂ R qs ms) {inGroup : PlacedRecord → Bool} {role : Role}
    (same : ∀ q m, R q m → (m.role = role ↔ inGroup q = true)) :
    List.Forall₂ R (qs.filter inGroup) (ms.filter fun m => m.role == role) :=
  List.rel_filter (fun q m hqm => (same q m hqm).symm.trans beq_iff_eq.symm) h

/-- The records below a class are those of declarations. -/
theorem sort_of_mem_inner (h : p.record.isOf "class" = true) :
    ∀ q ∈ p.inner, q.record.sort = .declaration := by
  intro q hq
  obtain ⟨i, hi, rfl⟩ := List.mem_mapIdx.1 hq
  have mem := List.getElem_mem hi
  generalize p.record.inner[i] = r at mem
  rw [Record.inner, if_pos (Or.inr (Or.inr h)), Record.listed, List.mem_map] at mem
  obtain ⟨v, -, rfl⟩ := mem
  rfl

/-- What the records below a record yield are the members of an owner, in their order. -/
theorem forall₂_arrange {owner : Form} (h : List.Forall₂ Yields p.inner ms)
    (kind : p.record.isOf "class" = owner.isClass) :
    List.Forall₂ Yields p.members (Decl.arrange (ms.map (Decl.ownedBy owner))) := by
  rw [members, kind]
  cases isClass : owner.isClass with
  | true =>
    rw [isClass] at kind
    have fits : List.Forall₂ (fun q m => FitsClass q m ∧ Yields q m) p.inner
        (ms.map (Decl.ownedBy owner)) := by
      rw [List.forall₂_map_right_iff]
      refine ((List.forall₂_and_left _ _).2 ⟨sort_of_mem_inner kind, h⟩).imp fun q m hqm => ?_
      exact ⟨fitsClass_ownedBy hqm.2.label hqm.1 isClass, hqm.2.withRole _⟩
    have events : List.Forall₂ (fun q m => FitsClass q m ∧ Yields q m)
        (p.inner.filter fun _ => false)
        ((ms.map (Decl.ownedBy owner)).filter fun m => m.role == .event) :=
      forall₂_filter fits fun _ _ hqm => iff_of_false hqm.1.event Bool.false_ne_true
    rw [List.filter_false, List.forall₂_nil_left_iff] at events
    rw [if_pos rfl, Decl.arrange_eq, events, List.append_nil]
    suffices groups : List.Forall₂ (fun q m => FitsClass q m ∧ Yields q m) _ _ from
      groups.imp fun _ _ hqm => hqm.2
    refine List.rel_append ?_ (List.rel_append ?_ (List.rel_append ?_ ?_))
    · exact forall₂_filter fits fun _ _ hqm => hqm.1.nested
    · exact forall₂_filter fits fun _ _ hqm => hqm.1.method
    · exact forall₂_filter fits fun _ _ hqm => hqm.1.field
    · exact forall₂_filter fits fun _ _ hqm => hqm.1.property
  | false =>
    rw [if_neg Bool.false_ne_true, Decl.arrange_ownedBy isClass, List.forall₂_map_right_iff]
    exact h.imp fun q m hqm => hqm.withRole _

/-! ## What records yield -/

/-- What records yield one by one, they yield below a record. -/
theorem forall₂_inner {sort : RecordSort} {vs : List Value}
    (inner : p.record.inner = vs.map fun value => ⟨sort, value⟩)
    (h : List.Forall₂ (fun value m => ∀ position owners,
      Yields ⟨position, ⟨sort, value⟩, owners⟩ m) vs ms) : List.Forall₂ Yields p.inner ms := by
  have records : List.Forall₂ (fun (r : Record) m => ∀ position owners,
      Yields ⟨position, r, owners⟩ m) p.record.inner ms := by
    rw [inner, List.forall₂_map_left_iff]
    exact h
  exact forall₂_mapIdx records _ fun i r m yields => yields _ _

/-- A record without records below it yields what has no members. -/
theorem yields_leaf {l : Label} (label : p.record.Labels l) (inner : p.record.inner = []) :
    Yields p (.node l []) := by
  have members : p.members = [] := by simp [members, PlacedRecord.inner, inner]
  exact .node p l [] label (by rw [members]; exact .nil)

/-- A record with records below it yields an owner of what these yield. -/
theorem yields_owning {l : Label} (label : p.record.Labels l) (h : List.Forall₂ Yields p.inner ms)
    (kind : p.record.isOf "class" = l.form.isClass) : Yields p (Decl.owning l ms) :=
  .node p l _ label (forall₂_arrange h kind)

/-- A record of an item yields an enumerator. -/
theorem yields_enumItemOf {item : Value} {d : Decl} (h : Decl.enumItemOf item = .ok d)
    (position : List Nat) (owners : List Record) : Yields ⟨position, ⟨.item, item⟩, owners⟩ d := by
  obtain ⟨name, hn, h⟩ := exists_of_bind_eq_ok h
  obtain ⟨value, hv, h⟩ := exists_of_bind_eq_ok h
  obtain rfl := Except.ok.inj h
  cases item with
  | mapping es =>
    rw [Value.require] at hn
    split at hn
    · next given found =>
      obtain rfl := Except.ok.inj hn
      obtain rfl := Except.ok.inj hv
      have named : (⟨.item, .mapping es⟩ : Record).name = given.display :=
        congrArg (fun v => (v.getD .null).display) found
      refine yields_leaf ⟨?_, ?_, by simp, by simp, fun _ => rfl⟩ rfl
      · exact congrArg Value.text named.symm
      · exact congrArg Value.text named.symm
    · cases hn
  | _ => cases hn

/-- The label that is read from a record is the one it says. -/
theorem labels_labelOf {source : String} {es : Entries} {l : Label}
    (h : Decl.labelOf source (.mapping es) = .ok l) :
    (⟨.declaration, .mapping es⟩ : Record).Labels l := by
  have kind := Decl.kind_labelOf h
  obtain ⟨parts, form, hp, rfl, -, read⟩ := Decl.exists_form_of_labelOf h
  obtain ⟨given, -, hp⟩ := exists_of_bind_eq_ok hp
  obtain ⟨name, hn, hp⟩ := exists_of_bind_eq_ok hp
  obtain ⟨header, hh, hp⟩ := exists_of_bind_eq_ok hp
  obtain ⟨access, -, hp⟩ := exists_of_bind_eq_ok hp
  obtain ⟨access, -, hp⟩ := exists_of_bind_eq_ok hp
  obtain ⟨comment, -, hp⟩ := exists_of_bind_eq_ok hp
  obtain rfl := Except.ok.inj hp
  obtain rfl := Except.ok.inj hn
  obtain rfl := Except.ok.inj hh
  refine ⟨rfl, ?_, by simp, fun _ => ⟨kind, read.hasRecords⟩, by simp⟩
  simp only [Decl.CommonParts.label, String.isEmpty_iff]
  rfl

mutual

/-- A record yields what is read from it. -/
theorem yields_ofRecord {source : String} (record : Value) {d : Decl}
    (h : Decl.ofRecord source record = .ok d) (position : List Nat) (owners : List Record) :
    Yields ⟨position, ⟨.declaration, record⟩, owners⟩ d :=
  match record with
  | .mapping es => by
    rw [Decl.ofRecord] at h
    obtain ⟨l, hl, h⟩ := exists_of_bind_eq_ok h
    have label := labels_labelOf hl
    have inner := label.inner_eq rfl
    have isClass := label.isOf_class rfl
    split at h
    · next form =>
      obtain ⟨ms, hms, h⟩ := exists_of_bind_eq_ok h
      obtain rfl := Except.ok.inj h
      rw [form] at inner
      exact yields_owning label (forall₂_inner inner (yields_nestedRecords es hms)) isClass
    · next form =>
      obtain ⟨ms, hms, h⟩ := exists_of_bind_eq_ok h
      obtain rfl := Except.ok.inj h
      rw [form] at inner
      exact yields_owning label (forall₂_inner inner (yields_nestedRecords es hms)) isClass
    · next form =>
      obtain ⟨part, hp, h⟩ := exists_of_bind_eq_ok h
      obtain ⟨records, hr, h⟩ := exists_of_bind_eq_ok h
      obtain ⟨items, hi, h⟩ := exists_of_bind_eq_ok h
      obtain rfl := Except.ok.inj h
      obtain rfl := Except.ok.inj hp
      have texts : ∀ s d, Decl.enumItemOf (.text s) ≠ .ok d := by
        intro s d read
        cases read
      have listed := items_of_mapM texts hr hi
      rw [form] at inner
      refine yields_owning label (forall₂_inner inner ?_) isClass
      exact listed ▸ (forall₂_of_mapM hi).imp fun item m read => yields_enumItemOf read
    · next namespaces classes enumerations =>
      obtain rfl := Except.ok.inj h
      refine yields_leaf label (inner.trans ?_)
      cases form : l.form with
      | nameSpace => exact (namespaces form).elim
      | classType traits => exact (classes traits form).elim
      | enumeration => exact (enumerations form).elim
      | _ => rfl
  | .null | .bool _ | .int _ | .float _ | .text _ | .list _ => by simp [Decl.ofRecord] at h
termination_by structural record

/-- Records under the key for nested declarations yield what is read from them. -/
theorem yields_nestedRecords {source : String} (es : List (String × Value)) {ds : List Decl}
    (h : Decl.nestedRecords source es = .ok ds) :
    List.Forall₂ (fun value d => ∀ position owners,
      Yields ⟨position, ⟨.declaration, value⟩, owners⟩ d)
      ((Entries.part es "declarations").items?.getD []) ds :=
  match es with
  | [] => by
    obtain rfl := Except.ok.inj h
    exact .nil
  | (key, v) :: es => by
    rw [Decl.nestedRecords] at h
    rw [Entries.part, Entries.lookup_cons]
    split at h
    · next same =>
      rw [if_pos same.symm]
      exact yields_ofRecords v h
    · next other =>
      rw [if_neg (Ne.symm other)]
      exact yields_nestedRecords es h
termination_by structural es

/-- Records that a part holds yield what is read from them. -/
theorem yields_ofRecords {source : String} (v : Value) {ds : List Decl}
    (h : Decl.ofRecords source v = .ok ds) :
    List.Forall₂ (fun value d => ∀ position owners,
      Yields ⟨position, ⟨.declaration, value⟩, owners⟩ d) (v.items?.getD []) ds :=
  match v with
  | .list items => yields_ofItems items h
  | .text s | .mapping s => by
    rw [Decl.ofRecords] at h
    split at h
    · obtain rfl := Except.ok.inj h
      exact .nil
    · cases h
  | .null | .bool _ | .int _ | .float _ => by
    simp only [Decl.ofRecords] at h
    split at h
    · cases h
    · obtain rfl := Except.ok.inj h
      exact .nil
termination_by structural v

/-- Records of a list yield what is read from them. -/
theorem yields_ofItems {source : String} (vs : List Value) {ds : List Decl}
    (h : Decl.ofItems source vs = .ok ds) :
    List.Forall₂ (fun value d => ∀ position owners,
      Yields ⟨position, ⟨.declaration, value⟩, owners⟩ d) vs ds :=
  match vs with
  | [] => by
    obtain rfl := Except.ok.inj h
    exact .nil
  | v :: vs => by
    rw [Decl.ofItems] at h
    obtain ⟨d, hd, h⟩ := exists_of_bind_eq_ok h
    obtain ⟨rest, hr, h⟩ := exists_of_bind_eq_ok h
    obtain rfl := Except.ok.inj h
    exact .cons (yields_ofRecord v hd) (yields_ofItems vs hr)
termination_by structural vs

end

/-- A unit record yields the unit that is read from it. -/
theorem yields_unitOf {source : String} {record : Value} {d : Decl}
    (h : Tree.unitOf source record = .ok d) (position : List Nat) (owners : List Record) :
    Yields ⟨position, ⟨.unit, record⟩, owners⟩ d := by
  cases record with
  | mapping es =>
    obtain ⟨name, hn, h⟩ := exists_of_bind_eq_ok h
    obtain ⟨path, hp, h⟩ := exists_of_bind_eq_ok h
    obtain ⟨ms, hms, h⟩ := exists_of_bind_eq_ok h
    obtain rfl := Except.ok.inj h
    obtain rfl := Except.ok.inj hn
    obtain rfl := Except.ok.inj hp
    exact yields_owning ⟨rfl, rfl, fun _ => rfl, by simp, by simp⟩
      (forall₂_inner (if_pos (Or.inl rfl)) (yields_nestedRecords es hms)) rfl
  | _ => cases h

/-- The unit records of a document yield the units of the tree that is loaded. -/
theorem forall₂_ofDocument {source : String} {document : Value} {t : Tree}
    (h : Tree.ofDocument source document = .ok t) :
    List.Forall₂ Yields (ofDocument document) t.units := by
  rw [Tree.ofDocument] at h
  split at h
  · next es mapping =>
    obtain ⟨records, hr, h⟩ := exists_of_bind_eq_ok h
    obtain ⟨units, hu, h⟩ := exists_of_bind_eq_ok h
    obtain rfl := Except.ok.inj h
    have texts : ∀ s d, (Tree.unitOf source (.text s)).mapError (Tree.reportRecord source) ≠
        .ok d := by
      intro s d read
      cases eq_ok_of_mapError read
    rw [ofDocument, ← Value.lookup_of_orElse mapping, Record.listed, ← items_of_mapM texts hr hu]
    refine forall₂_mapIdx (S := fun r d => ∀ position owners, Yields ⟨position, r, owners⟩ d) ?_ _
      fun i r d yields => yields [i] []
    rw [List.forall₂_map_left_iff]
    exact (forall₂_of_mapM hu).imp fun record d read => yields_unitOf (eq_ok_of_mapError read)
  · cases h

end PlacedRecord

end Bindery
