import Bindery.Proofs.Written

/-!
# Trees that are written and read back

A tree that was loaded from a dump can be written and loaded again. Every declaration has its record
read back on its own, once those of its members are, and the order in which an owner lists its
members is the one in which they are written. What comes back has the shape of the tree and is
written as the tree is. Main statement: `ofDocument_toDocument`.
-/

namespace Bindery

/-! ## Arranged members -/

namespace Decl

/-- Among arranged members, those of one role stand as they came. -/
theorem filter_arrange (ms : List Decl) (r : Role) :
    (arrange ms).filter (fun m => m.role == r) = ms.filter fun m => m.role == r := by
  have one : ∀ role, (ms.filter fun m => m.role == role).filter (fun m => m.role == r) =
      if role = r then ms.filter fun m => m.role == r else [] := by
    intro role
    rw [List.filter_filter]
    split
    · next h => simp [h]
    · next h =>
      refine List.filter_eq_nil_iff.2 fun m _ hm => h ?_
      simp only [Bool.and_eq_true, beq_iff_eq] at hm
      exact hm.2.symm.trans hm.1
  simp only [arrange, Role.all, List.flatMap_cons, List.flatMap_nil, List.append_nil,
    List.filter_append, one]
  cases r <;> simp

/-- Arranged members stay as they are. -/
theorem arrange_arrange (ms : List Decl) : arrange (arrange ms) = arrange ms := by
  rw [arrange]
  simp only [filter_arrange]
  rfl

/-- What keeps roles can be done before or after. -/
theorem arrange_map {f : Decl → Decl} (keeps : ∀ m, (f m).role = m.role) (ms : List Decl) :
    arrange (ms.map f) = (arrange ms).map f := by
  simp only [arrange, List.map_flatMap, List.filter_map, Function.comp_def, keeps]

/-- Members as an owner of the given form holds them. -/
structure AreHeldBy (owner : Form) (ms : List Decl) : Prop where
  /-- They are arranged. -/
  arranged : arrange ms = ms
  /-- They have the roles they take there. -/
  roles : ∀ m ∈ ms, m.role = owner.roleIn m.form

/-- An owner holds whatever members it is given. -/
theorem areHeldBy_arrange (owner : Form) (ms : List Decl) :
    AreHeldBy owner (arrange (ms.map (ownedBy owner))) :=
  ⟨arrange_arrange _, fun _ => role_of_mem_owning⟩

/-! ## What is left of declarations -/

/-- What is left of a declaration that is written and read back, whatever stands below it. -/
def reread (d : Decl) : Decl := d.relabel (fun _ l => l.reread) Site.top

/-- Where a declaration stands does not matter for what is left of it. -/
theorem relabel_reread (d : Decl) (s : Site) : d.relabel (fun _ l => l.reread) s = d.reread := by
  have h := relabel_graft (fun _ l => l.reread) d s Site.top
  rwa [Site.graft_top] at h

/-- What is left of a list is left of its declarations. -/
theorem relabelAll_reread (ds : List Decl) (s : Site) (i : Nat) :
    relabelAll (fun _ l => l.reread) ds s i = ds.map reread := by
  induction ds generalizing i with
  | nil => rfl
  | cons d ds ih => rw [relabelAll, relabel_reread, ih, List.map_cons]

@[simp] theorem reread_node (l : Label) (ms : List Decl) :
    (node l ms).reread = node l.reread (ms.map reread) := by
  rw [reread, relabel, relabelAll_reread]

@[simp] theorem role_reread (d : Decl) : d.reread.role = d.role := by
  cases d
  rw [reread_node]
  rfl

/-- In whatever role it stood, the same is left of a declaration. -/
theorem reread_withRole (role : Role) (d : Decl) :
    (d.withRole role).reread = d.reread.withRole role := by
  cases d
  simp only [withRole, reread_node]
  rfl

/-- An owner gets back the members it held. -/
theorem owning_reread {l : Label} {ms : List Decl} (held : AreHeldBy l.form ms) :
    owning { l.reread with role := .nested } (ms.map fun m => m.reread.withRole .nested) =
      (node l ms).reread.withRole .nested := by
  have owned : ∀ m ∈ ms, (m.reread.withRole .nested).ownedBy l.form.reread = m.reread := by
    rintro ⟨k, ks⟩ hm
    have role : k.role = l.form.roleIn k.form := held.roles _ hm
    simp only [reread_node, ownedBy, withRole, form, label_node, Label.reread,
      Form.roleIn_reread, ← role]
  rw [owning, List.map_map, Function.comp_def]
  change node _ (arrange (ms.map fun m => (m.reread.withRole .nested).ownedBy l.form.reread)) = _
  rw [List.map_congr_left owned, arrange_map role_reread, held.arranged, reread_node]
  rfl

/-! ## Records -/

/-- The record of a declaration holds the entries of its label over the records of its members. -/
theorem toRecord_node (sourceName : List Nat → EventSource → Option Value) (l : Label)
    (ms : List Decl) (address : List Nat) : ∃ name, toRecord sourceName (node l ms) address =
      .mapping (entriesOver name l (toRecords sourceName ms address 0)) :=
  ⟨_, by cases ms <;> rfl⟩

/-- The role of a declaration is not written. -/
theorem toRecord_withRole (sourceName : List Nat → EventSource → Option Value) (role : Role)
    (d : Decl) (address : List Nat) :
    toRecord sourceName (d.withRole role) address = toRecord sourceName d address := by
  cases d
  rfl

/-- Records are read back to what those of every declaration are read back to. -/
theorem forall₂_toRecords {R : Value → Decl → Prop} {g : Decl → Decl}
    {sourceName : List Nat → EventSource → Option Value} {ds : List Decl}
    (h : ∀ d ∈ ds, ∀ address, R (toRecord sourceName d address) (g d)) (address : List Nat)
    (i : Nat) : List.Forall₂ R (toRecords sourceName ds address i) (ds.map g) := by
  induction ds generalizing i with
  | nil => exact .nil
  | cons d ds ih =>
    exact .cons (h d List.mem_cons_self _) (ih (fun e he => h e (List.mem_cons_of_mem d he)) _)

/-- Lists of records are read record by record. -/
theorem ofItems_eq_mapM (source : String) (vs : List Value) :
    ofItems source vs = vs.mapM (ofRecord source) := by
  induction vs with
  | nil => rfl
  | cons v vs ih => rw [ofItems, List.mapM_cons, ih]

/-- Nested records are those under their key. -/
theorem nestedRecords_eq (source : String) (es : Entries) : nestedRecords source es =
    match es.lookup "declarations" with
    | some v => ofRecords source v
    | none => .ok [] := by
  induction es with
  | nil => rfl
  | cons e es ih =>
    obtain ⟨key, v⟩ := e
    rw [nestedRecords, Entries.lookup_cons]
    by_cases h : key = "declarations"
    · rw [if_pos h, if_pos h.symm]
    · rw [if_neg h, if_neg (Ne.symm h), ih]

/-- The records below an open record are read record by record. -/
theorem nestedRecords_entriesOver (source : String) {sourceName : Option Value} {l : Label}
    {records : List Value} (hl : l.form.isOpen = true) :
    nestedRecords source (entriesOver sourceName l records) =
      records.mapM (ofRecord source) := by
  have event : l.form.isEvent = false := Form.isEvent_of_isScope (Form.isScope_of_isOpen hl)
  have key : membersKey l.form = "declarations" := by
    refine if_neg fun enumeration => ?_
    rw [Form.isOpen_of_isEnumeration enumeration] at hl
    cases hl
  rw [nestedRecords_eq, lookup_of_mem_memberKeys event (by decide), key]
  cases records with
  | nil => rfl
  | cons record records => exact ofItems_eq_mapM source (record :: records)

/-- The records below an enumeration are its items. -/
theorem items_entriesOver (sourceName : Option Value) {l : Label} (hl : l.form = .enumeration)
    (records : List Value) :
    ∃ listed, (Value.mapping (entriesOver sourceName l records)).entry "items" = .ok listed ∧
      listed.elementsIfGiven = .ok records := by
  have event : l.form.isEvent = false := Form.isEvent_of_isScope (by rw [hl]; rfl)
  rw [Value.entry, lookup_of_mem_memberKeys event (by decide), hl]
  cases records <;> exact ⟨_, rfl, rfl⟩

/-! ## Declarations that are read back -/

/-- A declaration whose record is read back to what is left of the declaration. -/
def ReadsBack (d : Decl) : Prop := ∀ source sourceName address,
  ofRecord source (toRecord sourceName d address) = .ok (d.reread.withRole .nested)

/-- In whatever role a declaration stands, its record is read back. -/
theorem ReadsBack.withRole {d : Decl} (h : d.ReadsBack) (role : Role) :
    (d.withRole role).ReadsBack := by
  intro source sourceName address
  rw [toRecord_withRole, h, reread_withRole]
  cases d.reread
  rfl

/-- The record of an enumerator is read back. -/
theorem enumItemOf_toRecord {item : Value} {d : Decl} (h : enumItemOf item = .ok d)
    (sourceName : List Nat → EventSource → Option Value) (address : List Nat) :
    enumItemOf (toRecord sourceName d address) = .ok (d.reread.withRole .nested) := by
  obtain ⟨given, -, h⟩ := exists_of_bind_eq_ok h
  obtain ⟨value, -, h⟩ := exists_of_bind_eq_ok h
  obtain rfl := Except.ok.inj h
  obtain ⟨name, hr⟩ := toRecord_node sourceName _ [] address
  rw [hr, enumItemOf_entriesOver rfl rfl, reread_node]
  rfl

/-- A leaf that a record has yielded is read back. -/
theorem readsBack_leaf {l : Label} (recorded : l.IsRecorded) (leaf : l.form.isScope = false) :
    (node l []).ReadsBack := by
  intro source sourceName address
  obtain ⟨name, hr⟩ := toRecord_node sourceName l [] address
  rw [hr, ofRecord, labelOf_entriesOver source recorded]
  cases hf : l.form <;> simp [hf, Form.isScope] at leaf <;>
    simp [bind, Except.bind, Label.reread, Form.reread, hf, pure, Except.pure, withRole]

/-- An open declaration is read back if its members are. -/
theorem readsBack_scope {l : Label} {ms : List Decl} (recorded : l.IsRecorded)
    (opened : l.form.isOpen = true) (held : AreHeldBy l.form ms)
    (members : ∀ m ∈ ms, m.ReadsBack) : (node l ms).ReadsBack := by
  intro source sourceName address
  obtain ⟨name, hr⟩ := toRecord_node sourceName l ms address
  have below : nestedRecords source (entriesOver name l (toRecords sourceName ms address 0)) =
      .ok (ms.map fun m => m.reread.withRole .nested) := by
    rw [nestedRecords_entriesOver source opened]
    exact mapM_eq_ok (forall₂_toRecords (fun m hm address => members m hm source _ address) _ _)
  rw [hr, ofRecord, labelOf_entriesOver source recorded, ← owning_reread held]
  have unit := (Form.hasRecords_iff.1 recorded.hasRecords).1
  cases hf : l.form <;> simp [hf, Form.isOpen, Form.isUnit] at opened unit <;>
    simp only [bind, Except.bind, Label.reread, Form.reread, hf, below] <;> rfl

/-- An enumeration is read back if its enumerators are items of records. -/
theorem readsBack_enumeration {l : Label} {ms : List Decl} (recorded : l.IsRecorded)
    (hl : l.form = .enumeration) (held : AreHeldBy l.form ms)
    (items : ∀ m ∈ ms, ∀ sourceName address,
      enumItemOf (toRecord sourceName m address) = .ok (m.reread.withRole .nested)) :
    (node l ms).ReadsBack := by
  intro source sourceName address
  obtain ⟨name, hr⟩ := toRecord_node sourceName l ms address
  obtain ⟨listed, entry, elements⟩ :=
    items_entriesOver name hl (toRecords sourceName ms address 0)
  have below : (toRecords sourceName ms address 0).mapM enumItemOf =
      .ok (ms.map fun m => m.reread.withRole .nested) :=
    mapM_eq_ok (forall₂_toRecords (fun m hm address => items m hm _ address) _ _)
  rw [hr, ofRecord, labelOf_entriesOver source recorded, ← owning_reread held]
  simp only [bind, Except.bind, Label.reread, Form.reread, hl, entry, elements, below]
  rfl

/-- Whatever is read is read back. -/
theorem holdsAsRead_readsBack (source : String) : HoldsAsRead source ReadsBack where
  leaf _ _ hl leaf := readsBack_leaf (isRecorded_labelOf hl) leaf
  scope _ l ms hl opened members := by
    refine readsBack_scope (isRecorded_labelOf hl) opened (areHeldBy_arrange _ ms) fun m hm => ?_
    obtain ⟨e, he, rfl⟩ := exists_ownedBy_of_mem hm
    exact (members e he).withRole _
  enumeration _ l ms hl hf items := by
    refine readsBack_enumeration (isRecorded_labelOf hl) hf (areHeldBy_arrange _ ms)
      fun m hm sourceName address => ?_
    obtain ⟨e, he, rfl⟩ := exists_ownedBy_of_mem hm
    obtain ⟨item, hi⟩ := items e he
    rw [ownedBy, toRecord_withRole, enumItemOf_toRecord hi, reread_withRole]
    cases e.reread
    rfl

/-! ## Records that are written again -/

/-- Records of equal members are equal. -/
theorem toRecords_map {sourceName sourceName' : List Nat → EventSource → Option Value}
    {g : Decl → Decl} {ds : List Decl}
    (h : ∀ d ∈ ds, ∀ address, toRecord sourceName' (g d) address = toRecord sourceName d address)
    (address : List Nat) (i : Nat) :
    toRecords sourceName' (ds.map g) address i = toRecords sourceName ds address i := by
  induction ds generalizing i with
  | nil => rfl
  | cons d ds ih =>
    rw [List.map_cons, toRecords, toRecords, h d List.mem_cons_self,
      ih fun e he => h e (List.mem_cons_of_mem d he)]

/-- What is left of a loaded form is written as the form is. -/
theorem formEntries_reread {f : Form} (event : f.isEvent = false) (unmarked : f.unmarked = f)
    (sourceName : Option Value) : formEntries sourceName f.reread = formEntries sourceName f := by
  cases f with
  | classType traits =>
    have mark : traits.isValue = false := by
      rw [Form.unmarked, Form.classType.injEq] at unmarked
      rw [← unmarked]
    rw [Form.reread, formEntries, formEntries, mark]
  | _ => rfl

/-- What is left of a loaded label is written as the label is. -/
theorem labelEntries_reread {l : Label} (h : l.IsLoaded) (unit : l.form.isUnit = false)
    (sourceName : Option Value) : labelEntries sourceName l.reread = labelEntries sourceName l := by
  have suppressed : l.isSuppressed = false := by
    rw [Label.isSuppressed, h.suppression]
    rfl
  have comment : entryIf (l.comment.orElse .null).isGiven "comment" (l.comment.orElse .null) =
      entryIf l.comment.isGiven "comment" l.comment := by
    rw [Value.orElse]
    split
    · rfl
    · next hc => rw [Bool.not_eq_true] at hc; rw [hc]; rfl
  rw [labelEntries, labelEntries, Label.name_reread unit, Label.headerName_reread unit,
    Label.form_reread, Form.word_reread, formEntries_reread h.event h.unmarked, h.treatment,
    suppressed, ← comment]
  rfl

/-- What is left of a loaded declaration is written as the declaration is. -/
theorem toRecord_reread {d : Decl} (h : d.IsLoaded) (unit : d.form.isUnit = false)
    (sourceName sourceName' : List Nat → EventSource → Option Value) (address : List Nat) :
    toRecord sourceName' d.reread address = toRecord sourceName d address := by
  induction h generalizing address with
  | node l ms label members units scope items roles ih =>
    have adapter : l.form.adapter? = none :=
      Option.isNone_iff_eq_none.1 (Option.isSome_eq_false_iff.1 label.event)
    have entries : labelEntries none l.reread = labelEntries none l :=
      labelEntries_reread label unit none
    have key : membersKey l.reread.form = membersKey l.form := by
      rw [membersKey, membersKey, Label.reread, Form.isEnumeration_reread]
    have none_left : l.reread.form.adapter? = none := l.form.adapter?_reread.trans adapter
    rw [reread_node, toRecord, toRecord, none_left, adapter]
    simp only [Option.bind_none, entries, key, List.isEmpty_map,
      toRecords_map fun m hm => ih m hm (units m hm)]

end Decl

namespace Tree

/-- What is left of a tree that is written and read back. -/
def reread (t : Tree) : Tree := t.relabel fun _ l => l.reread

/-- What is left of a tree is left of its units. -/
theorem units_reread (t : Tree) : t.reread.units = t.units.map Decl.reread :=
  Decl.relabelAll_reread t.units Site.top 0

/-- The record of a unit has its path and the records of its members, and no name. -/
theorem unitRecord_node (t : Tree) (i : Nat) {l : Label} {path : String} (hl : l.form = .unit path)
    (ms : List Decl) : ∃ es, t.unitRecord i (.node l ms) = .mapping es ∧
      (Value.mapping es).entry "name" = .ok .null ∧
      (Value.mapping es).entry "file_path" = .ok (.text path) ∧
      es.lookup "declarations" = some (.list (Decl.toRecords t.sourceName ms [i] 0)) := by
  rw [unitRecord, Decl.form, Decl.label_node, hl]
  exact ⟨_, rfl, rfl, rfl, rfl⟩

/-- From the record of a unit whose members are read back the unit is read, but for its name. -/
theorem unitOf_unitRecord_node (source : String) (t : Tree) (i : Nat) {l : Label} {path : String}
    {ms : List Decl} (hl : l.form = .unit path) (given : path ≠ "")
    (held : Decl.AreHeldBy l.form ms) (members : ∀ m ∈ ms, m.ReadsBack) :
    unitOf source (t.unitRecord i (.node l ms)) = .ok
      (Decl.node { name := .text "", headerName := .text "", form := .unit path } ms).reread := by
  obtain ⟨es, hes, named, filed, listed⟩ := t.unitRecord_node i hl ms
  have below : Decl.nestedRecords source es = .ok (ms.map fun m => m.reread.withRole .nested) := by
    rw [Decl.nestedRecords_eq, listed]
    refine (Decl.ofItems_eq_mapM _ _).trans (mapM_eq_ok (Decl.forall₂_toRecords ?_ _ _))
    exact fun m hm address => members m hm source _ address
  rw [hl] at held
  have back := Decl.owning_reread
    (l := { name := .text "", headerName := .text "", form := .unit path }) held
  rw [hes, unitOf, named, filed]
  simp only [bind, Except.bind, below, Value.displayOr_text, if_neg given]
  refine congrArg Except.ok (back.trans ?_)
  rw [Decl.reread_node]
  rfl

/-- The record of a unit that was read is read back. -/
theorem unitOf_unitRecord {source : String} {record : Value} {d : Decl}
    (h : unitOf source record = .ok d) (source' : String) (t : Tree) (i : Nat) :
    unitOf source' (t.unitRecord i d) = .ok d.reread := by
  cases record with
  | mapping es =>
    obtain ⟨name, -, h⟩ := exists_of_bind_eq_ok h
    obtain ⟨path, -, h⟩ := exists_of_bind_eq_ok h
    obtain ⟨ms, hms, h⟩ := exists_of_bind_eq_ok h
    obtain rfl := Except.ok.inj h
    rw [Decl.owning, unitOf_unitRecord_node source' t i rfl (path.displayOr_ne_empty (by decide))
      (Decl.areHeldBy_arrange _ ms)]
    · rw [Decl.reread_node, Decl.reread_node]
      rfl
    · intro m hm
      obtain ⟨e, he, rfl⟩ := Decl.exists_ownedBy_of_mem hm
      exact ((Decl.holdsAsRead_readsBack source).nestedRecords es hms e he).withRole _
  | _ => cases h

/-- What a document has yielded is read back from what is written of it. -/
theorem ofDocument_toDocument_eq {source : String} {document : Value} {t : Tree}
    (h : ofDocument source document = .ok t) (source' : String) :
    ofDocument source' t.toDocument = .ok t.reread := by
  obtain ⟨parsed, units⟩ := exists_unitOf_of_ofDocument h
  have read : (t.units.mapIdx t.unitRecord).mapM
      (fun r => (unitOf source' r).mapError (reportRecord source')) = .ok t.reread.units := by
    rw [units_reread]
    refine mapM_eq_ok (List.forall₂_iff_get.2 ⟨by simp, fun i hi hj => ?_⟩)
    simp only [List.length_map] at hj
    obtain ⟨record, hr⟩ := units _ (List.getElem_mem hj)
    simp only [List.get_eq_getElem, List.getElem_mapIdx, List.getElem_map]
    rw [unitOf_unitRecord hr]
    rfl
  have written : ofDocument source' t.toDocument =
      (do
        let records ← (Value.list (t.units.mapIdx t.unitRecord)).elementsIfGiven
        let units ← records.mapM fun r => (unitOf source' r).mapError (reportRecord source')
        return { units }) := rfl
  rw [written, Value.elementsIfGiven_list]
  simp only [bind, Except.bind, read]
  exact congrArg (fun stage => Except.ok (Tree.mk stage t.reread.units)) parsed.symm

/-- The record of what is left of a loaded unit is the record of the unit. -/
theorem unitRecord_reread {d : Decl} (h : d.IsLoaded) (unit : d.form.isUnit = true) (t t' : Tree)
    (i : Nat) : t'.unitRecord i d.reread = t.unitRecord i d := by
  cases h with
  | node l ms label members units scope items roles =>
    have records : Decl.toRecords t'.sourceName (ms.map Decl.reread) [i] 0 =
        Decl.toRecords t.sourceName ms [i] 0 :=
      Decl.toRecords_map (fun m hm => Decl.toRecord_reread (members m hm) (units m hm) _ _) _ _
    cases hl : l.form with
    | unit path =>
      rw [Decl.reread_node]
      simp only [unitRecord, Decl.form, Decl.label_node, Decl.members_node, Label.reread, hl,
        Form.reread, records, label.treatment]
    | _ => simp [Decl.form, hl, Form.isUnit] at unit

/-- What is left of a loaded tree is written as the tree is. -/
theorem toDocument_reread {t : Tree} (h : t.IsLoaded) : t.reread.toDocument = t.toDocument := by
  have units : t.reread.units.mapIdx t.reread.unitRecord = t.units.mapIdx t.unitRecord := by
    rw [units_reread]
    refine List.ext_getElem (by simp) fun i hi hj => ?_
    simp only [List.length_mapIdx] at hj
    obtain ⟨loaded, unit⟩ := h.units _ (List.getElem_mem hj)
    simp only [List.getElem_mapIdx, List.getElem_map]
    exact unitRecord_reread loaded unit t t.reread i
  rw [toDocument, toDocument, units]
  rfl

end Tree

/-! ## What comes back -/

/-- A declaration and what has come back for it. The name of a unit is not written. -/
structure Located.ComesBackAs (x y : Located) : Prop where
  /-- They stand at the same address. -/
  address : y.site.address = x.site.address
  /-- They are of the same kind. -/
  kind : y.label.form.word = x.label.form.word
  /-- Units have the same path. -/
  path : ∀ path, x.label.form = .unit path → y.label.form = .unit path
  /-- All but units have the same target-facing name. -/
  name : x.label.form.isUnit = false → y.label.name = x.label.name
  /-- All but units have the same name in the header. -/
  headerName : x.label.form.isUnit = false → y.label.headerName = x.label.headerName
  /-- The same may use them. -/
  access : y.label.access = x.label.access
  /-- The comment is the same if it is given, and otherwise absent. -/
  comment : y.label.comment = x.label.comment.orElse .null
  /-- Classes have the same bases. -/
  bases : y.label.form.classTraits?.map ClassTraits.bases =
    x.label.form.classTraits?.map ClassTraits.bases
  /-- What is callable takes and returns the same. -/
  signature : y.label.form.signature? = x.label.form.signature?
  /-- Methods are the same kind of operator. -/
  operator : y.label.form.methodTraits?.map MethodTraits.operator =
    x.label.form.methodTraits?.map MethodTraits.operator
  /-- Enumerators have the same value. -/
  value : ∀ value, x.label.form = .enumItem value → y.label.form = .enumItem value

/-- What is left of a declaration has come back for it. -/
theorem Located.comesBackAs_relabel (x : Located) :
    x.ComesBackAs (x.relabel fun _ l => l.reread) := by
  have label := x.label_relabel fun _ l => l.reread
  refine ⟨rfl, ?_, ?_, ?_, ?_, ?_, ?_, ?_, ?_, ?_, ?_⟩ <;>
    simp only [label, Label.form_reread, Form.word_reread, Form.signature?_reread]
  · rintro path hl
    rw [hl]
    rfl
  · exact Label.name_reread
  · exact Label.headerName_reread
  · rfl
  · rfl
  · cases x.label.form <;> rfl
  · cases x.label.form <;> rfl
  · rintro value hl
    rw [hl]
    rfl

namespace Tree

/-- A loaded tree that is written can be loaded again. For every declaration, in order and at the
same address, the same comes back but for what is not written, and the tree that came back is
written as the one before. -/
theorem ofDocument_toDocument {source : String} {document : Value} {t : Tree}
    (loaded : ofDocument source document = .ok t) (source' : String) :
    ofDocument source' t.toDocument = .ok t.reread ∧
      List.Forall₂ Located.ComesBackAs t.survey t.reread.survey ∧
      t.reread.toDocument = t.toDocument := by
  refine ⟨ofDocument_toDocument_eq loaded source', ?_,
    toDocument_reread (isLoaded_ofDocument loaded)⟩
  rw [reread, survey_relabel, List.forall₂_map_right_iff]
  exact List.forall₂_same.2 fun x _ => x.comesBackAs_relabel

/-- A dump of a class with a blank comment, the members of which come in another order than the one
in which the class lists them. -/
def shapeDump : Value :=
  .mapping [("translation_units", .list [
    .mapping [("name", .text "shape.h"), ("file_path", .text "include/QtGui/shape.h"),
      ("declarations", .list [
        .mapping [("kind", .text "class"), ("name", .text "Shape"), ("comment", .text ""),
          ("bases", .list [.text "Object"]), ("declarations", .list [
            .mapping [("kind", .text "field"), ("name", .text "width"), ("type", .text "int")],
            .mapping [("kind", .text "method"), ("name", .text "ToBool"),
              ("original_name", .text "operator bool"), ("return_type", .text "bool"),
              ("operator", .text "conversion"), ("parameters", .list [
                .mapping [("name", .text "exact"), ("type", .text "bool")]])],
            .mapping [("kind", .text "enum"), ("name", .text "Fill"),
              ("access", .text "protected"), ("items", .list [
                .mapping [("name", .text "Solid"), ("value", .int 1)]])]])]])]])]

/-- The tree of that dump. -/
def shapeTree : Tree where
  units := [
    .node { name := .text "shape.h", headerName := .text "shape.h",
            form := .unit "include/QtGui/shape.h" } [
      .node { name := .text "Shape", headerName := .text "Shape", comment := .text "",
              form := .classType ⟨["Object"], false, false⟩ } [
        .node { name := .text "Fill", headerName := .text "Fill", access := .protectedAccess,
                form := .enumeration } [
          .node { name := .text "Solid", headerName := .text "Solid",
                  form := .enumItem (.int 1) } []],
        .node { name := .text "ToBool", headerName := .text "operator bool", role := .method,
                form := .method ⟨[⟨"exact", "bool"⟩], "bool"⟩
                  ⟨false, false, false, false, .null, .conversion⟩ } [],
        .node { name := .text "width", headerName := .text "width", role := .field,
                form := .field "int" } []]]]

/-- That tree is written, loaded again and written as before. -/
theorem ofDocument_toDocument_shape :
    ofDocument "dump.yml" shapeDump = .ok shapeTree ∧
      ofDocument "again.yml" shapeTree.toDocument = .ok shapeTree.reread ∧
      List.Forall₂ Located.ComesBackAs shapeTree.survey shapeTree.reread.survey ∧
      shapeTree.reread.toDocument = shapeTree.toDocument := by
  have loaded : ofDocument "dump.yml" shapeDump = .ok shapeTree := rfl
  exact ⟨loaded, ofDocument_toDocument loaded "again.yml"⟩

end Tree

end Bindery
