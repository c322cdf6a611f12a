import Bindery.Proofs.Records
import Mathlib.Data.List.Nodup

/-!
# Records and declarations, one to one

What a tree owes to a dump is told place by place: the units to the unit records, and the members of
a declaration to the records below its record. Every declaration of a loaded tree comes from exactly
one record and every record that can be reached has exactly one declaration, with the owner that
comes from the record around it. Main statement: `Tree.records_one_to_one`.
-/

namespace Bindery

namespace PlacedRecord

/-- The record with those that contain it, innermost first. -/
def chain (p : PlacedRecord) : List Record := p.record :: p.owners

/-- The records on the way from the outermost below a unit record down. -/
def belowUnit (p : PlacedRecord) : List Record :=
  (p.chain.takeWhile fun r => r.sort != .unit).reverse

end PlacedRecord

/-- A record that can be reached in a document, through units, namespaces, classes and
enumerations. -/
inductive PlacedRecord.IsReachable (document : Value) : PlacedRecord → Prop
  /-- A unit record. -/
  | unit {p : PlacedRecord} (mem : p ∈ ofDocument document) : IsReachable document p
  /-- A record below another. -/
  | inner {p q : PlacedRecord} (reachable : IsReachable document p) (mem : q ∈ p.inner) :
    IsReachable document q

/-- A declaration of a tree stands where a record of a document puts it. -/
inductive Located.IsMadeFrom (document : Value) (t : Tree) : Located → PlacedRecord → Prop
  /-- The units are put in their order. -/
  | unit {i : Nat} {d : Decl} {p : PlacedRecord} (decl : t.units[i]? = some d)
    (record : (PlacedRecord.ofDocument document)[i]? = some p) :
    IsMadeFrom document t ⟨Site.top.child i, d⟩ p
  /-- The members of a declaration are put in the order of the records that its record lists. -/
  | member {x : Located} {p q : PlacedRecord} {i : Nat} {m : Decl}
    (owner : IsMadeFrom document t x p) (decl : x.decl.members[i]? = some m)
    (record : p.members[i]? = some q) : IsMadeFrom document t (x.member i m) q

namespace PlacedRecord

variable {document : Value} {p q : PlacedRecord}

/-! ## Places of records -/

/-- Records at different numbers are different. -/
theorem nodup_mapIdx {α : Type} (as : List α) {f : Nat → α → PlacedRecord}
    (apart : ∀ i j a b, (f i a).position = (f j b).position → i = j) : (as.mapIdx f).Nodup := by
  refine List.nodup_iff_injective_get.2 fun i j same => ?_
  simp only [List.get_eq_getElem, List.getElem_mapIdx] at same
  exact Fin.ext (apart _ _ _ _ (congrArg position same))

/-- The unit records are different places. -/
theorem nodup_ofDocument (document : Value) : (ofDocument document).Nodup :=
  nodup_mapIdx _ fun _ _ _ _ same => List.head_eq_of_cons_eq same

/-- The records below a record are different places. -/
theorem nodup_inner (p : PlacedRecord) : p.inner.Nodup :=
  nodup_mapIdx _ fun _ _ _ _ same => List.head_eq_of_cons_eq (List.append_cancel_left same)

/-- A record is below one record only. -/
theorem eq_of_mem_inner {p' : PlacedRecord} (h : q ∈ p.inner) (h' : q ∈ p'.inner) : p = p' := by
  obtain ⟨i, hi, rfl⟩ := List.mem_mapIdx.1 h
  obtain ⟨j, hj, same⟩ := List.mem_mapIdx.1 h'
  obtain ⟨position, record, owners⟩ := p
  obtain ⟨position', record', owners'⟩ := p'
  simp only [PlacedRecord.mk.injEq] at same
  obtain ⟨positions, -, around⟩ := same
  obtain ⟨rfl, -⟩ := List.append_inj' positions rfl
  obtain ⟨rfl, rfl⟩ := List.cons.inj around
  rfl

/-- What an owner lists are the records below its record, each once. -/
theorem members_perm (p : PlacedRecord) : p.members.Perm p.inner := by
  -- A record names one kind, so it is in one group only.
  have apart : ∀ {r : Record} {word word' : String}, r.isOf word = true → word ≠ word' →
      r.isOf word' = false := by
    intro r word word' named other
    rw [Record.isOf, Bool.and_eq_true, decide_eq_true_eq, decide_eq_true_eq] at named
    simp [Record.isOf, named.2, other]
  rw [members]
  split
  · refine (List.perm_ext_iff_of_nodup ?_ p.nodup_inner).2 fun q => ?_
    · have nodup := fun group => p.nodup_inner.filter group
      simp only [List.nodup_append, List.mem_append, List.mem_filter]
      refine ⟨nodup _, ⟨nodup _, ⟨nodup _, nodup _, ?_⟩, ?_⟩, ?_⟩
      · rintro q ⟨-, field⟩ _ ⟨-, property⟩ rfl
        rw [apart field (by decide)] at property
        cases property
      · rintro q ⟨-, method⟩ _ (⟨-, other⟩ | ⟨-, other⟩) rfl
        all_goals
          rw [apart method (by decide)] at other
          cases other
      · rintro q ⟨-, nested⟩ _ (⟨-, other⟩ | ⟨-, other⟩ | ⟨-, other⟩) rfl
        all_goals simp [Record.isNested, other] at nested
    · simp only [List.mem_append, List.mem_filter, ← and_or_left, Record.isNested]
      cases q.record.isOf "method" <;> cases q.record.isOf "field" <;> simp
  · exact List.Perm.refl _

/-- What an owner lists is below its record. -/
theorem mem_inner_of_getElem? {i : Nat} (h : p.members[i]? = some q) : q ∈ p.inner :=
  p.members_perm.subset (List.mem_of_getElem? h)

/-- Nothing contains a unit record. -/
theorem owners_of_mem_ofDocument (h : p ∈ ofDocument document) : p.owners = [] := by
  obtain ⟨i, hi, rfl⟩ := List.mem_mapIdx.1 h
  rfl

/-- A record below another is contained in it, and in what contains that. -/
theorem owners_of_mem_inner (h : q ∈ p.inner) : q.owners = p.chain := by
  obtain ⟨i, hi, rfl⟩ := List.mem_mapIdx.1 h
  rfl

end PlacedRecord

/-! ## Items at the same number -/

section

variable {α β : Type} {R : α → β → Prop} {as : List α} {bs : List β} {i : Nat} {a : α} {b : β}

/-- Whatever is related to a list has something at every number of it. -/
theorem exists_getElem?_right (h : List.Forall₂ R as bs) (ha : as[i]? = some a) :
    ∃ b, bs[i]? = some b ∧ R a b := by
  obtain ⟨hi, rfl⟩ := List.getElem?_eq_some_iff.1 ha
  have hj : i < bs.length := h.length_eq ▸ hi
  exact ⟨bs[i], List.getElem?_eq_getElem hj, h.get hi hj⟩

/-- Whatever a list is related to has something at every number of it. -/
theorem exists_getElem?_left (h : List.Forall₂ R as bs) (hb : bs[i]? = some b) :
    ∃ a, as[i]? = some a ∧ R a b := exists_getElem?_right h.flip hb

end

namespace Located.IsMadeFrom

open PlacedRecord (Yields IsReachable)

variable {source : String} {document : Value} {t : Tree} {x y : Located} {p q : PlacedRecord}

/-- What is made from a record is a unit at the number of its record, or a member at the number of
a record that its owner's record lists. -/
theorem unit_or_member (h : y.IsMadeFrom document t q) :
    (∃ i d, t.units[i]? = some d ∧ (PlacedRecord.ofDocument document)[i]? = some q ∧
      y = ⟨Site.top.child i, d⟩) ∨
    ∃ (x : Located) (p : PlacedRecord) (i : Nat) (m : Decl), x.IsMadeFrom document t p ∧
      x.decl.members[i]? = some m ∧ p.members[i]? = some q ∧ y = x.member i m := by
  cases h with
  | unit decl record => exact Or.inl ⟨_, _, decl, record, rfl⟩
  | member owner decl record => exact Or.inr ⟨_, _, _, _, owner, decl, record, rfl⟩

/-- What is made from a record is in the tree. -/
theorem mem_survey (h : x.IsMadeFrom document t p) : x ∈ t.survey := by
  induction h with
  | unit decl _ => exact Tree.unit_mem_survey decl
  | member _ decl _ ih => exact Tree.member_mem_survey ih decl

/-- Only records that can be reached are made into something. -/
theorem isReachable (h : x.IsMadeFrom document t p) : p.IsReachable document := by
  induction h with
  | unit _ record => exact .unit (List.mem_of_getElem? record)
  | member _ _ record ih => exact .inner ih (PlacedRecord.mem_inner_of_getElem? record)

/-- What is made from a record is what the record yields. -/
theorem yields (loaded : Tree.ofDocument source document = .ok t)
    (h : x.IsMadeFrom document t p) : Yields p x.decl := by
  induction h with
  | unit decl record =>
    obtain ⟨d, hd, yields⟩ :=
      exists_getElem?_right (PlacedRecord.forall₂_ofDocument loaded) record
    rw [decl] at hd
    exact Option.some.inj hd ▸ yields
  | @member x p q i m owner decl record ih =>
    obtain ⟨site, d⟩ := x
    cases ih with
    | node _ l ms label members =>
      obtain ⟨e, he, yields⟩ := exists_getElem?_right members record
      rw [Decl.members_node] at decl
      rw [decl] at he
      exact Option.some.inj he ▸ yields

/-- What a record lists is what the declaration made from it has. -/
theorem members (loaded : Tree.ofDocument source document = .ok t)
    (h : x.IsMadeFrom document t p) : List.Forall₂ Yields p.members x.decl.members := by
  have yields := h.yields loaded
  obtain ⟨site, d⟩ := x
  cases yields
  assumption

/-- A declaration is made from one record at most. -/
theorem record_unique (h : x.IsMadeFrom document t p) (h' : x.IsMadeFrom document t q) : p = q := by
  induction h generalizing q with
  | @unit i d p decl record =>
    rcases h'.unit_or_member with ⟨j, e, -, record', same⟩ | ⟨z, r, j, m, owner, -, -, same⟩
    · obtain rfl : i = j := by simpa [Site.child, Site.top] using congrArg (·.site.address) same
      exact Option.some.inj (record.symm.trans record')
    · have nested : [i] = z.site.address ++ [j] := congrArg (·.site.address) same
      exact absurd (List.append_eq_singleton_iff.1 nested.symm) (by
        simp [Tree.address_ne_nil owner.mem_survey])
  | @member x p q i m owner decl record ih =>
    rcases h'.unit_or_member with ⟨j, e, -, -, same⟩ | ⟨z, r, j, e, owner', -, record', same⟩
    · have nested : x.site.address ++ [i] = [j] := congrArg (·.site.address) same
      exact absurd (List.append_eq_singleton_iff.1 nested) (by
        simp [Tree.address_ne_nil owner.mem_survey])
    · have address : x.site.address ++ [i] = z.site.address ++ [j] :=
        congrArg (·.site.address) same
      obtain ⟨address, number⟩ := List.append_inj' address rfl
      obtain rfl := Tree.eq_of_address_eq owner.mem_survey owner'.mem_survey address
      obtain rfl : i = j := List.head_eq_of_cons_eq number
      obtain rfl := ih owner'
      exact Option.some.inj (record.symm.trans record')

/-- A record is made into one declaration at most. -/
theorem decl_unique (h : x.IsMadeFrom document t p) (h' : y.IsMadeFrom document t p) : x = y := by
  -- A record below another is no unit record, since that is contained in none.
  have apart : ∀ {r q : PlacedRecord} {i : Nat}, q ∈ PlacedRecord.ofDocument document →
      r.members[i]? ≠ some q := by
    intro r q i top below
    have owners := PlacedRecord.owners_of_mem_inner (PlacedRecord.mem_inner_of_getElem? below)
    rw [PlacedRecord.owners_of_mem_ofDocument top] at owners
    cases owners
  induction h generalizing y with
  | @unit i d p decl record =>
    rcases h'.unit_or_member with ⟨j, e, decl', record', rfl⟩ | ⟨z, r, j, m, -, -, record', -⟩
    · obtain rfl : i = j := (List.getElem?_inj (List.getElem?_eq_some_iff.1 record).1
        (PlacedRecord.nodup_ofDocument document)).1 (record.trans record'.symm)
      rw [Option.some.inj (decl.symm.trans decl')]
    · exact absurd record' (apart (List.mem_of_getElem? record))
  | @member x p q i m owner decl record ih =>
    rcases h'.unit_or_member with ⟨j, e, -, record', -⟩ | ⟨z, r, j, e, owner', decl', record', rfl⟩
    · exact absurd record (apart (List.mem_of_getElem? record'))
    · obtain rfl := PlacedRecord.eq_of_mem_inner (PlacedRecord.mem_inner_of_getElem? record)
        (PlacedRecord.mem_inner_of_getElem? record')
      obtain rfl := ih owner'
      obtain rfl : i = j := (List.getElem?_inj (List.getElem?_eq_some_iff.1 record).1
        (p.members_perm.nodup_iff.2 p.nodup_inner)).1 (record.trans record'.symm)
      rw [Option.some.inj (decl.symm.trans decl')]

/-- Every declaration of a loaded tree is made from a record. -/
theorem exists_record (loaded : Tree.ofDocument source document = .ok t) :
    ∀ x ∈ t.survey, ∃ p, x.IsMadeFrom document t p := by
  refine Tree.survey_induction ?_ ?_
  · intro i d hd
    obtain ⟨p, record, -⟩ :=
      exists_getElem?_left (PlacedRecord.forall₂_ofDocument loaded) hd
    exact ⟨p, .unit hd record⟩
  · rintro x - ⟨p, made⟩ i m hm
    obtain ⟨q, record, -⟩ := exists_getElem?_left (made.members loaded) hm
    exact ⟨q, .member made hm record⟩

/-- What is made from a record has a member that is made from any record below. -/
theorem exists_member (loaded : Tree.ofDocument source document = .ok t)
    (h : x.IsMadeFrom document t p) (mem : q ∈ p.inner) :
    ∃ i m, (x.member i m).IsMadeFrom document t q := by
  obtain ⟨i, record⟩ := List.getElem?_of_mem (p.members_perm.symm.subset mem)
  obtain ⟨m, decl, -⟩ := exists_getElem?_right (h.members loaded) record
  exact ⟨i, m, .member h decl record⟩

/-- Every record that can be reached is made into a declaration. -/
theorem exists_decl (loaded : Tree.ofDocument source document = .ok t)
    (h : p.IsReachable document) : ∃ x : Located, x.IsMadeFrom document t p := by
  induction h with
  | unit mem =>
    obtain ⟨i, record⟩ := List.getElem?_of_mem mem
    obtain ⟨d, decl, -⟩ := exists_getElem?_right (PlacedRecord.forall₂_ofDocument loaded) record
    exact ⟨_, .unit decl record⟩
  | inner _ mem ih =>
    obtain ⟨x, made⟩ := ih
    obtain ⟨i, m, member⟩ := made.exists_member loaded mem
    exact ⟨_, member⟩

/-- What is made from a record that another contains is a member of what is made from that. -/
theorem exists_owner (loaded : Tree.ofDocument source document = .ok t)
    (h : y.IsMadeFrom document t q) (reachable : p.IsReachable document) (mem : q ∈ p.inner) :
    ∃ x : Located, x.IsMadeFrom document t p ∧ ∃ i, y = x.member i y.decl := by
  obtain ⟨x, made⟩ := exists_decl loaded reachable
  obtain ⟨i, m, member⟩ := made.exists_member loaded mem
  refine ⟨x, made, i, ?_⟩
  rw [h.decl_unique member]
  rfl

/-- The owners of a declaration have the labels that the records say which contain its record. -/
theorem forall₂_chain (loaded : Tree.ofDocument source document = .ok t)
    (h : x.IsMadeFrom document t p) :
    List.Forall₂ (fun l (r : Record) => r.Labels l) x.chain p.chain := by
  have label : p.record.Labels x.label := (h.yields loaded).label
  induction h with
  | unit decl record =>
    rw [PlacedRecord.chain,
      PlacedRecord.owners_of_mem_ofDocument (List.mem_of_getElem? record)]
    exact .cons label .nil
  | member owner decl record ih =>
    rw [PlacedRecord.chain,
      PlacedRecord.owners_of_mem_inner (PlacedRecord.mem_inner_of_getElem? record)]
    exact .cons label (ih (owner.yields loaded).label)

end Located.IsMadeFrom

namespace Record

/-- A record is that of a unit just if its label is. -/
theorem Labels.isUnit_eq {r : Record} {l : Label} (h : r.Labels l) :
    l.form.isUnit = (r.sort == .unit) := by
  cases sort : r.sort with
  | unit => rw [h.unit sort]; rfl
  | declaration => exact (Form.hasRecords_iff.1 (h.declaration sort).2).1
  | item => rw [h.item sort]; rfl

/-- Labels that records say have the names that they say, up to the unit. -/
theorem map_headerName_takeWhile {chain : Chain} {rs : List Record}
    (h : List.Forall₂ (fun l (r : Record) => r.Labels l) chain rs) :
    (chain.takeWhile fun l => !l.form.isUnit).map (fun l => l.headerName.display) =
      (rs.takeWhile fun r => r.sort != .unit).map headerName := by
  induction h with
  | nil => rfl
  | @cons l r _ _ label _ ih =>
    rw [List.takeWhile_cons, List.takeWhile_cons, label.isUnit_eq, bne]
    cases r.sort == .unit with
    | true => rfl
    | false =>
      simp only [Bool.not_false, if_true, List.map_cons, ih, label.headerName, Value.display_text]

end Record

/-- The full name in the header of what is made from a record is put together from the names that
the records around it give. -/
theorem Located.IsMadeFrom.qualifiedHeaderName {source : String} {document : Value} {t : Tree}
    {x : Located} {p : PlacedRecord} (h : x.IsMadeFrom document t p)
    (loaded : Tree.ofDocument source document = .ok t) :
    x.qualifiedHeaderName = "::".intercalate (p.belowUnit.map Record.headerName) := by
  rw [Located.qualifiedHeaderName, Chain.qualifiedHeaderName, Chain.belowUnit,
    PlacedRecord.belowUnit, List.map_reverse, List.map_reverse,
    Record.map_headerName_takeWhile (h.forall₂_chain loaded)]

namespace Tree

/-- The records of a document that can be reached and the declarations of the tree that is loaded
from it belong together one to one. A declaration has the names and the form that its record says,
and so have its owners those of the records around; it is a member of what is made from the record
that contains its own, and its full name in the header is put together from the names on the way to
its record. The units come in the order of the document, and so do members, except that a class has
what is no method, field or property first, then its methods, its fields and its properties. -/
theorem records_one_to_one {source : String} {document : Value} {t : Tree}
    (loaded : ofDocument source document = .ok t) :
    (∀ x ∈ t.survey, ∃! p, x.IsMadeFrom document t p) ∧
    (∀ p : PlacedRecord, p.IsReachable document →
      ∃! x : Located, x ∈ t.survey ∧ x.IsMadeFrom document t p) ∧
    List.Forall₂ (Located.IsMadeFrom document t)
      (t.units.mapIdx fun i d => ⟨Site.top.child i, d⟩) (PlacedRecord.ofDocument document) ∧
    ∀ (x : Located) (p : PlacedRecord), x.IsMadeFrom document t p →
      (x ∈ t.survey ∧ p.IsReachable document) ∧
      List.Forall₂ (fun l (r : Record) => r.Labels l) x.chain p.chain ∧
      x.qualifiedHeaderName = "::".intercalate (p.belowUnit.map Record.headerName) ∧
      (p.members.Perm p.inner ∧
        List.Forall₂ (Located.IsMadeFrom document t) (x.decl.members.mapIdx x.member) p.members) ∧
      ∀ q : PlacedRecord, q.IsReachable document → p ∈ q.inner →
        ∃ y : Located, y.IsMadeFrom document t q ∧ ∃ i, x = y.member i x.decl := by
  have inOrder : ∀ {ds : List Decl} {ps : List PlacedRecord} {place : Nat → Decl → Located},
      List.Forall₂ PlacedRecord.Yields ps ds →
      (∀ i d p, ds[i]? = some d → ps[i]? = some p → (place i d).IsMadeFrom document t p) →
      List.Forall₂ (Located.IsMadeFrom document t) (ds.mapIdx place) ps := by
    intro ds ps place yields each
    refine List.forall₂_iff_get.2 ⟨by simp [yields.length_eq], fun i hi hj => ?_⟩
    rw [List.length_mapIdx] at hi
    simp only [List.get_eq_getElem, List.getElem_mapIdx]
    exact each i _ _ (List.getElem?_eq_getElem hi) (List.getElem?_eq_getElem hj)
  refine ⟨fun x hx => ?_, fun p hp => ?_, ?_, fun x p made => ?_⟩
  · obtain ⟨p, made⟩ := Located.IsMadeFrom.exists_record loaded x hx
    exact ⟨p, made, fun q made' => made'.record_unique made⟩
  · obtain ⟨x, made⟩ := Located.IsMadeFrom.exists_decl loaded hp
    exact ⟨x, ⟨made.mem_survey, made⟩, fun y made' => made'.2.decl_unique made⟩
  · exact inOrder (PlacedRecord.forall₂_ofDocument loaded) fun i d p decl record =>
      .unit decl record
  · refine ⟨⟨made.mem_survey, made.isReachable⟩, made.forall₂_chain loaded,
      made.qualifiedHeaderName loaded, ⟨p.members_perm, ?_⟩, fun q reachable mem =>
        made.exists_owner loaded reachable mem⟩
    exact inOrder (made.members loaded) fun i m q decl record => .member made decl record

/-- The field of the class `Shape` comes from the first of the records below that of the class,
though the class lists it last, and no other declaration comes from there. -/
theorem records_one_to_one_shape :
    ofDocument "dump.yml" shapeDump = .ok shapeTree ∧
      (∀ x ∈ shapeTree.survey, ∃! p, x.IsMadeFrom shapeDump shapeTree p) ∧
      ∃ p : PlacedRecord, p.position = [0, 0, 0] ∧
        (∃! x : Located, x ∈ shapeTree.survey ∧ x.IsMadeFrom shapeDump shapeTree p) ∧
        ∃ x : Located, x.IsMadeFrom shapeDump shapeTree p ∧ x.site.address = [0, 0, 2] ∧
          x.qualifiedHeaderName = "Shape::width" := by
  have loaded : ofDocument "dump.yml" shapeDump = .ok shapeTree := rfl
  obtain ⟨records, decls, -, each⟩ := records_one_to_one loaded
  have unit : Located.IsMadeFrom shapeDump shapeTree _ _ := .unit (i := 0) rfl rfl
  have shape := unit.member (i := 0) rfl rfl
  have width := shape.member (i := 2) rfl rfl
  obtain ⟨⟨-, reachable⟩, -, named, -⟩ := each _ _ width
  exact ⟨loaded, records, _, rfl, decls _ reachable, _, width, rfl, named⟩

end Tree

end Bindery
