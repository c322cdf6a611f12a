import Bindery.Proofs.Lookup
import Bindery.Proofs.Turning

/-!
# What a policy asks for

A policy is applied directive by directive, each to the tree that the one before it left. All the
same, what becomes of a declaration can be read off the tree as it was before the first directive:
which classes the policy names, which declarations it suppresses, which enumerations it names or
makes accessible. Main statements: `suppresses_relabel`, `namesEnum_relabel`, `publishedAt?_relabel`.
-/

namespace Bindery

/-- Whether a site is that of a member of the declaration at an address. -/
def Site.isMemberOf (s : Site) (owner : List Nat) : Bool :=
  decide (s.address ≠ [] ∧ s.address.dropLast = owner)

/-- The class that a value names: the first that defines it. What is no text names none. -/
def Tree.definition? (t : Tree) (name : Value) : Option Located :=
  name.text?.bind t.findCompleteClass?

/-- Whether a removal is meant for the declaration at a site: it is the first operator of the class
that the removal is meant for. -/
def OperatorRemoval.picks (removal : OperatorRemoval) (t : Tree) (s : Site) : Bool :=
  (t.definition? removal.className).any fun c =>
    (Policy.memberIndex? c.decl (Policy.OperatorRemoval.applies removal)).any fun i =>
      s.address == c.site.address ++ [i]

namespace Policy

variable (p : Policy) (t : Tree)

/-- Whether the policy makes the declaration at a site a value type. -/
def makesValue (s : Site) (l : Label) : Bool :=
  l.form.isClass && p.isValueType (s.chain l).qualifiedName

/-- Whether the declaration at a site is a member of the string class that is not kept. -/
def drops (s : Site) (l : Label) : Bool :=
  p.stringClass.isGiven && (t.definition? p.stringClass).any fun c =>
    s.isMemberOf c.site.address && !p.isKept l

/-- Whether the policy suppresses the declaration at a site. -/
def suppresses (s : Site) (l : Label) : Bool :=
  unboundMethods.any (isUnbound · s l) || p.drops t s l ||
    p.ignoredOperators.any (OperatorRemoval.picks · t s)

/-- Whether anonymous enumerations of the declaration at an address get a name. -/
def namesEnumsOf (owner : List Nat) : Bool :=
  p.typedEnumClasses.any fun name => (t.definition? name).any fun c => c.site.address == owner

/-- Whether the policy names the declaration at a site. -/
def namesEnum (s : Site) (l : Label) : Bool :=
  isAnonymousEnum l && (decide (s.address ≠ []) && p.namesEnumsOf t s.address.dropLast)

/-- The name of a member once anonymous enumerations of its class have one, if they get one. -/
def typedName (isTyped : Bool) (l : Label) : Value :=
  if isAnonymousEnum l && isTyped then p.typedEnumName else l.name

/-- Whether a member of a class is an enumeration of the wanted name, once the enumerations of the
class have the names that they get. -/
def isEnumToPublish (c : Located) (e : ClassEnum) (l : Label) : Bool :=
  l.role == .nested && l.form.isEnumeration &&
    (p.typedName (p.namesEnumsOf t c.site.address) l).alike e.enumName

/-- The address of the enumeration that an entry makes accessible. -/
def publishedAt? (entry : Option ClassEnum) : Option (List Nat) :=
  entry.bind fun e => (t.definition? e.className).bind fun c =>
    (memberIndex? c.decl fun m => p.isEnumToPublish t c e m.label).map fun i =>
      c.site.address ++ [i]

/-- Whether the policy makes the declaration at a site accessible. -/
def publishes (s : Site) : Bool := p.publicEnums.any fun e => p.publishedAt? t e == some s.address

/-- The label that the policy leads to. -/
def labelUnder (s : Site) (l : Label) : Label :=
  let valued := if p.makesValue s l then markValue l else l
  let named := if p.namesEnum t s l then { valued with name := p.typedEnumName } else valued
  let published := if p.publishes t s then { named with access := .publicAccess } else named
  if p.suppresses t s l then published.suppress else published

/-- The policy can be applied to the tree: everything that it names is there. -/
structure IsApplicable : Prop where
  /-- Every class has a full name. -/
  named : t.hasNamedClasses = true
  /-- The string class is there, and the names that are kept form a set. -/
  string : p.stringClass.isGiven = true →
    (t.definition? p.stringClass).isSome = true ∧ p.stringKeptMethods.all Value.isSimple = true
  /-- The classes are there whose anonymous enumerations get a name. -/
  typed : ∀ name ∈ p.typedEnumClasses, (t.definition? name).isSome = true
  /-- The enumerations are there that are made accessible. -/
  published : ∀ e ∈ p.publicEnums, (p.publishedAt? t e).isSome = true
  /-- The classes are there of which operators are dropped. -/
  operators : ∀ removal ∈ p.ignoredOperators, (t.definition? removal.className).isSome = true

end Policy

/-! ## What a relabelled tree is asked for -/

namespace Tree

variable {t : Tree} {f : Site → Label → Label} {g : Site → Decl → List Decl}

/-- A class that is needed is there if there is one of its name. -/
theorem requireClass_eq (hn : t.hasNamedClasses = true) (step : String) (module name : Value) :
    t.requireClass step module name =
      match t.definition? name with
      | some x => .ok x
      | none => .error (.missingDeclaration step module name.display) := by
  rw [requireClass, if_pos hn]
  rfl

/-- What a value names is a class of the tree. -/
theorem mem_of_definition? {name : Value} {x : Located} (h : t.definition? name = some x) :
    x ∈ t.survey ∧ x.label.form.isClass = true := by
  obtain ⟨s, -, hx⟩ := Option.bind_eq_some_iff.1 h
  exact mem_of_findCompleteClass? hx

/-- What a value names in a relabelled tree is what it named before. -/
theorem definition?_relabel (hs : t.IsShaped) (hf : t.AgreesUnder f) (name : Value) :
    (t.relabel f).definition? name = (t.definition? name).map (Located.relabel f) := by
  rw [definition?, definition?]
  cases name.text? with
  | none => rfl
  | some s => exact findCompleteClass?_relabel hs hf s

/-- What a value names in a tree that got events is what it named before. -/
theorem definition?_extend (hg : t.GainsUnder g) (name : Value) :
    (t.extend g).definition? name = (t.definition? name).map (Located.extend g) := by
  rw [definition?, definition?]
  cases name.text? with
  | none => rfl
  | some s => exact findCompleteClass?_extend hg s

end Tree

namespace Policy

variable {p : Policy} {t : Tree} {f : Site → Label → Label} {g : Site → Decl → List Decl}
variable {x : Located}

/-- The number of a member rests on the conditions alone. -/
theorem memberIndex?_eq (d : Decl) (condition : Decl → Bool) :
    memberIndex? d condition = (d.members.map condition).findIdx? id := by
  rw [memberIndex?, List.findIdx?_map]
  rfl

/-- A member has the number that it had before a relabelling, if the condition holds of the same
members as another one held of. -/
theorem memberIndex?_relabel (hx : x ∈ t.survey) (condition before : Label → Bool)
    (h : ∀ y ∈ t.survey, y.site.address.dropLast = x.site.address →
      condition (f y.site y.label) = before y.label) :
    memberIndex? (x.relabel f).decl (fun m => condition m.label) =
      memberIndex? x.decl (fun m => before m.label) := by
  rw [memberIndex?_eq, memberIndex?_eq]
  refine congrArg (List.findIdx? id) (List.ext_getElem? fun i => ?_)
  rw [Located.members_relabel, List.getElem?_map, List.getElem?_map, Decl.getElem?_relabelAll,
    Nat.zero_add, Option.map_map]
  refine Option.map_congr fun m hm => ?_
  have hy := Tree.member_mem_survey hx (Option.mem_def.1 hm)
  have hl := h _ hy (List.dropLast_concat)
  rw [← Located.label_relabel f, Located.relabel_member] at hl
  exact hl

/-- A member that is no event has the number that it had before its class got events. -/
theorem memberIndex?_extend (hg : t.GainsUnder g) (hx : x ∈ t.survey) (condition : Label → Bool)
    (h : ∀ l : Label, l.role = .event → condition l = false) :
    memberIndex? (x.extend g).decl (fun m => condition m.label) =
      memberIndex? x.decl (fun m => condition m.label) := by
  have hold : (Decl.extendAll g x.decl.members (x.site.inside x.label) 0).map
      (fun m => condition m.label) = x.decl.members.map fun m => condition m.label := by
    refine List.ext_getElem? fun i => ?_
    rw [List.getElem?_map, List.getElem?_map, Decl.getElem?_extendAll, Option.map_map]
    refine Option.map_congr fun m _ => ?_
    cases m
    rfl
  have hnew : (g x.site x.decl).findIdx? (fun m => condition m.label) = none := by
    rw [List.findIdx?_eq_none_iff]
    exact fun e he => h _ (hg x hx e he).role
  rw [memberIndex?, Located.members_extend, List.findIdx?_append, hnew, Option.map_none,
    Option.or_none, memberIndex?_eq x.decl, ← hold, List.findIdx?_map]
  rfl

/-- A relabelled class is made a value type if it was to be made one. -/
theorem makesValue_relabel (hs : t.IsShaped) (hf : t.AgreesUnder f) (hx : x ∈ t.survey) :
    p.makesValue (x.site.relabel f) (f x.site x.label) = p.makesValue x.site x.label := by
  rw [makesValue, makesValue, (hf x hx).isClass]
  cases hc : x.label.form.isClass with
  | false => rfl
  | true =>
    have hn := (hf.chain x hx).qualifiedName (hs.isOpen_of_isClass hx hc)
    have he : (x.relabel f).chain = (x.site.relabel f).chain (f x.site x.label) := by
      rw [Located.chain, Located.label_relabel, Located.site_relabel]
    rw [← he, hn]
    rfl

/-- A relabelled method is unbound if it was. -/
theorem isUnbound_relabel (hs : t.IsShaped) (hf : t.AgreesUnder f) (hx : x ∈ t.survey)
    (method : String × String) :
    isUnbound method (x.site.relabel f) (f x.site x.label) =
      isUnbound method x.site x.label := by
  rw [isUnbound, isUnbound, (hf x hx).role, (hf x hx).headerName]
  refine congrArg (x.label.role == .method && x.label.headerName == .text method.2 && ·) ?_
  have hc := hf.scope hx
  cases hsc : x.site.scope with
  | nil =>
    rw [hsc] at hc
    rw [List.forall₂_nil_left_iff.1 hc]
  | cons owner outer =>
    rw [hsc] at hc
    obtain ⟨owner', outer', ho, -, hsc'⟩ := List.forall₂_cons_left_iff.1 hc
    rw [hsc'] at hc ⊢
    dsimp only
    rw [ho.isClass]
    cases hcl : owner.form.isClass with
    | false => rfl
    | true =>
      -- The owner is a class of the tree, so its chain is open.
      have hsuf : owner :: outer <:+ x.chain := by
        rw [← hsc]
        exact List.suffix_cons _ _
      obtain ⟨y, hy, -, rfl, rfl⟩ := Tree.exists_owner_of_suffix hx hsuf
      rw [hc.qualifiedName (hs.isOpen_of_isClass hy hcl)]

/-- A relabelled member is kept if it was. -/
theorem isKept_of_agrees {l l' : Label} (h : l.Agrees l') : p.isKept l' = p.isKept l := by
  rw [isKept, isKept, h.isMethod, h.headerName]

/-- A relabelled member is dropped if it was. -/
theorem drops_relabel (hs : t.IsShaped) (hf : t.AgreesUnder f) (hx : x ∈ t.survey) :
    p.drops (t.relabel f) (x.site.relabel f) (f x.site x.label) = p.drops t x.site x.label := by
  rw [drops, drops, Tree.definition?_relabel hs hf, Option.any_map, isKept_of_agrees (hf x hx)]
  rfl

/-- Whether a removal is meant for a method rests on its role and form. -/
theorem applies_of_agrees (removal : OperatorRemoval) {d d' : Decl} (h : d.label.Agrees d'.label) :
    OperatorRemoval.applies removal d' = OperatorRemoval.applies removal d := by
  have hr : d'.role = d.role := h.role
  have ho : d'.isOperator removal.operator = d.isOperator removal.operator :=
    congrArg (Option.any _) h.methodTraits?
  have hf : d'.form.signature? = d.form.signature? := h.signature?
  rw [OperatorRemoval.applies, OperatorRemoval.applies, hr, ho, hf]

/-- Whether a removal is meant for a method can be told from its label. -/
theorem applies_eq (removal : OperatorRemoval) :
    OperatorRemoval.applies removal = fun d =>
      OperatorRemoval.applies removal (.node d.label []) :=
  funext fun _ => applies_of_agrees removal (.refl _)

/-- After a relabelling, a removal is meant for the same operator. -/
theorem picks_relabel (hs : t.IsShaped) (hf : t.AgreesUnder f) (removal : OperatorRemoval)
    (s : Site) : removal.picks (t.relabel f) (s.relabel f) = removal.picks t s := by
  rw [OperatorRemoval.picks, OperatorRemoval.picks, Tree.definition?_relabel hs hf, Option.any_map]
  cases hd : t.definition? removal.className with
  | none => rfl
  | some c =>
    rw [Option.any_some, Option.any_some]
    have hi := memberIndex?_relabel (f := f) (Tree.mem_of_definition? hd).1
      (fun l => OperatorRemoval.applies removal (.node l []))
      (fun l => OperatorRemoval.applies removal (.node l [])) fun y hy _ => applies_of_agrees removal (hf y hy)
    rw [← applies_eq] at hi
    exact congrArg _ hi

/-- After a relabelling, the policy suppresses the same declarations. -/
theorem suppresses_relabel (hs : t.IsShaped) (hf : t.AgreesUnder f) (hx : x ∈ t.survey) :
    p.suppresses (t.relabel f) (x.site.relabel f) (f x.site x.label) =
      p.suppresses t x.site x.label := by
  simp only [suppresses, isUnbound_relabel hs hf hx, drops_relabel hs hf hx, picks_relabel hs hf]

/-- After a relabelling, anonymous enumerations of the same classes get a name. -/
theorem namesEnumsOf_relabel (hs : t.IsShaped) (hf : t.AgreesUnder f) (owner : List Nat) :
    p.namesEnumsOf (t.relabel f) owner = p.namesEnumsOf t owner := by
  simp only [namesEnumsOf, Tree.definition?_relabel hs hf, Option.any_map]
  rfl

/-- A relabelling that leaves the names of enumerations alone. -/
def KeepsEnumNames (t : Tree) (f : Site → Label → Label) : Prop :=
  ∀ x ∈ t.survey, x.label.form.isEnumeration = true → (f x.site x.label).name = x.label.name

/-- An enumeration that keeps its name is anonymous if it was. -/
theorem isAnonymousEnum_relabel (hf : t.AgreesUnder f) (hn : KeepsEnumNames t f)
    (hx : x ∈ t.survey) : isAnonymousEnum (f x.site x.label) = isAnonymousEnum x.label := by
  rw [isAnonymousEnum, isAnonymousEnum, (hf x hx).role, (hf x hx).isEnumeration]
  cases he : x.label.form.isEnumeration with
  | false => simp
  | true => rw [hn x hx he]

/-- After a relabelling that leaves the names of enumerations alone, the policy names the same
declarations. -/
theorem namesEnum_relabel (hs : t.IsShaped) (hf : t.AgreesUnder f) (hn : KeepsEnumNames t f)
    (hx : x ∈ t.survey) :
    p.namesEnum (t.relabel f) (x.site.relabel f) (f x.site x.label) =
      p.namesEnum t x.site x.label := by
  rw [namesEnum, namesEnum, isAnonymousEnum_relabel hf hn hx, namesEnumsOf_relabel hs hf]
  rfl

/-- After a relabelling that leaves the names of enumerations alone, the same enumerations are made
accessible. -/
theorem publishedAt?_relabel (hs : t.IsShaped) (hf : t.AgreesUnder f) (hn : KeepsEnumNames t f)
    (entry : Option ClassEnum) : p.publishedAt? (t.relabel f) entry = p.publishedAt? t entry := by
  cases entry with
  | none => rfl
  | some e =>
    rw [publishedAt?, publishedAt?, Option.bind_some, Option.bind_some,
      Tree.definition?_relabel hs hf, Option.bind_map]
    cases hd : t.definition? e.className with
    | none => rfl
    | some c =>
      rw [Option.bind_some, Option.bind_some, Function.comp_apply]
      refine congrArg (Option.map _) ?_
      refine memberIndex?_relabel (Tree.mem_of_definition? hd).1
        (p.isEnumToPublish (t.relabel f) (c.relabel f) e) (p.isEnumToPublish t c e) fun y hy _ => ?_
      rw [isEnumToPublish, isEnumToPublish, namesEnumsOf_relabel hs hf, Located.site_relabel,
        Site.address_relabel]
      rw [(hf y hy).role, (hf y hy).isEnumeration]
      cases he : y.label.form.isEnumeration with
      | false => simp
      | true =>
        rw [typedName, typedName, isAnonymousEnum_relabel hf hn hy, hn y hy he]

/-- Whether a policy can be applied is no matter of the stage. -/
theorem isApplicable_atStage {stage : Stage} :
    p.IsApplicable { t with stage } ↔ p.IsApplicable t :=
  ⟨fun h => ⟨h.named, h.string, h.typed, h.published, h.operators⟩,
    fun h => ⟨h.named, h.string, h.typed, h.published, h.operators⟩⟩

end Policy

end Bindery
