import Bindery.Disk
import Bindery.Proofs.Reading

/-!
# What stays on a disk

Making directories leaves everything where it is, and writing a file leaves everything else where it
is, directories above all. So a path that has led somewhere leads there from then on. However the
disk refuses something, the fault is never one that is reported. Main statements: `Keeps.read`,
`Gains.read`, `Gains.read_of_ne`.
-/

namespace Bindery.Disk

/-! ## Refusals -/

/-- Checking names comes to no fault that is reported. -/
theorem reads_checkNames (names : List String) :
    Reads Fault.isUnreported true (checkNames names) := by
  rw [checkNames]
  split
  · exact Or.inl rfl
  · split
    · exact Or.inl rfl
    · exact rfl

/-- Following names comes to no fault that is reported. -/
theorem reads_follow (d : Disk) (names : List String) :
    ∀ here, Reads Fault.isUnreported true (d.follow here names) := by
  induction names with
  | nil => exact fun here => rfl
  | cons name rest ih =>
    intro here
    rw [follow]
    split
    · split
      · exact Or.inl rfl
      · exact ih _
    · exact Or.inl rfl
    · exact Or.inl rfl

/-- Following a path comes to no fault that is reported. -/
theorem reads_place (d : Disk) (p : WrittenPath) :
    Reads Fault.isUnreported true (d.place p) := by
  rw [place]
  refine (reads_checkNames p.components).followed fun _ _ => ?_
  split
  · exact Or.inl rfl
  · exact d.reads_follow p.components _

/-- Writing a file comes to no fault that is reported. -/
theorem reads_write (d : Disk) (p : WrittenPath) (content : FileContent) :
    Reads Fault.isUnreported true (d.write p content) := by
  refine (d.reads_place p).followed fun q _ => ?_
  split
  · exact Or.inl rfl
  · exact rfl

/-- Making a directory comes to no fault that is reported. -/
theorem reads_makeDirectory (d : Disk) (p : WrittenPath) :
    Reads Fault.isUnreported true (d.makeDirectory p) := by
  refine (d.reads_place p).followed fun q _ => ?_
  split
  · exact rfl
  · exact Or.inl rfl
  · exact rfl

/-- Settling a directory that was to be made comes to no fault that is reported. -/
theorem isReported_settle (d e : Disk) (p : WrittenPath) {fault : Fault}
    (h : (d.settle (e.makeDirectory p)).2 = some fault) : fault.isReported = false := by
  have made := e.reads_makeDirectory p
  cases hm : e.makeDirectory p with
  | ok made =>
    rw [hm] at h
    cases h
  | error cause =>
    rw [hm] at h made
    obtain rfl : cause = fault := Option.some.inj h
    rcases made with made | ⟨-, made⟩
    · simpa [Fault.isUnreported] using made
    · cases made

/-- Making directories up to a place comes to no fault that is reported. -/
theorem isReported_makeUpTo (d : Disk) (root : Nat) (above : List String) {fault : Fault}
    (h : (d.makeUpTo root above).2 = some fault) : fault.isReported = false := by
  induction above with
  | nil => exact d.isReported_settle d _ h
  | cons name above ih =>
    rw [makeUpTo] at h
    split at h
    · split at h
      · next below made => exact below.isReported_settle below _ h
      · exact ih h
    · exact d.isReported_settle d _ h

/-- Making directories comes to no fault that is reported. -/
theorem isReported_makeDirectories (d : Disk) (p : WrittenPath) {fault : Fault}
    (h : (d.makeDirectories p).2 = some fault) : fault.isReported = false :=
  d.isReported_makeUpTo p.root p.components.reverse h

/-! ## Paths -/

/-- A disk with the directories of another one. -/
structure Extends (d e : Disk) : Prop where
  /-- Relative paths begin where they began. -/
  workingDirectory : e.workingDirectory = d.workingDirectory
  /-- Directories are still there. -/
  directory : ∀ p, d.node? p = some .directory → e.node? p = some .directory

/-- With the directories of another disk, names that have led somewhere there lead there. -/
theorem follow_of_extends {d e : Disk} (h : d.Extends e) {q : Place} (names : List String) :
    ∀ here, d.follow here names = .ok q → e.follow here names = .ok q := by
  induction names with
  | nil => exact fun here hf => hf
  | cons name rest ih =>
    intro here hf
    rw [follow] at hf ⊢
    cases hn : d.node? here with
    | none =>
      rw [hn] at hf
      cases hf
    | some node =>
      cases node with
      | file content =>
        rw [hn] at hf
        cases hf
      | directory =>
        rw [hn] at hf
        rw [h.directory here hn]
        dsimp only at hf ⊢
        split at hf
        · cases hf
        · next short =>
          rw [if_neg short]
          exact ih _ hf

/-- With the directories of another disk, a path that has led somewhere there leads there. -/
theorem place_of_extends {d e : Disk} (h : d.Extends e) {p : WrittenPath} {q : Place}
    (hp : d.place p = .ok q) : e.place p = .ok q := by
  obtain ⟨_, checked, hp⟩ := exists_of_bind_eq_ok hp
  have start : e.start p = d.start p := by rw [start, start, h.workingDirectory]
  rw [place, checked, start]
  change (if longestPath < byteLength p.render then _ else _) = _ at hp ⊢
  split at hp
  · cases hp
  · next short =>
    rw [if_neg short]
    exact follow_of_extends h _ _ hp

/-- What is read where a path leads to a document. -/
theorem read_of_node {d : Disk} {p : WrittenPath} {q : Place} {v : Value} (hp : d.place p = .ok q)
    (hq : d.node? q = some (.file (.document v))) : d.read p = .ok v := by
  rw [read, hp]
  dsimp only [bind, Except.bind]
  rw [hq]
  rfl

/-! ## Directories -/

/-- A disk on which everything stands that stands on another one. -/
structure Keeps (d e : Disk) : Prop where
  /-- Relative paths begin where they began. -/
  workingDirectory : e.workingDirectory = d.workingDirectory
  /-- What stood somewhere stands there. -/
  node : ∀ p n, d.node? p = some n → e.node? p = some n

namespace Keeps

variable {c d e : Disk}

/-- A disk keeps what is on it. -/
theorem refl (d : Disk) : d.Keeps d := ⟨rfl, fun _ _ h => h⟩

/-- What is kept twice is kept. -/
theorem trans (h : c.Keeps d) (h' : d.Keeps e) : c.Keeps e :=
  ⟨h'.workingDirectory.trans h.workingDirectory, fun p n hn => h'.node p n (h.node p n hn)⟩

/-- Where everything stands, the directories do. -/
theorem extended (h : d.Keeps e) : d.Extends e := ⟨h.workingDirectory, fun p => h.node p .directory⟩

/-- A document that can be read can be read where everything is kept. -/
theorem read (h : d.Keeps e) {p : WrittenPath} {q : Place} {v : Value} (hp : d.place p = .ok q)
    (hq : d.node? q = some (.file (.document v))) : e.read p = .ok v :=
  read_of_node (place_of_extends h.extended hp) (h.node q _ hq)

end Keeps

/-- Making a directory keeps everything: it is made where nothing stands. -/
theorem keeps_of_makeDirectory {d e : Disk} {p : WrittenPath} (h : d.makeDirectory p = .ok e) :
    d.Keeps e := by
  obtain ⟨q, -, h⟩ := exists_of_bind_eq_ok h
  cases hn : d.node? q with
  | some node =>
    rw [hn] at h
    cases node with
    | directory =>
      obtain rfl := Except.ok.inj h
      exact .refl d
    | file content => cases h
  | none =>
    rw [hn] at h
    obtain rfl := Except.ok.inj h
    refine ⟨rfl, fun p n hp => ?_⟩
    have other : p ≠ q := by
      rintro rfl
      rw [hn] at hp
      cases hp
    have same : ({ d with directories := d.directories ++ [q] } : Disk).hasDirectory p =
        d.hasDirectory p := by
      simp [hasDirectory, other]
    rw [node?, same]
    exact hp

/-- Making a directory keeps everything, also if it fails. -/
theorem keeps_settle_makeDirectory (d : Disk) (p : WrittenPath) :
    d.Keeps (d.settle (d.makeDirectory p)).1 := by
  cases h : d.makeDirectory p with
  | ok made => exact keeps_of_makeDirectory h
  | error fault => exact .refl d

/-- Making directories up to a place keeps everything. -/
theorem keeps_makeUpTo (d : Disk) (root : Nat) (above : List String) :
    d.Keeps (d.makeUpTo root above).1 := by
  induction above with
  | nil => exact d.keeps_settle_makeDirectory _
  | cons name above ih =>
    rw [makeUpTo]
    split
    · split
      · next below made =>
        rw [made] at ih
        exact ih.trans (below.keeps_settle_makeDirectory _)
      · exact ih
    · exact d.keeps_settle_makeDirectory _

/-- Making directories keeps everything. -/
theorem keeps_makeDirectories (d : Disk) (p : WrittenPath) : d.Keeps (d.makeDirectories p).1 :=
  d.keeps_makeUpTo p.root p.components.reverse

/-! ## Files -/

/-- What is found under other places does not change when a file is written. -/
theorem lookup_putFile_of_ne {p q : Place} (h : q ≠ p) (content : FileContent)
    (fs : List (Place × FileContent)) : (putFile p content fs).lookup q = fs.lookup q := by
  induction fs with
  | nil => simp [putFile, List.lookup_cons, beq_eq_false_iff_ne.2 h]
  | cons f fs ih =>
    obtain ⟨r, c⟩ := f
    rw [putFile]
    split
    · next hr =>
      rw [List.lookup_cons, List.lookup_cons, beq_eq_false_iff_ne.2 (hr ▸ h)]
    · rw [List.lookup_cons, List.lookup_cons, ih]

/-- A disk on which a file was written where a path leads. -/
structure Gains (d : Disk) (p : WrittenPath) (content : FileContent) (q : Place) (e : Disk) :
    Prop where
  /-- The path leads to the place. -/
  place : d.place p = .ok q
  /-- No directory stands there. -/
  free : d.hasDirectory q = false
  /-- The file is there, and nothing else has changed. -/
  eq : e = { d with files := putFile q content d.files }

/-- A file that could be written was written where the path leads. -/
theorem exists_of_write_eq_ok {d e : Disk} {p : WrittenPath} {content : FileContent}
    (h : d.write p content = .ok e) : ∃ q, d.Gains p content q e := by
  obtain ⟨q, hq, h⟩ := exists_of_bind_eq_ok h
  refine ⟨q, hq, ?_, ?_⟩
  · rw [← Bool.not_eq_true]
    intro hd
    have hn : d.node? q = some .directory := by rw [node?, if_pos hd]
    rw [hn] at h
    cases h
  · split at h
    · cases h
    · exact (Except.ok.inj h).symm

namespace Gains

variable {d e : Disk} {p : WrittenPath} {content : FileContent} {q : Place}

/-- Directories are where they were. -/
theorem hasDirectory (h : d.Gains p content q e) (r : Place) :
    e.hasDirectory r = d.hasDirectory r := by
  rw [h.eq]
  rfl

/-- Directories are where they were. -/
theorem extended (h : d.Gains p content q e) : d.Extends e := by
  refine ⟨by rw [h.eq], fun r hr => ?_⟩
  rw [node?] at hr ⊢
  rw [h.hasDirectory]
  split at hr
  · next hd => rw [if_pos hd]
  · exact absurd hr (by simp)

/-- The file stands at its place. -/
theorem node (h : d.Gains p content q e) : e.node? q = some (.file content) := by
  rw [node?, h.hasDirectory, h.free, h.eq, lookup_putFile]
  rfl

/-- At every other place stands what stood there. -/
theorem node_of_ne (h : d.Gains p content q e) {r : Place} (hr : r ≠ q) :
    e.node? r = d.node? r := by
  rw [node?, node?, h.hasDirectory, h.eq, lookup_putFile_of_ne hr]

/-- The path still leads to the place. -/
theorem place_after (h : d.Gains p content q e) : e.place p = .ok q :=
  place_of_extends h.extended h.place

end Gains

end Bindery.Disk
