import Bindery.Number.Binary64

/-!
# Values

Declaration dumps, configurations and documentation files are plain data whose shape nobody has
checked. A `Value` is such a datum as it was read: every operation that expects a certain shape
says what it does with the others. A mapping keeps its entries in the order they were first
written, and has one entry for each key.
-/

namespace Bindery

/-- A plain datum. -/
inductive Value where
  /-- The absent value. -/
  | null
  /-- A truth value. -/
  | bool (b : Bool)
  /-- A whole number of any size. -/
  | int (n : Int)
  /-- A number written with a point or an exponent. -/
  | float (x : Binary64)
  /-- A text. -/
  | text (s : String)
  /-- A list of values. -/
  | list (items : List Value)
  /-- Values under keys. -/
  | mapping (entries : List (String × Value))
  deriving Inhabited

/-- The entries of a mapping, in order of first writing. -/
abbrev Entries := List (String × Value)

namespace Value

mutual

/-- Equality of values can be decided: it is equality of shape, order and every leaf. -/
def decideEq (a b : Value) : Decidable (a = b) :=
  match a, b with
  | .null, .null => isTrue rfl
  | .bool x, .bool y => if h : x = y then isTrue (h ▸ rfl) else isFalse (by simp [h])
  | .int x, .int y => if h : x = y then isTrue (h ▸ rfl) else isFalse (by simp [h])
  | .float x, .float y => if h : x = y then isTrue (h ▸ rfl) else isFalse (by simp [h])
  | .text x, .text y => if h : x = y then isTrue (h ▸ rfl) else isFalse (by simp [h])
  | .list xs, .list ys =>
    match decideEqItems xs ys with
    | isTrue h => isTrue (h ▸ rfl)
    | isFalse h => isFalse (by simp [h])
  | .mapping xs, .mapping ys =>
    match decideEqEntries xs ys with
    | isTrue h => isTrue (h ▸ rfl)
    | isFalse h => isFalse (by simp [h])
  | .null, .bool _ | .null, .int _ | .null, .float _ | .null, .text _ | .null, .list _
  | .null, .mapping _ | .bool _, .null | .bool _, .int _ | .bool _, .float _ | .bool _, .text _
  | .bool _, .list _ | .bool _, .mapping _ | .int _, .null | .int _, .bool _ | .int _, .float _
  | .int _, .text _ | .int _, .list _ | .int _, .mapping _ | .float _, .null | .float _, .bool _
  | .float _, .int _ | .float _, .text _ | .float _, .list _ | .float _, .mapping _
  | .text _, .null | .text _, .bool _ | .text _, .int _ | .text _, .float _ | .text _, .list _
  | .text _, .mapping _ | .list _, .null | .list _, .bool _ | .list _, .int _ | .list _, .float _
  | .list _, .text _ | .list _, .mapping _ | .mapping _, .null | .mapping _, .bool _
  | .mapping _, .int _ | .mapping _, .float _ | .mapping _, .text _ | .mapping _, .list _ =>
    isFalse nofun
termination_by structural a

/-- Equality of lists of values can be decided. -/
def decideEqItems (xs ys : List Value) : Decidable (xs = ys) :=
  match xs, ys with
  | [], [] => isTrue rfl
  | [], _ :: _ | _ :: _, [] => isFalse nofun
  | x :: xs, y :: ys =>
    match decideEq x y with
    | isFalse h => isFalse (by simp [h])
    | isTrue h =>
      match decideEqItems xs ys with
      | isTrue hs => isTrue (h ▸ hs ▸ rfl)
      | isFalse hs => isFalse (by simp [hs])
termination_by structural xs

/-- Equality of entries can be decided. -/
def decideEqEntries (xs ys : List (String × Value)) : Decidable (xs = ys) :=
  match xs, ys with
  | [], [] => isTrue rfl
  | [], _ :: _ | _ :: _, [] => isFalse nofun
  | (k, x) :: xs, (l, y) :: ys =>
    if hk : k = l then
      match decideEq x y with
      | isFalse h => isFalse (by simp [h])
      | isTrue h =>
        match decideEqEntries xs ys with
        | isTrue hs => isTrue (hk ▸ h ▸ hs ▸ rfl)
        | isFalse hs => isFalse (by simp [hs])
    else isFalse (by simp [hk])
termination_by structural xs

end

instance : DecidableEq Value := decideEq

/-- Whether a value counts as given: the absent value, false, zero, and empty texts, lists and
mappings do not. -/
def isGiven : Value → Bool
  | .null => false
  | .bool b => b
  | .int n => n != 0
  | .float x => !x.isZero
  | .text s => !s.isEmpty
  | .list items => !items.isEmpty
  | .mapping entries => !entries.isEmpty

/-- The value if it is given, otherwise the default. -/
def orElse (v default : Value) : Value := if v.isGiven then v else default

/-- The text a value holds, if it is a text. -/
def text? : Value → Option String
  | .text s => some s
  | _ => none

/-- Whether the value is a text. -/
def isText (v : Value) : Bool := v.text?.isSome

/-- A value that is a text holds one. -/
theorem exists_eq_text {v : Value} (h : v.isText = true) : ∃ s, v = .text s := by
  cases v <;> first | exact ⟨_, rfl⟩ | cases h

/-- The items of a list. -/
def items? : Value → Option (List Value)
  | .list items => some items
  | _ => none

/-- The entries of a mapping. -/
def entries? : Value → Option Entries
  | .mapping entries => some entries
  | _ => none

/-- Whether the value is a mapping. -/
def isMapping (v : Value) : Bool := v.entries?.isSome

/-- The entry of a mapping under a key. -/
def get? (v : Value) (key : String) : Option Value := v.entries?.bind fun es => es.lookup key

end Value

/-- Writes an entry: an existing key keeps its place and takes the new value, a new key goes to
the end. -/
def Entries.put (key : String) (value : Value) : Entries → Entries
  | [] => [(key, value)]
  | (k, v) :: rest => if k = key then (k, value) :: rest else (k, v) :: Entries.put key value rest

/-- Reading back the key just written. -/
theorem Entries.lookup_put (key : String) (value : Value) (es : Entries) :
    (Entries.put key value es).lookup key = some value := by
  induction es with
  | nil => simp [Entries.put]
  | cons e es ih =>
    obtain ⟨k, v⟩ := e
    rw [Entries.put]
    split
    · next h => simp [h]
    · next h =>
      have h' : (key == k) = false := by simpa using fun he => h he.symm
      simpa [List.lookup_cons, h'] using ih

/-- Writing one key leaves every other key as it was. -/
theorem Entries.lookup_put_of_ne {key other : String} (h : other ≠ key) (value : Value)
    (es : Entries) : (Entries.put key value es).lookup other = es.lookup other := by
  induction es with
  | nil => simp [Entries.put, List.lookup_cons, beq_eq_false_iff_ne.mpr h]
  | cons e es ih =>
    obtain ⟨k, v⟩ := e
    rw [Entries.put]
    split
    · next hk =>
      have h' : (other == k) = false := by simpa using fun he => h (he.trans hk)
      simp [List.lookup_cons, h']
    · simp only [List.lookup_cons, ih]

end Bindery
