/-!
# Patterns

A pattern describes a text by its parts, one behind the other. Where a part can be read in several
ways they come in an order of preference, and a way that leaves nothing for the next part gives place
to the one after it. The search takes the leftmost place at which the pattern fits, and there the
way that is preferred.
-/

namespace Bindery.Text

/-- A pattern. -/
inductive Pattern where
  /-- A character. -/
  | char (c : Char)
  /-- A character of a class. -/
  | oneOf (isMember : Char → Bool)
  /-- One or more characters of a class, preferably few. -/
  | fewest (isMember : Char → Bool)
  /-- One or more characters of a class, preferably many. -/
  | most (isMember : Char → Bool)
  /-- A part that is preferred but can be missing. -/
  | optional (part : Pattern)
  /-- A part whose text is remembered. -/
  | remembered (part : Pattern)
  /-- The end of the text, or the line end before it. -/
  | atEnd
  /-- A part and what is behind it. -/
  | followedBy (first next : Pattern)

namespace Pattern

/-- A way in which a pattern fits the beginning of a text. -/
structure Way where
  /-- What begins with the text that is remembered, and what is behind that text. -/
  span? : Option (List Char × List Char) := none
  /-- What is behind the pattern. -/
  rest : List Char
  deriving DecidableEq, Repr

/-- The text that is remembered, if any is. -/
def Way.remembered? (way : Way) : Option (List Char) :=
  way.span?.map fun span => span.1.take (span.1.length - span.2.length)

/-- What is left behind one or more characters of a class, the fewest first. -/
def restsOf (isMember : Char → Bool) : List Char → List (List Char)
  | [] => []
  | c :: cs => if isMember c then cs :: restsOf isMember cs else []

/-- The ways in which a pattern fits the beginning of a text, the preferred ones first. -/
def ways : Pattern → List Char → List Way
  | char wanted, cs =>
    match cs with
    | [] => []
    | c :: rest => if c = wanted then [{ rest }] else []
  | oneOf isMember, cs =>
    match cs with
    | [] => []
    | c :: rest => if isMember c then [{ rest }] else []
  | fewest isMember, cs => (restsOf isMember cs).map fun rest => { rest }
  | most isMember, cs => (restsOf isMember cs).reverse.map fun rest => { rest }
  | optional part, cs => part.ways cs ++ [{ rest := cs }]
  | remembered part, cs => (part.ways cs).map fun way =>
    { way with span? := some (cs, way.rest) }
  | atEnd, cs => if cs = [] ∨ cs = ['\n'] then [{ rest := cs }] else []
  | followedBy first next, cs => (first.ways cs).flatMap fun way =>
    (next.ways way.rest).map fun later => { later with span? := later.span? <|> way.span? }

/-- Two parts fit if the first leaves something that the second fits. -/
theorem ways_followedBy_ne_nil {first next : Pattern} {cs : List Char} :
    (first.followedBy next).ways cs ≠ [] ↔
      ∃ way ∈ first.ways cs, next.ways way.rest ≠ [] := by
  simp [ways]

/-- The preferred way at the leftmost place at which the pattern fits. -/
def search? (p : Pattern) : List Char → Option Way
  | [] => (p.ways []).head?
  | c :: cs =>
    match (p.ways (c :: cs)).head? with
    | some way => some way
    | none => search? p cs

example : (((char 'a').followedBy (remembered (fewest (· == 'b')))).followedBy
    (optional (char 'b'))).search? "xabbb".toList = some ⟨some ("bbb".toList, ['b', 'b']), ['b']⟩ := by
  decide

end Pattern

end Bindery.Text
