/-!
# Moments in a document

A plain text of the right form is a moment: a date, which a time of day and its distance from the
common time may follow. Moments are read to find out whether the calendar and the clock have them.
-/

namespace Bindery.Document

/-- A time of day. -/
structure Clock where
  /-- The hour. -/
  hour : Nat
  /-- The minute. -/
  minute : Nat
  /-- The second. -/
  second : Nat
  /-- The distance from the common time, in minutes and without its sign. -/
  distance : Nat
  deriving DecidableEq, Repr

/-- A date with or without a time of day. -/
structure Moment where
  /-- The year. -/
  year : Nat
  /-- The month. -/
  month : Nat
  /-- The day. -/
  day : Nat
  /-- Whether month and day are written with two digits each. -/
  isPadded : Bool
  /-- The time of day. -/
  clock : Option Clock
  deriving DecidableEq, Repr

namespace Moment

/-- The number that digits write. -/
def numberOf (ds : List Char) : Nat := ds.foldl (fun n d => 10 * n + (d.toNat - 48)) 0

/-- Reads digits, of which there must be a number between two bounds. -/
def digits? (least most : Nat) (cs : List Char) : Option (List Char × List Char) :=
  let ds := (cs.take most).takeWhile Char.isDigit
  if least ≤ ds.length then some (ds, cs.drop ds.length) else none

/-- What follows a character that must be there. -/
def behind? (mark : Char) : List Char → Option (List Char)
  | c :: rest => if c = mark then some rest else none
  | [] => none

/-- What follows blanks. -/
def skipBlanks (cs : List Char) : List Char := cs.dropWhile fun c => c = ' ' ∨ c = '\t'

/-- What follows the mark between a date and a time of day. -/
def timeOfDay? : List Char → Option (List Char)
  | c :: rest =>
    if c = 'T' ∨ c = 't' then some rest
    else if c = ' ' ∨ c = '\t' then some (skipBlanks rest)
    else none
  | [] => none

/-- Reads the distance from the common time that is all that remains. -/
def distance? (cs : List Char) : Option Nat :=
  match skipBlanks cs with
  | [] => if cs.isEmpty then some 0 else none
  | ['Z'] => some 0
  | sign :: rest => do
    if sign ≠ '+' ∧ sign ≠ '-' then none
    let (hours, rest) ← digits? 1 2 rest
    if rest.isEmpty then return 60 * numberOf hours
    let (minutes, rest) ← digits? 2 2 (← behind? ':' rest)
    if rest.isEmpty then return 60 * numberOf hours + numberOf minutes else none

/-- Reads the time of day that is all that remains. -/
def clock? (cs : List Char) : Option Clock := do
  let (hour, rest) ← digits? 1 2 cs
  let (minute, rest) ← digits? 2 2 (← behind? ':' rest)
  let (second, rest) ← digits? 2 2 (← behind? ':' rest)
  let rest := ((behind? '.' rest).map (·.dropWhile Char.isDigit)).getD rest
  return ⟨numberOf hour, numberOf minute, numberOf second, ← distance? rest⟩

/-- Reads a moment. -/
def ofChars? (cs : List Char) : Option Moment := do
  let (year, rest) ← digits? 4 4 cs
  let (month, rest) ← digits? 1 2 (← behind? '-' rest)
  let (day, rest) ← digits? 1 2 (← behind? '-' rest)
  let date : Moment :=
    { year := numberOf year
      month := numberOf month
      day := numberOf day
      isPadded := month.length = 2 ∧ day.length = 2
      clock := none }
  if rest.isEmpty then return date
  return { date with clock := some (← clock? (← timeOfDay? rest)) }

/-- Whether a plain text of this form is a moment: without a time of day it must be padded. -/
def isPlain (m : Moment) : Bool := m.isPadded || m.clock.isSome

/-- The number of days of a month. -/
def daysOf (year month : Nat) : Nat :=
  let isLeap := year % 4 = 0 ∧ (year % 100 ≠ 0 ∨ year % 400 = 0)
  if month = 2 then (if isLeap then 29 else 28)
  else if month = 4 ∨ month = 6 ∨ month = 9 ∨ month = 11 then 30
  else 31

/-- Whether the clock has a time of day. -/
def Clock.isReal (c : Clock) : Bool :=
  c.hour < 24 && c.minute < 60 && c.second < 60 && c.distance < 24 * 60

/-- Whether the calendar and the clock have the moment. -/
def isReal (m : Moment) : Bool :=
  1 ≤ m.year && 1 ≤ m.month && m.month ≤ 12 && 1 ≤ m.day && m.day ≤ daysOf m.year m.month &&
    m.clock.all Clock.isReal

example : (ofChars? "2000-02-29".toList).any isReal ∧
    !(ofChars? "1900-02-29".toList).any isReal := by decide

example : (ofChars? "2001-1-2 3:04:05.6 -1:30".toList).any fun m =>
    m.isPlain && m.isReal && m.clock == some ⟨3, 4, 5, 90⟩ := by decide

end Moment

end Bindery.Document
