import CellComplex.Decimal.Reader

/-!
# Dates and times of day

A moment is a date `1979-05-27`, a time of day `07:32:00`, or both with a `T` or a blank between
them; a date with a time may be followed by how far the time is from the meridian. Seconds, and
parts of a second, may be left out.

* `Date.isValid`: the month and the day exist.
* `isMoment`: whether a word is a moment.

No part of a document is read as a moment, so what a moment is does not matter beyond that it is one.
-/

namespace CellComplex.Toml

/-! ## 1. Numbers of fixed width -/

/-- The number at the start of a text, if it has exactly `width` digits, and the rest. -/
def readWidth? (width : Nat) (cs : List Char) : Option (Nat × List Char) :=
  let digits := cs.takeWhile Char.isDigit
  if digits.length = width then some (digitsValue digits, cs.dropWhile Char.isDigit) else none

/-- A number of two digits that is no larger than `last`, and the rest. -/
def readPair? (last : Nat) (cs : List Char) : Option (Nat × List Char) :=
  (readWidth? 2 cs).filter (·.1 ≤ last)

/-- What follows a character that must stand here. -/
def expect? (c : Char) : List Char → Option (List Char)
  | d :: rest => if c = d then some rest else none
  | [] => none

/-! ## 2. Dates -/

/-- A day of the calendar. -/
structure Date where
  year : Nat
  month : Nat
  day : Nat
  deriving DecidableEq, Repr

namespace Date

/-- Whether February has 29 days. -/
def isLeap (year : Nat) : Bool := year % 4 = 0 && (year % 100 ≠ 0 || year % 400 = 0)

/-- The number of days of a month. -/
def monthLength (year month : Nat) : Nat :=
  match month with
  | 2 => if isLeap year then 29 else 28
  | 4 | 6 | 9 | 11 => 30
  | _ => 31

/-- Whether the month and the day exist. -/
def isValid (d : Date) : Bool :=
  1 ≤ d.month && d.month ≤ 12 && 1 ≤ d.day && d.day ≤ monthLength d.year d.month

/-- A date, and the rest. -/
def read? (cs : List Char) : Option (Date × List Char) := do
  let (year, rest) ← readWidth? 4 cs
  let (month, rest) ← readWidth? 2 (← expect? '-' rest)
  let (day, rest) ← readWidth? 2 (← expect? '-' rest)
  let date : Date := { year, month, day }
  if date.isValid then some (date, rest) else none

end Date

/-! ## 3. Times -/

/-- What follows the parts of a second; at least one digit stands after the point. -/
def afterParts? : List Char → Option (List Char)
  | '.' :: rest =>
    if (rest.takeWhile Char.isDigit).isEmpty then none else some (rest.dropWhile Char.isDigit)
  | rest => some rest

/-- What follows the seconds of a time. The last minute of a day may have one more. -/
def afterSeconds? : List Char → Option (List Char)
  | ':' :: rest => do
    let (_, rest) ← readPair? 60 rest
    afterParts? rest
  | rest => some rest

/-- What follows hours and minutes. -/
def afterMinutes? (cs : List Char) : Option (List Char) := do
  let (_, rest) ← readPair? 23 cs
  let (_, rest) ← readPair? 59 (← expect? ':' rest)
  return rest

/-- What follows a time of day. -/
def afterTime? (cs : List Char) : Option (List Char) := do
  afterSeconds? (← afterMinutes? cs)

/-- Whether a text is empty or says how far a time is from the meridian. -/
def isOffset : List Char → Bool
  | [] => true
  | ['Z'] | ['z'] => true
  | sign :: rest => (sign = '+' || sign = '-') && afterMinutes? rest = some []

/-! ## 4. Moments -/

/-- Whether a text, which may follow a date, is empty or a time of day. -/
def isRestOfDate : List Char → Bool
  | [] => true
  | mark :: rest =>
    (mark = 'T' || mark = 't' || mark = ' ') && (afterTime? rest).any isOffset

/-- Whether a word is a date, a time of day, or both. -/
def isMoment (cs : List Char) : Bool :=
  match Date.read? cs with
  | some (_, rest) => isRestOfDate rest
  | none => afterTime? cs = some []

end CellComplex.Toml
