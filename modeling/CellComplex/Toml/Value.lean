/-!
# TOML values and tables

A table is a list of keys and values in which every key stands once. A table also remembers how it
came to be, since that decides who may still add to it.

* `insertAt`: a value under a dotted key. It may not replace anything.
* `define`, `extend`: a table, or one more element of an array of tables, opened by a header.
-/

namespace CellComplex.Toml

/-- How a table came to be. -/
inductive Origin where
  /-- It was only named on the way to another table. -/
  | implied
  /-- A header opened it. -/
  | header
  /-- A dotted key made it. -/
  | dotted
  /-- It was written in braces and is complete. -/
  | inline
  deriving DecidableEq, Repr

/-- A value of a document. -/
inductive Value where
  | text (s : String)
  /-- An integer as it is written: its radix, and its digits with a sign if there is one. -/
  | integer (radix : Nat) (digits : List Char)
  /-- A float as it is written. -/
  | float (written : List Char)
  | boolean (b : Bool)
  /-- A date, a time of day or both. -/
  | moment
  | array (items : List Value)
  /-- An array of tables that headers opened, latest first. -/
  | tables (elements : List (List (String × Value)))
  | table (origin : Origin) (entries : List (String × Value))

/-- The keys and values of a table. -/
abbrev Entries := List (String × Value)

/-! ## 1. One key -/

/-- Changes what stands under a key, which may be nothing yet. -/
def alter (key : String) (f : Option Value → Option Value) : Entries → Option Entries
  | [] => (f none).map fun v => [(key, v)]
  | (k, v) :: rest =>
    if k = key then (f (some v)).map fun v => (k, v) :: rest
    else (alter key f rest).map ((k, v) :: ·)

/-- Puts a value where there is none. -/
def fresh (v : Value) : Option Value → Option Value
  | none => some v
  | some _ => none

/-! ## 2. Paths -/

/-- Puts a value under a dotted key. Tables on the way are made; those that a header opened or that
were written in braces are not added to. -/
def insertAt (v : Value) : List String → Entries → Option Entries
  | [], _ => none
  | [key], entries => alter key (fresh v) entries
  | key :: path, entries =>
    alter key
      (fun
        | none => (insertAt v path []).map (.table .dotted)
        | some (.table .dotted inner) => (insertAt v path inner).map (.table .dotted)
        | some (.table .implied inner) => (insertAt v path inner).map (.table .implied)
        | some _ => none)
      entries

/-- Changes the table at the end of a path. Of an array of tables the latest element is meant. -/
def changeAt (f : Entries → Option Entries) : List String → Entries → Option Entries
  | [], entries => f entries
  | key :: path, entries =>
    alter key
      (fun
        | none => (changeAt f path []).map (.table .implied)
        | some (.table .inline _) => none
        | some (.table origin inner) => (changeAt f path inner).map (.table origin)
        | some (.tables (last :: before)) =>
          (changeAt f path last).map fun last => .tables (last :: before)
        | some _ => none)
      entries

/-! ## 3. Headers -/

/-- Opens a table. A table that was only implied so far can be opened once. -/
def define (key : String) : Entries → Option Entries :=
  alter key fun
    | none => some (.table .header [])
    | some (.table .implied inner) => some (.table .header inner)
    | some _ => none

/-- Opens one more element of an array of tables. -/
def extend (key : String) : Entries → Option Entries :=
  alter key fun
    | none => some (.tables [[]])
    | some (.tables elements) => some (.tables ([] :: elements))
    | some _ => none

/-- Opens something at the end of a path. -/
def openAt (opener : String → Entries → Option Entries) (path : List String)
    (entries : Entries) : Option Entries := do
  let key ← path.getLast?
  changeAt (opener key) path.dropLast entries

end CellComplex.Toml
