import CellComplex.Toml.Document

/-!
# Reading values of a document

What a document means to its reader: texts, numbers, lists and records, each from one value.

* `Value.integer?`, `Value.float?`: what a number is worth. An integer also counts as a float.
* `Value.record?`: a record is a table with known keys only, or the list of its values in order.
-/

namespace CellComplex.Toml

/-! ## 1. Single values -/

namespace Value

/-- A text. -/
def text? : Value → Option String
  | text s => some s
  | _ => none

/-- A boolean. -/
def boolean? : Value → Option Bool
  | boolean b => some b
  | _ => none

/-- The digit that a character is in a radix of at most sixteen. -/
def radixDigit? (radix : Nat) (c : Char) : Option Nat :=
  (hexValue? c).filter (· < radix)

/-- The number that digits write in a radix. -/
def readDigits? (radix : Nat) (cs : List Char) : Option Nat := do
  let digits ← cs.mapM (radixDigit? radix)
  if digits.isEmpty then none else some (digits.foldl (fun n d => radix * n + d) 0)

/-- An integer, if its digits are digits of its radix. -/
def integer? : Value → Option Int
  | integer radix written =>
    let (negative, digits) := splitSign written
    (readDigits? radix digits).map fun n => if negative then -(n : Int) else n
  | _ => none

/-- The float nearest to an integer of at most 64 bits. -/
def integerFloat? (n : Int) : Option Float :=
  if -(twoTo 63 : Int) ≤ n && n < twoTo 64 then some (Numeral.toFloat ⟨n < 0, n.natAbs, 0⟩) else none

/-- A natural number below `bound`. -/
def natural? (bound : Nat) (v : Value) : Option Nat := do
  let n ← v.integer?
  if 0 ≤ n && n < bound then some n.toNat else none

/-- Whether a float is written as a word and not with digits. -/
def isWordFloat (written : List Char) : Bool := written.contains 'n'

/-- A float, or an integer as one. Digits that are too large for a float are none. -/
def float? : Value → Option Float
  | float written =>
    (readFloat? (String.ofList written)).filter fun x => isWordFloat written || x.isFinite
  | v => v.integer?.bind integerFloat?

/-- The items of an array; those of an array of tables too. -/
def items? : Value → Option (List Value)
  | array items => some items
  | tables elements => some (elements.reverse.map (table .header))
  | _ => none

/-- A list of values of one kind. -/
def list? {α : Type} (read : Value → Option α) (v : Value) : Option (List α) := do
  (← v.items?).mapM read

/-- Whether a value is an array or a table without anything in it. -/
def isEmpty : Value → Bool
  | array [] => true
  | table _ [] => true
  | _ => false

/-- A record with given keys: a table that has no others, or an array of the values of the keys in
order, of which the last ones may be missing. -/
def record? (keys : List String) : Value → Option Entries
  | table _ entries => if entries.all fun e => keys.contains e.1 then some entries else none
  | v => v.items?.map keys.zip

end Value

/-! ## 2. Entries of records -/

namespace Entries

/-- The value of a key that must be there. -/
def required {α : Type} (entries : Entries) (key : String) (read : Value → Option α) : Option α :=
  (entries.lookup key).bind read

/-- The value of a key that may be missing; one that is there must be readable. -/
def optional {α : Type} (entries : Entries) (key : String) (read : Value → Option α)
    (missing : α) : Option α :=
  match entries.lookup key with
  | some v => read v
  | none => some missing

end Entries

end CellComplex.Toml
