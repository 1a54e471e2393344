import Std.Data.TreeSet

/-!
# Cell ids

A cell is compared by its name only, and the name is a pair: the store that made the cell and the
cell's place among the cells of that store. Ids of two stores therefore never meet.

* `CellId.text`: the form ids take in messages, `#store.index`.
* `instLawfulEqOrdCellId`: the order (by store, then by age) separates distinct ids, so a
  `CellSet` holds each id once and lists them in that order.
-/

namespace CellComplex

/-- Names a cell by the store that made it and its place in the order of making there. The program
keeps both numbers in 32 bits, so this is exact as long as a store has fewer than 2^32 cells. -/
structure CellId where
  store : Nat
  index : Nat
  deriving DecidableEq, Repr, Inhabited

/-- Ids are ordered by store, and within a store by age. -/
instance instOrdCellId : Ord CellId :=
  ⟨compareLex (compareOn CellId.store) (compareOn CellId.index)⟩

instance instTransOrdCellId : Std.TransOrd CellId :=
  inferInstanceAs (Std.TransCmp (compareLex (compareOn CellId.store) (compareOn CellId.index)))

instance instLawfulEqOrdCellId : Std.LawfulEqOrd CellId where
  eq_of_compare {a b} h := by
    have h' : (compareOn CellId.store a b).then (compareOn CellId.index a b) = .eq := h
    rw [Ordering.then_eq_eq] at h'
    cases a
    cases b
    simpa [compareOn, Nat.compare_eq_eq] using h'

namespace CellId

/-- The form of an id in messages. -/
def text (id : CellId) : String := s!"#{id.store}.{id.index}"

/-- The ids in ascending order, repetitions kept. -/
def sorted (ids : List CellId) : List CellId :=
  ids.mergeSort fun a b => (compare a b).isLE

end CellId

/-- A set of ids; its list is ascending. -/
abbrev CellSet := Std.TreeSet CellId

end CellComplex
