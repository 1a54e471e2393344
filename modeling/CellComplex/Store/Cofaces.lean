import CellComplex.Cell.Lookup

/-!
# The coface index

The cofaces of a cell are the live cells that list it in their boundary. Finding them by a scan is
slow, so they are kept in an index, built in one pass and never patched: a change to the store
makes the index stale until it is built again.

* `CofaceIndex.build`: the index of some owners. Deleted owners and deleted faces are left out.
* `CofaceIndex.isStale`: whether the store has changed since, told by the store's generation.
-/

namespace CellComplex

/-- The cofaces of every cell, and the generation of the store when they were found. -/
structure CofaceIndex where
  cofaces : Std.TreeMap CellId CellSet
  builtAt : Option Nat

namespace CofaceIndex

/-- An index that was never built. -/
def empty : CofaceIndex := ⟨∅, none⟩

/-- Enters an owner under one face. -/
def enter (cofaces : Std.TreeMap CellId CellSet) (face owner : CellId) :
    Std.TreeMap CellId CellSet :=
  cofaces.insert face ((cofaces.getD face ∅).insert owner)

/-- Enters an owner under the live faces of its boundary; points and deleted cells own nothing. -/
def enterOwner (look : Lookup) (cofaces : Std.TreeMap CellId CellSet) (owner : Cell) :
    Std.TreeMap CellId CellSet :=
  if owner.dimension = 0 || owner.deleted then cofaces
  else
    owner.boundary.foldl
      (fun cofaces face =>
        if (look.find face).any Cell.isLive then enter cofaces face owner.id else cofaces)
      cofaces

/-- The index of some owners; `look` finds the cells of their boundaries. -/
def build (look : Lookup) (owners : List Cell) (generation : Nat) : CofaceIndex :=
  ⟨owners.foldl (enterOwner look) ∅, some generation⟩

/-- The cofaces of a cell when the index was built. -/
def cofacesOf (index : CofaceIndex) (cell : CellId) : CellSet := index.cofaces.getD cell ∅

/-- Whether the index was built at another generation, or never. -/
def isStale (index : CofaceIndex) (generation : Nat) : Bool :=
  index.builtAt != some generation

/-- The number of pairs of a face and a coface. -/
def entryCount (index : CofaceIndex) : Nat :=
  index.cofaces.foldl (fun n _ owners => n + owners.size) 0

end CofaceIndex

end CellComplex
