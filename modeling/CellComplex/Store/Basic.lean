import CellComplex.Store.Cofaces

/-!
# Stores

A store owns the cells it made, in the order of making, and nothing it ever held is removed: a
deleted cell stays and is marked. Beside the cells it keeps what would be slow to find: the layers
(the cells of each dimension), both directions of the atom links, and the coface index.

* `Store.push`: a new cell enters the cells and its layer.
* `Store.find?`: the cell of an id, known only to the store that made it.
* `Store.generation`: counts the changes that matter to the coface index, that is cells made and
  cells deleted.
-/

namespace CellComplex

/-- The cells that one store made. The program keeps ids in 32 bits and the generation in 64, so
this is exact as long as a store has fewer than 2^32 cells. -/
structure Store where
  id : Nat
  /-- The cell at place `i` has the index `i`. -/
  cells : Array Cell
  /-- Layer `d` holds the cells of dimension `d`, oldest first. -/
  layers : Array (Array CellId)
  /-- The atoms of each expansion. -/
  atoms : Std.TreeMap CellId CellSet
  /-- The expansions of each atom. -/
  expansions : Std.TreeMap CellId CellSet
  index : CofaceIndex
  generation : Nat

namespace Store

/-- A store without cells. -/
def empty (id : Nat) : Store :=
  { id, cells := #[], layers := #[], atoms := ∅, expansions := ∅, index := .empty,
    generation := 0 }

instance : Inhabited Store := ⟨empty 0⟩

/-! ## 1. Reading -/

/-- The cell of an id. -/
def find? (s : Store) (id : CellId) : Option Cell :=
  if id.store = s.id then s.cells[id.index]? else none

/-- Whether this store made the cell. -/
def owns (s : Store) (id : CellId) : Bool := (s.find? id).isSome

/-- The store as a lookup. -/
def lookup (s : Store) : Lookup where
  find := s.find?
  finite := by
    refine ⟨(List.range s.cells.size).map fun i => ⟨s.id, i⟩, fun id c h => ?_⟩
    unfold find? at h
    split at h
    · next hs =>
      obtain ⟨hlt, _⟩ := Array.getElem?_eq_some_iff.mp h
      exact List.mem_map.mpr ⟨id.index, List.mem_range.mpr hlt, by rw [← hs]⟩
    · cases h

/-- The number of cells, deleted ones among them. -/
def size (s : Store) : Nat := s.cells.size

/-- The number of cells that are not deleted. -/
def liveCount (s : Store) : Nat := s.cells.countP Cell.isLive

/-- The cells of a dimension, oldest first. -/
def layer (s : Store) (dimension : Nat) : List CellId :=
  ((s.layers[dimension]?).getD #[]).toList

/-- The number of layers. -/
def layerCount (s : Store) : Nat := s.layers.size

/-- The atoms of an expansion. -/
def atomsOf (s : Store) (expansion : CellId) : CellSet := s.atoms.getD expansion ∅

/-- The expansions of an atom. -/
def expansionsOf (s : Store) (atom : CellId) : CellSet := s.expansions.getD atom ∅

/-- The number of atom links. -/
def atomLinkCount (s : Store) : Nat := s.atoms.foldl (fun n _ atoms => n + atoms.size) 0

/-- The cofaces of a cell when the index was last built. -/
def cofacesOf (s : Store) (cell : CellId) : CellSet := s.index.cofacesOf cell

/-- Whether a cell was made or deleted since the index was last built. -/
def isStale (s : Store) : Bool := s.index.isStale s.generation

/-- The id of the cell made after `offset` more. -/
def nextId (s : Store) (offset : Nat) : CellId := ⟨s.id, s.cells.size + offset⟩

/-! ## 2. Changing -/

/-- Layers enough for a dimension. -/
def growLayers (layers : Array (Array CellId)) (dimension : Nat) : Array (Array CellId) :=
  layers ++ Array.replicate (dimension + 1 - layers.size) #[]

/-- Adds a cell that was made for the next place. -/
def push (s : Store) (c : Cell) : Store :=
  { s with
    cells := s.cells.push c
    layers := (growLayers s.layers c.dimension).modify c.dimension (·.push c.id)
    generation := s.generation + 1 }

/-- Changes the cell at a place. -/
def modifyAt (s : Store) (index : Nat) (f : Cell → Cell) : Store :=
  { s with cells := s.cells.modify index f }

/-- Marks the cell at a place as deleted, which is a change that matters to the index. -/
def deleteAt (s : Store) (index : Nat) : Store :=
  { s.modifyAt index ({ · with deleted := true }) with generation := s.generation + 1 }

/-- Records that `atom` names `expansion`. -/
def linkAtom (s : Store) (expansion atom : CellId) : Store :=
  { s with
    atoms := s.atoms.insert expansion ((s.atomsOf expansion).insert atom)
    expansions := s.expansions.insert atom ((s.expansionsOf atom).insert expansion) }

/-- Builds the coface index of the store's own cells; `look` may see cells of other stores. -/
def buildIndex (s : Store) (look : Lookup) : Store :=
  { s with index := .build look s.cells.toList s.generation }

end Store

end CellComplex
