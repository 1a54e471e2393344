import CellComplex.Store.Basic

/-!
# Spaces

A space is a store that is written, over any number of stores that are only read. Reading sees the
cells of all of them; every new cell goes to the store on top, and its boundary may list cells of
the stores below. A store alone is a space with nothing below.

* `Space.find?`: the cell of an id, from whichever store made it.
* `Space.layer`: the cells of a dimension, those of the lowest store first.
* `Space.findLink?`: the oldest live edge with a label over two points.
-/

namespace CellComplex

/-- The store that is written, over stores that are only read, nearest first. -/
structure Space where
  top : Store
  below : List Store

namespace Space

/-- A store with nothing below. -/
def ofStore (s : Store) : Space := ⟨s, []⟩

/-- The stores of a space from the top down. -/
def stores (sp : Space) : List Store := sp.top :: sp.below

/-! ## 1. Cells -/

/-- The cells of some stores as a lookup. -/
def lookupIn : List Store → Lookup
  | [] => .empty
  | s :: rest => s.lookup.orElse (lookupIn rest)

/-- The space as a lookup. -/
def lookup (sp : Space) : Lookup := lookupIn sp.stores

/-- The cell of an id. -/
def find? (sp : Space) (id : CellId) : Option Cell := sp.lookup.find id

/-- The cell of an id, or the failure that names the id. -/
def resolve (sp : Space) (id : CellId) : Except StoreError Cell := sp.lookup.resolve id

/-- Whether the space sees a cell. -/
def contains (sp : Space) (id : CellId) : Bool := (sp.find? id).isSome

/-- Whether a cell is in sight and passes a test. -/
def satisfies (sp : Space) (id : CellId) (test : Cell → Bool) : Bool := (sp.find? id).any test

/-! ## 2. Layers and labels -/

/-- The cells of a dimension, those of the lowest store first. -/
def layer (sp : Space) (dimension : Nat) : List CellId :=
  sp.stores.reverse.flatMap (·.layer dimension)

/-- The number of layers. -/
def layerCount (sp : Space) : Nat :=
  sp.below.foldl (fun n s => max n s.layerCount) sp.top.layerCount

/-- The first live cell with a label, the lowest dimension first. -/
def byLabel (sp : Space) (label : String) : Except StoreError CellId :=
  let found := (List.range sp.layerCount).findSome? fun dimension =>
    (sp.layer dimension).find? fun id => sp.satisfies id fun c => c.isLive && c.label == label
  match found with
  | some id => .ok id
  | none => .error (.labelNotFound label)

/-! ## 3. Relations between cells -/

/-- What the stores of a space know of a cell, together. -/
def gather (sp : Space) (known : Store → CellSet) : CellSet :=
  sp.below.foldl (fun found s => found ∪ known s) (known sp.top)

theorem mem_gather {sp : Space} {known : Store → CellSet} {id : CellId} :
    id ∈ sp.gather known ↔ ∃ s ∈ sp.stores, id ∈ known s := by
  have fold (rest : List Store) (found : CellSet) :
      id ∈ rest.foldl (fun found s => found ∪ known s) found ↔
        id ∈ found ∨ ∃ s ∈ rest, id ∈ known s := by
    induction rest generalizing found with
    | nil => simp
    | cons s rest ih =>
      rw [List.foldl_cons, ih, Std.TreeSet.mem_union_iff]
      simp [or_assoc]
  simp [gather, stores, fold]

/-- The atoms of an expansion. -/
def atomsOf (sp : Space) (expansion : CellId) : CellSet := sp.gather (·.atomsOf expansion)

/-- The expansions of an atom. -/
def expansionsOf (sp : Space) (atom : CellId) : CellSet := sp.gather (·.expansionsOf atom)

/-- The cofaces of a cell, as each store last indexed them. -/
def cofacesOf (sp : Space) (cell : CellId) : CellSet := sp.gather (·.cofacesOf cell)

/-- Whether any store's index is stale. -/
def isStale (sp : Space) : Bool := sp.stores.any (·.isStale)

/-- The only member of a set of related cells. -/
def single (cell : CellId) (relation : AtomRelation) (related : CellSet) :
    Except StoreError CellId :=
  match related.toList with
  | [only] => .ok only
  | ids => .error (.cardinality cell relation ids.length)

/-- The one atom of an expansion. -/
def atomOf (sp : Space) (expansion : CellId) : Except StoreError CellId :=
  single expansion .atom (sp.atomsOf expansion)

/-- The one expansion of an atom. -/
def expansionOf (sp : Space) (atom : CellId) : Except StoreError CellId :=
  single atom .expansion (sp.expansionsOf atom)

/-! ## 4. Edges -/

/-- Whether an edge runs from `a` to `b`, or the other way where orientation does not count. -/
def joins (c : Cell) (a b : CellId) (oriented : Bool) : Bool :=
  c.boundary == [a, b] || (!oriented && c.boundary == [b, a])

/-- The first live edge with a label over two points. -/
def findLink? (sp : Space) (a b : CellId) (label : String) (oriented : Bool) : Option CellId :=
  (sp.layer 1).find? fun id =>
    sp.satisfies id fun c => c.isEdge && c.label == label && joins c a b oriented

/-! ## 5. Conditions on cells -/

/-- Fails unless a cell is a point. -/
def requirePoint (c : Cell) : Except StoreError Unit :=
  if c.dimension = 0 then .ok () else .error (.dimensionMismatch c.id .point c.dimension)

/-- Fails unless a cell has a boundary and the cell that is to name it is a point. -/
def requireNameable (expansion atom : Cell) : Except StoreError Unit :=
  if expansion.dimension = 0 then .error (.dimensionMismatch expansion.id .compound 0)
  else requirePoint atom

/-- Fails unless the store on top made the cell. -/
def requireOwned (sp : Space) (id : CellId) : Except StoreError Unit :=
  if sp.top.owns id then .ok ()
  else if sp.contains id then .error (.shadowingUnsupported .cell id)
  else .error (.cellNotFound id)

end Space

end CellComplex
