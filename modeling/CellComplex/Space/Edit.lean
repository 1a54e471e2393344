import CellComplex.Cell.Boundary
import CellComplex.Space.Basic

/-!
# Changing a space

An `Edit` is a change of a space that yields a value or fails, and leaves a space behind either
way. Only the store on top changes.

* `create`, `createListing`, `link`: new cells. A failing law makes no cell.
* `linkAtom`: a point becomes the atomic name of a cell.
* `delete`, `setLabel`, `setEmbedding`: changes of cells that the store on top made; cells of the
  stores below are read only.
* `buildIndex`: makes the coface index of the store on top fresh.
-/

namespace CellComplex

/-- A change of a space: it yields a value or fails, and leaves a space behind either way. -/
abbrev Edit (α : Type) := ExceptT StoreError (StateM Space) α

namespace Edit

/-- Runs an edit. -/
def apply {α : Type} (edit : Edit α) (sp : Space) : Except StoreError α × Space :=
  StateT.run (ExceptT.run edit) sp

/-- Runs an edit on a store with nothing below. -/
def applyTo {α : Type} (edit : Edit α) (s : Store) : Except StoreError α × Store :=
  let r := edit.apply (.ofStore s)
  (r.1, r.2.top)

/-- An edit that looks at the space and decides: either it fails and changes nothing, or it yields
a value and puts a new store on top. -/
def decide {α : Type} (choose : Space → Except StoreError (α × (Store → Store))) : Edit α :=
  fun sp =>
    match choose sp with
    | .error e => (.error e, sp)
    | .ok (a, change) => (.ok a, { sp with top := change sp.top })

/-- An edit that only looks. -/
def look {α : Type} (read : Space → Except StoreError α) : Edit α :=
  decide fun sp => (read sp).map fun a => (a, id)

/-- An edit that always succeeds. -/
def change (f : Space → Store → Store) : Edit Unit :=
  decide fun sp => .ok ((), f sp)

end Edit

namespace Space

/-! ## 1. New cells -/

/-- Adds a cell that was made for the next place of the store on top. -/
def insert (c : Cell) : Edit CellId :=
  Edit.decide fun sp =>
    if c.id = sp.top.nextId 0 then .ok (c.id, (·.push c))
    else .error (.unsupported .outOfOrderInsertion)

/-- Makes a cell, held to the laws of `check`. -/
def createChecked (label : String) (boundary : List CellId) (check : BoundaryCheck) :
    Edit CellId := do
  let c ← Edit.look fun sp => Cell.make sp.lookup (sp.top.nextId 0) label boundary check
  insert c

/-- Makes a point (no boundary) or a cell with a lawful boundary. -/
def create (label : String) (boundary : List CellId) : Edit CellId :=
  createChecked label boundary .full

/-- Makes a listing: its boundary keeps an order and need not be minimal. -/
def createListing (label : String) (boundary : List CellId) : Edit CellId :=
  createChecked label boundary .connectivity

/-- The edge with a label over two points: the one that is there, or a new one. -/
def link (a b : CellId) (label : String) (oriented : Bool) : Edit CellId := do
  let found ← Edit.look fun sp => do
    requirePoint (← sp.resolve a)
    requirePoint (← sp.resolve b)
    return sp.findLink? a b label oriented
  match found with
  | some edge => return edge
  | none => create label [a, b]

/-! ## 2. Atom links -/

/-- Makes a point the atomic name of a cell with a boundary. -/
def linkAtom (expansion atom : CellId) : Edit Unit :=
  Edit.decide fun sp => do
    requireNameable (← sp.resolve expansion) (← sp.resolve atom)
    if (sp.atomsOf expansion).contains atom then
      throw (.duplicateAtomLink expansion atom)
    return ((), (·.linkAtom expansion atom))

/-- Atom links are never taken back: a link of a store below cannot be shadowed, and a store does
not delete its own. -/
def unlinkAtom (expansion atom : CellId) : Edit Unit :=
  Edit.look fun sp =>
    if (sp.below.any fun s => (s.atomsOf expansion).contains atom) then
      .error (.shadowingUnsupported .atomLink expansion)
    else .error (.unsupported .atomLinkDeletion)

/-! ## 3. Changing cells -/

/-- Fails exactly when `delete` would. -/
def requireDeletable (id : CellId) : Edit Unit := Edit.look fun sp => sp.requireOwned id

/-- Marks a cell as deleted. Deleting it again changes nothing. -/
def delete (id : CellId) : Edit Unit :=
  Edit.decide fun sp => do
    sp.requireOwned id
    if (sp.top.find? id).any Cell.isLive then return ((), (·.deleteAt id.index))
    else return ((), fun s => s)

/-- Changes a cell that the store on top made. -/
def modifyCell (id : CellId) (f : Cell → Cell) : Edit Unit :=
  Edit.decide fun sp => do
    sp.requireOwned id
    return ((), (·.modifyAt id.index f))

/-- Gives a cell another label. -/
def setLabel (id : CellId) (label : String) : Edit Unit :=
  modifyCell id ({ · with label })

/-- Gives a cell another payload. -/
def setEmbedding (id : CellId) (embedding : Embedding) : Edit Unit :=
  modifyCell id ({ · with embedding })

/-- Attaches the key of a handler to a cell of the store on top, or takes it off. -/
def attach (id : CellId) (handler : Option String) : Edit Unit :=
  Edit.decide fun sp =>
    if sp.top.owns id then .ok ((), (·.modifyAt id.index ({ · with handler })))
    else .error (.cellNotFound id)

/-! ## 4. The index -/

/-- Builds the coface index of the store on top from the live cells. -/
def buildIndex : Edit Unit :=
  Edit.change fun sp s => s.buildIndex sp.lookup

end Space

end CellComplex
