import CellComplex.Cell.Id
import CellComplex.Evidence.Truth
import CellComplex.Label

/-!
# Cells

A point has dimension zero and no boundary. Any other cell is made of an ordered boundary of
cells, and its dimension is one more than the largest in its boundary. A cell keeps its closure, the
set of the points below it.

* `Cell.isEdge`: a live cell of dimension one with two ends, the only kind of cell inference follows.
* `Embedding.truth?`: the payload of an edge read as a truth value.
-/

namespace CellComplex

/-! ## 1. Payloads -/

/-- The numbers that a cell carries. The store gives them no meaning. -/
abbrev Embedding := List Float

namespace Embedding

/-- A truth value as a payload. -/
def ofTruth (t : Truth Float) : Embedding := [t.frequency, t.confidence]

/-- A payload as a truth value: exactly two numbers. -/
def truth? : Embedding → Option (Truth Float)
  | [f, c] => some ⟨f, c⟩
  | _ => none

@[simp] theorem truth?_ofTruth (t : Truth Float) : truth? (ofTruth t) = some t := rfl

theorem truth?_eq_some {e : Embedding} {t : Truth Float} : truth? e = some t ↔ e = ofTruth t := by
  refine ⟨fun h => ?_, fun h => h ▸ truth?_ofTruth t⟩
  unfold truth? at h
  split at h
  · cases h
    rfl
  · cases h

end Embedding

/-! ## 2. Cells -/

/-- The number of ends of an edge. -/
def edgeEnds : Nat := 2

/-- A point, or a cell made of the cells of its boundary. -/
structure Cell where
  id : CellId
  dimension : Nat
  label : String
  boundary : List CellId
  /-- The points below the cell; a point lies below itself. -/
  closure : CellSet
  deleted : Bool
  embedding : Embedding
  /-- The key of the handler that evaluates the cell. -/
  handler : Option String

namespace Cell

/-- A new point. -/
def point (id : CellId) (label : String) : Cell :=
  { id, label, dimension := 0, boundary := [], closure := (∅ : CellSet).insert id,
    deleted := false, embedding := [], handler := none }

/-- Whether the cell still counts. -/
def isLive (c : Cell) : Bool := !c.deleted

/-- Whether the cell is a live cell of dimension one with two ends. -/
def isEdge (c : Cell) : Bool :=
  c.dimension == 1 && c.boundary.length == edgeEnds && !c.deleted

/-- The label as users see it. -/
def shownLabel (c : Cell) : String :=
  if c.deleted then Label.deletedMark ++ c.label else c.label

end Cell

end CellComplex
