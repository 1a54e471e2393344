import CellComplex.Cell.Basic
import Std.Data.TreeMap

/-!
# Rules

A rule says what a selection of cells must look like (its pattern) and what is made of it (its
product). The cells that describe both are cells of a store; a `Rule` is what was read from them.

* `PatternSlot`: what is asked of one cell of the selection, and what the cell then stands for.
* `Template`: what is needed to make a cell of the product.
-/

namespace CellComplex

/-- What a pattern asks of the cell at one position. -/
structure PatternSlot where
  /-- The cell that describes the position. -/
  template : CellId
  dimension : Nat
  label : LabelPattern
  /-- The cell of the product side that the matched cell stands for. A matched cell that stands for
  nothing is deleted. -/
  bindsTo : Option CellId
  deriving DecidableEq, Repr

/-- The shape of a cell on the product side. -/
structure Template where
  label : String
  dimension : Nat
  boundary : List CellId
  deriving DecidableEq, Repr

/-- The shape of a cell. -/
def Template.ofCell (c : Cell) : Template := ⟨c.label, c.dimension, c.boundary⟩

/-- A rule as read from a store. -/
structure Rule where
  /-- The cell that the rule hangs on. -/
  cell : CellId
  /-- The number of points that a matching selection has. -/
  points : Nat
  pattern : List PatternSlot
  /-- The cells to make, unless a matched cell stands for them. -/
  product : List CellId
  /-- The shapes of the product cells and of everything below them. -/
  templates : Std.TreeMap CellId Template

/-- The shape of a cell on the product side. -/
def Rule.template? (rule : Rule) (id : CellId) : Option Template := rule.templates[id]?

end CellComplex
