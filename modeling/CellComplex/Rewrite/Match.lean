import CellComplex.Rule.Basic
import CellComplex.Space.Basic

/-!
# Matching

A selection of cells matches a rule if it has the rule's points and cells in number, and at each
position a cell of the dimension and label that the pattern asks for.

* `Space.matchRule`: the matching, or the first thing that does not fit.
-/

namespace CellComplex

/-- How a selection matches a rule: which cell stands for which cell of the product side, and which
cells stand for nothing. -/
structure Matching where
  bindings : Std.TreeMap CellId CellId
  unbound : List CellId

namespace Matching

/-- Nothing matched yet. -/
def empty : Matching := ⟨∅, []⟩

/-- Takes in the cell at one position. -/
def add (m : Matching) (slot : PatternSlot) (id : CellId) : Matching :=
  match slot.bindsTo with
  | some replacement => { m with bindings := m.bindings.insert replacement id }
  | none => { m with unbound := m.unbound ++ [id] }

end Matching

/-- Why the cell at one position does not fit. -/
def PatternSlot.misfit? (slot : PatternSlot) (c : Cell) : Option Mismatch :=
  if slot.dimension ≠ c.dimension then
    some (.dimension slot.template slot.dimension c.label c.dimension)
  else if !slot.label.fits c.label then some (.label slot.label c.label)
  else none

/-- Matches position by position. -/
def matchSlots (m : Matching) : List (PatternSlot × Cell) → Except Mismatch Matching
  | [] => .ok m
  | (slot, c) :: rest =>
    match slot.misfit? c with
    | some reason => .error reason
    | none => matchSlots (m.add slot c.id) rest

namespace Rule

/-- Matches cells against a rule: all live, as many points and cells as the rule has, and every one
fitting its position. -/
def matchCells (rule : Rule) (cells : List Cell) : Except Mismatch Matching :=
  match cells.find? (·.deleted) with
  | some dead => .error (.deleted dead.id)
  | none =>
    let points := cells.countP (·.dimension == 0)
    if points ≠ rule.points then .error (.pointCount rule.points points)
    else if cells.length ≠ rule.pattern.length then
      .error (.cellCount rule.pattern.length cells.length)
    else matchSlots .empty (rule.pattern.zip cells)

end Rule

namespace Space

/-- Matches a selection against a rule. -/
def matchRule (sp : Space) (rule : Rule) (selection : List CellId) :
    Except StoreError Matching := do
  let cells ← selection.mapM sp.resolve
  (rule.matchCells cells).mapError .patternMismatch

/-- Whether a selection matches a rule. -/
def fits (sp : Space) (rule : Rule) (selection : List CellId) : Bool :=
  (sp.matchRule rule selection).isOk

end Space

end CellComplex
