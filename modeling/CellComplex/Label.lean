import CellComplex.Text.Quoted

/-!
# Labels

A label is any text. Seven of them are reserved words of stored rules, and one text is put before
the label of a deleted cell when it is shown.

* `LabelPattern`: what a pattern asks of a label, either one label or any.
-/

namespace CellComplex

/-! ## 1. Reserved words -/

namespace Label

/-- In a pattern: any label. -/
def wildcard : String := "Any"

/-- The edge from a rule to a point of its pattern. -/
def patternScaffold : String := "pattern_scaffold"

/-- The listing of a rule's pattern. -/
def pattern : String := "pattern"

/-- The edge from a rule to a point of its product. -/
def productScaffold : String := "product_scaffold"

/-- The listing of a rule's product. -/
def product : String := "product"

/-- The cell that ties a pattern cell to the cell it stands for. -/
def bind : String := "bind"

/-- A cell that is never what a bind points to. -/
def nobind : String := "nobind"

/-- Shown before the label of a deleted cell. -/
def deletedMark : String := "[DELETED] "

/-- The label of links and evidence that name none. -/
def defaultLink : String := "is"

end Label

/-! ## 2. Patterns of labels -/

/-- What a pattern asks of a label. -/
inductive LabelPattern where
  | exact (label : String)
  | any
  deriving DecidableEq, Repr

namespace LabelPattern

/-- Reads a stored label as a pattern. -/
def ofLabel (label : String) : LabelPattern :=
  if label = Label.wildcard then .any else .exact label

/-- Whether a label fits. -/
def fits : LabelPattern → String → Bool
  | .any, _ => true
  | .exact wanted, label => wanted == label

/-- The pattern as messages show it. -/
def text : LabelPattern → String
  | .any => "Any"
  | .exact label => "Exact(" ++ quoted label ++ ")"

end LabelPattern

end CellComplex
