import CellComplex.Space.Basic

/-!
# Asking for evidence

The evidence for "x label y" is the payload of the live edge with that label from `x` to `y`.
Several such edges are duplicates, and the question is then ambiguous.

* `Space.candidates`: the edges that answer, found through the coface index.
* `Space.query`: the one answer, or the prior if there is none.
-/

namespace CellComplex

namespace Space

/-- The live edges with a label from `x` to `y`, in the order of their ids. -/
def candidates (sp : Space) (label : String) (x y : CellId) : List CellId :=
  (sp.cofacesOf x).toList.filter fun id =>
    sp.satisfies id fun c => c.isEdge && c.label == label && c.boundary == [x, y]

/-- The evidence for "x label y". -/
def query (sp : Space) (label : String) (x y : CellId) : Except StoreError Embedding := do
  let _ ← sp.resolve x
  let _ ← sp.resolve y
  match sp.candidates label x y with
  | [] => return Embedding.ofTruth .prior
  | [only] => return (← sp.resolve only).embedding
  | first :: second :: _ => throw (.ambiguous label first second)

end Space

end CellComplex
