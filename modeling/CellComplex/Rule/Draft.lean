import CellComplex.Rule.Basic
import CellComplex.Space.Edit

/-!
# Writing a rule

A rule is written clause by clause. Each clause makes one cell at once; the scaffolds and listings
that tie the cells together come last.

* `Clause`: what can be said of a rule.
* `RuleDraft.add`, `RuleDraft.finish`: says it, and ends the rule.
* `transitiveRule`: the rule "A label B, B label C, hence A label C".
-/

namespace CellComplex

/-- What can be said of a rule that is being written. -/
inductive Clause where
  /-- A point of the pattern. -/
  | patternPoint (label : String)
  /-- A cell of the pattern. -/
  | patternCell (label : String) (boundary : List CellId)
  /-- A point of the product side that some matched point stands for. -/
  | replacementPoint (label : String)
  /-- A cell of the product side that some matched cell stands for. -/
  | replacement (label : String) (boundary : List CellId)
  /-- A point that the rule makes. -/
  | producePoint (label : String)
  /-- A cell that the rule makes. -/
  | produce (label : String) (boundary : List CellId)
  /-- What matches `pattern` is kept and stands for `replacement`. -/
  | bind (pattern replacement : CellId)
  deriving DecidableEq, Repr

/-- A rule that is being written. -/
structure RuleDraft where
  rule : CellId
  patternPoints : List CellId
  pattern : List CellId
  productPoints : List CellId
  product : List CellId
  /-- The bind of each pattern cell that has one. -/
  binds : Std.TreeMap CellId CellId

namespace RuleDraft

/-- Starts a rule by making its cell. -/
def start (name : String) : Edit RuleDraft := do
  let rule ← Space.create name []
  return { rule, patternPoints := [], pattern := [], productPoints := [], product := [],
           binds := ∅ }

/-- Adds an id to the end of a list unless it is there. -/
def appendNew (ids : List CellId) (id : CellId) : List CellId :=
  if ids.contains id then ids else ids ++ [id]

/-- The boundary of a bind: the two cells, then the binds of the pattern cell's own boundary. -/
def bindBoundary (draft : RuleDraft) (pattern replacement : CellId) (faces : List CellId) :
    List CellId :=
  (faces.filterMap (draft.binds[·]?)).foldl appendNew [pattern, replacement]

/-- Adds a clause: makes its cell and remembers what the cell is for. -/
def add (draft : RuleDraft) : Clause → Edit (CellId × RuleDraft)
  | .patternPoint label => do
    let id ← Space.create label []
    return (id, { draft with
      patternPoints := draft.patternPoints ++ [id], pattern := draft.pattern ++ [id] })
  | .patternCell label boundary => do
    let id ← Space.create label boundary
    return (id, { draft with pattern := draft.pattern ++ [id] })
  | .replacementPoint label => do
    let id ← Space.create label []
    return (id, { draft with productPoints := draft.productPoints ++ [id] })
  | .replacement label boundary => do
    let id ← Space.create label boundary
    return (id, draft)
  | .producePoint label => do
    let id ← Space.create label []
    return (id, { draft with
      productPoints := draft.productPoints ++ [id], product := draft.product ++ [id] })
  | .produce label boundary => do
    let id ← Space.create label boundary
    return (id, { draft with product := draft.product ++ [id] })
  | .bind pattern replacement => do
    let cell ← Edit.look (·.resolve pattern)
    let id ← Space.create Label.bind (draft.bindBoundary pattern replacement cell.boundary)
    return (id, { draft with binds := draft.binds.insert pattern id })

/-- Makes an edge from the rule cell to each of some points. -/
def scaffold (rule : CellId) (label : String) (points : List CellId) : Edit (List CellId) :=
  points.mapM fun point => Space.create label [rule, point]

/-- Makes the scaffolds of some points, and the listing of these and some cells. -/
def list (rule : CellId) (scaffoldLabel listingLabel : String) (points cells : List CellId) :
    Edit CellId := do
  let scaffolds ← scaffold rule scaffoldLabel points
  Space.createListing listingLabel (scaffolds ++ cells)

/-- Ends the rule. A rule needs a point in its pattern; one without product points gets no product
listing. -/
def finish (draft : RuleDraft) : Edit CellId := do
  if draft.patternPoints.isEmpty then
    throw (.malformedRule draft.rule .noPatternPoint)
  let _ ← list draft.rule Label.patternScaffold Label.pattern draft.patternPoints draft.pattern
  if !draft.productPoints.isEmpty then
    let _ ← list draft.rule Label.productScaffold Label.product draft.productPoints draft.product
  return draft.rule

end RuleDraft

/-! ## The transitive rule -/

/-- Adds a clause to the draft at hand. -/
def say (clause : Clause) : StateT RuleDraft (ExceptT StoreError (StateM Space)) CellId :=
  fun draft => draft.add clause

/-- The clauses of "A label B, B label C, hence A label C". -/
def transitiveClauses (label : String) :
    StateT RuleDraft (ExceptT StoreError (StateM Space)) Unit := do
  let a ← say (.patternPoint Label.wildcard)
  let b ← say (.patternPoint Label.wildcard)
  let c ← say (.patternPoint Label.wildcard)
  let ab ← say (.patternCell label [a, b])
  let bc ← say (.patternCell label [b, c])
  let ra ← say (.replacementPoint Label.wildcard)
  let rb ← say (.replacementPoint Label.wildcard)
  let rc ← say (.replacementPoint Label.wildcard)
  let rab ← say (.replacement label [ra, rb])
  let rbc ← say (.replacement label [rb, rc])
  let _ ← say (.produce label [ra, rc])
  let _ ← say (.bind a ra)
  let _ ← say (.bind b rb)
  let _ ← say (.bind c rc)
  let _ ← say (.bind ab rab)
  let _ ← say (.bind bc rbc)

/-- Writes the rule "A label B, B label C, hence A label C". Its pattern is A, B, C, the edge from A
to B and the edge from B to C. -/
def transitiveRule (label : String) : Edit CellId := do
  let draft ← RuleDraft.start s!"transitive_{label}"
  let (_, draft) ← (transitiveClauses label).run draft
  draft.finish

end CellComplex
