import CellComplex.Rule.Basic
import CellComplex.Search
import CellComplex.Space.Basic

/-!
# Reading a rule

A rule is stored as cells around one point, the rule cell:

* an edge labelled `pattern_scaffold` from the rule cell to each point of the pattern;
* one listing labelled `pattern`: these edges, then the cells of the pattern in order;
* a cell labelled `bind` over a pattern cell and the cell it stands for;
* and in the same way edges labelled `product_scaffold` and a listing labelled `product`.

`Rule.compile` reads them back through the coface index, which must be fresh.
-/

namespace CellComplex

namespace Space

/-! ## 1. Listings -/

/-- The live cofaces of a cell that carry a label. -/
def cofacesLabeled (sp : Space) (cell : CellId) (label : String) : List CellId :=
  (sp.cofacesOf cell).toList.filter fun id =>
    sp.satisfies id fun c => c.isLive && c.label == label

/-- The one coface that some cells have in common, and each has no other; `owner` is the coface of
the cells before. -/
def commonCoface (sp : Space) (label : String) (owner : Option CellId) :
    List CellId → Except RuleFault (Option CellId)
  | [] => .ok owner
  | scaffold :: rest =>
    match (sp.cofacesOf scaffold).toList with
    | [listing] =>
      if owner.any (· != listing) then .error (.twoListings label)
      else sp.commonCoface label (some listing) rest
    | cofaces => .error (.scaffoldListings scaffold label cofaces.length)

/-- The listing that holds some scaffolds. -/
def listingOf (sp : Space) (scaffolds : List CellId) (label : String) : Except RuleFault Cell := do
  match (← sp.commonCoface label none scaffolds).bind sp.find? with
  | none => throw (.noListing label)
  | some listing =>
    if listing.label != label then
      throw (.otherListing label listing.label)
    return listing

/-! ## 2. Binds -/

/-- Whether a bind can point to a cell: it is neither the pattern cell nor a marker. -/
def isBindTarget (sp : Space) (pattern id : CellId) : Bool :=
  id != pattern && sp.satisfies id fun c => c.label != Label.bind && c.label != Label.nobind

/-- The cell that a bind points to. -/
def bindTarget (sp : Space) (bind : CellId) (pattern : Cell) : Except RuleFault CellId :=
  match sp.find? bind with
  | none => .error (.unknownBind bind)
  | some c =>
    if c.dimension ≠ pattern.dimension + 1 then
      .error (.bindDimension bind c.dimension (pattern.dimension + 1))
    else
      match c.boundary.filter (sp.isBindTarget pattern.id) with
      | [target] => .ok target
      | targets => .error (.bindTargets bind targets.length)

/-- The cell that a pattern cell stands for. -/
def boundTo (sp : Space) (pattern : Cell) (template : CellId) :
    Except RuleFault (Option CellId) :=
  match sp.cofacesLabeled template Label.bind with
  | [] => .ok none
  | [bind] => (sp.bindTarget bind pattern).map some
  | binds => .error (.manyBinds template binds.length)

/-- Reads one position of a pattern. -/
def readSlot (sp : Space) (template : CellId) : Except RuleFault PatternSlot :=
  match sp.find? template with
  | none => .error (.unknownPattern template)
  | some c => do
    let bindsTo ← sp.boundTo c template
    return { template, dimension := c.dimension, label := .ofLabel c.label, bindsTo }

/-! ## 3. Templates -/

/-- Everything below some cells, as a search. -/
def cellsBelow (sp : Space) : Branching StoreError where
  next id := (sp.resolve id).map (·.boundary.reverse)
  finite := by
    obtain ⟨ids, h⟩ := sp.lookup.finite
    refine ⟨ids, fun id parts hnext _ => ?_⟩
    cases hid : sp.resolve id with
    | error e => rw [hid] at hnext; cases hnext
    | ok c => exact h id c (Lookup.resolve_eq_ok.mp hid)

/-- Enters the shape of a cell under its id. -/
def enterTemplate (sp : Space) (templates : Std.TreeMap CellId Template) (id : CellId) :
    Std.TreeMap CellId Template :=
  match sp.find? id with
  | some c => templates.insert id (.ofCell c)
  | none => templates

/-- The shapes of some cells and of everything below them. -/
def templatesOf (sp : Space) (product : List CellId) :
    Except StoreError (Std.TreeMap CellId Template) :=
  (sp.cellsBelow.preorder product.reverse).map (·.foldl sp.enterTemplate ∅)

end Space

/-! ## 4. The rule -/

namespace Rule

/-- A fault of the cells around a rule cell. -/
def faultAt {α : Type} (rule : CellId) (read : Except RuleFault α) : Except StoreError α :=
  read.mapError (.malformedRule rule)

/-- The pattern of a rule: the number of its points and its positions. -/
def readPattern (sp : Space) (rule : CellId) : Except RuleFault (Nat × List PatternSlot) := do
  let scaffolds := sp.cofacesLabeled rule Label.patternScaffold
  if scaffolds.isEmpty then
    throw .noScaffold
  let listing ← sp.listingOf scaffolds Label.pattern
  let listed := listing.boundary.drop scaffolds.length
  if listed.isEmpty then
    throw .emptyPattern
  return (scaffolds.length, ← listed.mapM sp.readSlot)

/-- The product of a rule; a rule without product points has none. -/
def readProduct (sp : Space) (rule : CellId) : Except RuleFault (List CellId) := do
  let scaffolds := sp.cofacesLabeled rule Label.productScaffold
  if scaffolds.isEmpty then
    return []
  let listing ← sp.listingOf scaffolds Label.product
  return listing.boundary.drop scaffolds.length

/-- Reads the rule that hangs on a cell. -/
def compile (sp : Space) (rule : CellId) : Except StoreError Rule := do
  let _ ← sp.resolve rule
  let (points, pattern) ← faultAt rule (readPattern sp rule)
  let product ← faultAt rule (readProduct sp rule)
  let templates ← sp.templatesOf product
  return { cell := rule, points, pattern, product, templates }

end Rule

end CellComplex
