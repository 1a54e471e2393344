import CellComplex.Cell.Id
import CellComplex.Decimal.Layout
import CellComplex.Label

/-!
# What can go wrong in a store

Every failure of the store is a cause with the cells and numbers that it is about; its wording is
`StoreError.message`.

* `Mismatch`: why a selection of cells does not fit a rule's pattern.
* `RuleFault`: why stored cells are not a rule.
* `StoreError`: every other cause, with these two among them.
-/

namespace CellComplex

/-! ## 1. Causes of the rewriting side -/

/-- Why a selection of cells does not fit a pattern. -/
inductive Mismatch where
  | deleted (cell : CellId)
  | pointCount (wanted found : Nat)
  | cellCount (wanted found : Nat)
  | dimension (template : CellId) (wanted : Nat) (label : String) (found : Nat)
  | label (wanted : LabelPattern) (found : String)
  deriving DecidableEq, Repr

namespace Mismatch

/-- The wording of a mismatch. -/
def message : Mismatch → String
  | .deleted cell => s!"{cell.text} is deleted"
  | .pointCount wanted found => s!"rule expects {wanted} points, subcomplex has {found}"
  | .cellCount wanted found => s!"rule expects {wanted} cells, subcomplex has {found}"
  | .dimension template wanted name found =>
    s!"dimensions mismatch: {template.text}({wanted}) != '{name}'({found})"
  | .label wanted found => s!"label mismatch: {wanted.text} != '{found}'"

end Mismatch

/-- Why stored cells are not a rule. -/
inductive RuleFault where
  | noScaffold
  | scaffoldListings (scaffold : CellId) (label : String) (count : Nat)
  | twoListings (label : String)
  | noListing (label : String)
  | otherListing (label found : String)
  | emptyPattern
  | unknownPattern (template : CellId)
  | manyBinds (template : CellId) (count : Nat)
  | unknownBind (bind : CellId)
  | bindDimension (bind : CellId) (found wanted : Nat)
  | bindTargets (bind : CellId) (count : Nat)
  | noTemplate (cell : CellId)
  | noPatternPoint
  deriving DecidableEq, Repr

namespace RuleFault

/-- The wording of a fault. -/
def message : RuleFault → String
  | .noScaffold => "no pattern scaffold"
  | .scaffoldListings scaffold label count =>
    s!"scaffold {scaffold.text} must belong to exactly one {label} listing, found {count}"
  | .twoListings label => s!"scaffolds point to two {label} listings"
  | .noListing label => s!"no {label} listing"
  | .otherListing label found => s!"expected a {label} listing, found '{found}'"
  | .emptyPattern => "pattern lists no cells"
  | .unknownPattern template => s!"pattern references unknown cell {template.text}"
  | .manyBinds template count => s!"pattern cell {template.text} has {count} binds"
  | .unknownBind bind => s!"unknown bind {bind.text}"
  | .bindDimension bind found wanted =>
    s!"bind {bind.text} has dimension {found}, expected {wanted}"
  | .bindTargets bind count => s!"bind {bind.text} has {count} targets"
  | .noTemplate cell => s!"product cell {cell.text} is neither bound nor creatable"
  | .noPatternPoint => "a rule needs at least one pattern point"

end RuleFault

/-! ## 2. Causes of the store -/

/-- The dimension that an operation asks for. -/
inductive WantedDimension where
  | point
  | compound
  deriving DecidableEq, Repr

/-- A dimension that is asked for, in words. -/
def WantedDimension.text : WantedDimension → String
  | .point => "0"
  | .compound => ">= 1"

/-- The two sides of an atom link. -/
inductive AtomRelation where
  | atom
  | expansion
  deriving DecidableEq, Repr

/-- A side of an atom link, in words. -/
def AtomRelation.text : AtomRelation → String
  | .atom => "atom"
  | .expansion => "expansion"

/-- What a store never does. -/
inductive Unsupported where
  | atomLinkDeletion
  | outOfOrderInsertion
  deriving DecidableEq, Repr

/-- What a store never does, in words. -/
def Unsupported.text : Unsupported → String
  | .atomLinkDeletion => "physical atom-link deletion at the store level"
  | .outOfOrderInsertion => "out-of-order cell insertion"

/-- What an upper store cannot take from a lower one. -/
inductive Shadowed where
  | cell
  | atomLink
  deriving DecidableEq, Repr

/-- What cannot be taken from a lower store, in words. -/
def Shadowed.text : Shadowed → String
  | .cell => "cell"
  | .atomLink => "atom link"

/-- A cause of failure of a store operation. -/
inductive StoreError where
  | emptyBoundary (label : String)
  | unknownCell (cell : CellId)
  | tooManyEndpoints (label : String) (count : Nat)
  | disconnectedBoundary (label : String) (offender : CellId)
  | nonMinimalBoundary (label : String) (contained container : CellId)
  | labelNotFound (label : String)
  | cellNotFound (cell : CellId)
  | dimensionMismatch (cell : CellId) (wanted : WantedDimension) (found : Nat)
  | cardinality (cell : CellId) (relation : AtomRelation) (count : Nat)
  | duplicateAtomLink (expansion atom : CellId)
  | patternMismatch (reason : Mismatch)
  | malformedRule (rule : CellId) (reason : RuleFault)
  | ambiguous (label : String) (first second : CellId)
  | resolutionStalled (label : String) (candidates : Nat)
  | notDuplicates (first second : CellId)
  | missingTruthValue (cell : CellId)
  | invalidHorizon (horizon : Float)
  | unsupported (what : Unsupported)
  | shadowingUnsupported (what : Shadowed) (cell : CellId)
  | noHandler (cell : CellId)
  | unknownHandler (key : String)
  | handler (key message : String)
  deriving Repr

namespace StoreError

/-- The wording of a failure. -/
def message : StoreError → String
  | .emptyBoundary label => s!"boundary of '{label}' is empty"
  | .unknownCell cell => s!"unknown cell {cell.text}"
  | .tooManyEndpoints label count =>
    s!"1-cell '{label}' cannot be connected with {count} 0-cells"
  | .disconnectedBoundary label offender =>
    s!"closure of '{label}' is not connected at boundary element {offender.text}"
  | .nonMinimalBoundary label contained container =>
    s!"boundary of '{label}' is not minimal: {contained.text} is contained in {container.text}"
  | .labelNotFound label => s!"no cell labeled '{label}'"
  | .cellNotFound cell => s!"cell {cell.text} not found"
  | .dimensionMismatch cell wanted found =>
    s!"cell {cell.text} has dimension {found}, expected {wanted.text}"
  | .cardinality cell relation count =>
    s!"expected exactly one {relation.text} of {cell.text}, found {count}"
  | .duplicateAtomLink expansion atom =>
    s!"atom link {expansion.text} ~> {atom.text} already exists"
  | .patternMismatch reason => s!"pattern matching failed: {reason.message}"
  | .malformedRule rule reason => s!"malformed rule {rule.text}: {reason.message}"
  | .ambiguous label first second =>
    s!"ambiguous '{label}' evidence: {first.text} and {second.text}"
  | .resolutionStalled label candidates =>
    s!"resolution of '{label}' did not reduce {candidates} candidates"
  | .notDuplicates first second =>
    s!"cells {first.text} and {second.text} are not duplicate evidence"
  | .missingTruthValue cell => s!"cell {cell.text} carries no truth value"
  | .invalidHorizon horizon =>
    s!"evidential horizon must be finite and positive, got {messageFloat horizon}"
  | .unsupported what => s!"unsupported operation: {what.text}"
  | .shadowingUnsupported what cell =>
    s!"shadowing of base {what.text} {cell.text} is not supported"
  | .noHandler cell => s!"cell {cell.text} has no evaluation handler"
  | .unknownHandler key => s!"no handler registered under '{key}'"
  | .handler key reason => s!"handler '{key}' failed: {reason}"

end StoreError

end CellComplex
