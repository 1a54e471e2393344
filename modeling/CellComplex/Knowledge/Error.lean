import CellComplex.Error
import CellComplex.Evidence.Truth

/-!
# What can go wrong with knowledge

Everything that reading, asking and rewriting knowledge can fail on. A failure of the store is
passed on as it is; each other cause has its own constructor, and `KnowledgeError.message` words
them all.
-/

namespace CellComplex

/-- The two kinds of documents. -/
inductive DocumentKind where
  | configuration
  | knowledge
  deriving DecidableEq, Repr

/-- A kind of document, in words. -/
def DocumentKind.text : DocumentKind → String
  | .configuration => "configuration"
  | .knowledge => "knowledge"

/-- Why a readable knowledge document describes no store. -/
inductive KnowledgeFault where
  | emptyLabel
  | truthOutOfRange (truth : Truth Float) (subject label predicate : String)
  deriving Repr

/-- The wording of a fault. -/
def KnowledgeFault.message : KnowledgeFault → String
  | .emptyLabel => "point labels must not be empty"
  | .truthOutOfRange truth subject label predicate =>
    s!"truth [{messageFloat truth.frequency}, {messageFloat truth.confidence}] of " ++
      s!"'{subject} {label} {predicate}' is out of range"

/-- A cause of failure of a command. -/
inductive KnowledgeError where
  | store (cause : StoreError)
  | unreadable (path : String)
  | notAFile (path : String)
  | fileTooLarge (size limit : Nat)
  | malformed (document : DocumentKind)
  | invalidKnowledge (fault : KnowledgeFault)
  /-- A rewrite was asked for with another number of points than three. -/
  | pointCount (count : Nat)
  | invalidHorizon (horizon : Float)
  | unknownPoint (label : String)
  | missingLink (label source target : String)
  deriving Repr

/-- The wording of a failure. -/
def KnowledgeError.message : KnowledgeError → String
  | .store cause => cause.message
  | .unreadable path => s!"cannot read '{path}'"
  | .notAFile path => s!"path '{path}' is not a regular file"
  | .fileTooLarge size limit => s!"file size {size} bytes exceeds maximum allowed {limit} bytes"
  | .malformed document => s!"failed to parse {document.text}"
  | .invalidKnowledge fault => s!"invalid knowledge: {fault.message}"
  | .pointCount count => s!"invalid argument: rewrite needs exactly three points, got {count}"
  | .invalidHorizon horizon =>
    s!"invalid configuration: horizon must be finite and positive, got {messageFloat horizon}"
  | .unknownPoint label => s!"unknown point '{label}'"
  | .missingLink label source target => s!"no '{label}' link from '{source}' to '{target}'"

end CellComplex
