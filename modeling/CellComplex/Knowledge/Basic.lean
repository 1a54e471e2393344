import CellComplex.Knowledge.Document
import CellComplex.Knowledge.Error
import CellComplex.Space.Edit

/-!
# Knowledge

Knowledge is a store whose points can be found by their labels. It is built from a document: first
the points that the document lists, then its links, then its evidence, each making the points that
it mentions for the first time.

* `Task`: something done with knowledge; it yields a value or fails, and what was done before the
  failure stays.
* `Knowledge.read`: the knowledge of a document, its coface index fresh.
-/

namespace CellComplex

/-- A store and its points by their labels. -/
structure Knowledge where
  store : Store
  points : Std.TreeMap String CellId

/-- Something done with knowledge. -/
abbrev Task (α : Type) := ExceptT KnowledgeError (StateM Knowledge) α

namespace Task

/-- Runs a task. -/
def apply {α : Type} (task : Task α) (k : Knowledge) : Except KnowledgeError α × Knowledge :=
  StateT.run (ExceptT.run task) k

/-- Asks without changing anything. -/
def ask {α : Type} (question : Knowledge → Except KnowledgeError α) : Task α :=
  fun k => (question k, k)

/-- Changes the store. -/
def edit {α : Type} (change : Edit α) : Task α :=
  fun ⟨store, points⟩ =>
    let r := change.applyTo store
    (r.1.mapError .store, ⟨r.2, points⟩)

/-- Remembers a point by its label. -/
def remember (label : String) (id : CellId) : Task Unit :=
  fun ⟨store, points⟩ => (.ok (), ⟨store, points.insert label id⟩)

end Task

namespace Knowledge

/-- No knowledge; its store has the id zero. -/
def empty : Knowledge := ⟨.empty 0, ∅⟩

/-! ## 1. Asking -/

/-- The store as a space. -/
def space (k : Knowledge) : Space := .ofStore k.store

/-- The point with a label. -/
def point (k : Knowledge) (label : String) : Except KnowledgeError CellId :=
  match k.points[label]? with
  | some id => .ok id
  | none => .error (.unknownPoint label)

/-- The number of points with different labels. -/
def pointCount (k : Knowledge) : Nat := k.points.size

/-- The cell of an id. -/
def resolve (k : Knowledge) (id : CellId) : Except KnowledgeError Cell :=
  (k.space.resolve id).mapError .store

/-- A cell as users see it. -/
def describe (k : Knowledge) (id : CellId) : Except KnowledgeError String :=
  (k.resolve id).map Cell.shownLabel

/-! ## 2. Building -/

/-- The point with a label: the one that is there, or a new one. -/
def ensurePoint (label : String) : Task CellId := do
  let found ← Task.ask fun k => .ok k.points[label]?
  match found with
  | some id => return id
  | none =>
    if label.isEmpty then
      throw (.invalidKnowledge .emptyLabel)
    let id ← Task.edit (Space.create label [])
    Task.remember label id
    return id

/-- Gives an edge its atomic name, if it has one. -/
def nameEdge (edge : CellId) (atom : Option String) : Task Unit := do
  if let some label := atom then
    let point ← ensurePoint label
    Task.edit (Space.linkAtom edge point)

/-- Takes in a link. Equal links are one edge. -/
def addLink (entry : LinkEntry) : Task Unit := do
  let subject ← ensurePoint entry.subject
  let predicate ← ensurePoint entry.predicate
  let edge ← Task.edit (Space.link subject predicate entry.label entry.oriented)
  nameEdge edge entry.atom

/-- Whether a truth value can be evidence: the frequency lies between zero and one, and so does the
confidence, which is never one itself. -/
def isEvidence (t : Truth Float) : Bool :=
  0 ≤ t.frequency && t.frequency ≤ 1 && 0 ≤ t.confidence && t.confidence < 1

/-- Takes in a piece of evidence. Every piece is an edge of its own. -/
def addEvidence (entry : EvidenceEntry) : Task Unit := do
  if !isEvidence entry.truth then
    throw (.invalidKnowledge
      (.truthOutOfRange entry.truth entry.subject entry.label entry.predicate))
  let subject ← ensurePoint entry.subject
  let predicate ← ensurePoint entry.predicate
  let edge ← Task.edit (Space.create entry.label [subject, predicate])
  Task.edit (Space.setEmbedding edge (.ofTruth entry.truth))
  nameEdge edge entry.atom

/-- Takes in a document. -/
def build (document : KnowledgeDocument) : Task Unit := do
  document.points.forM fun label => discard (ensurePoint label)
  document.links.forM addLink
  document.evidence.forM addEvidence
  Task.edit Space.buildIndex

/-- The knowledge of a document. -/
def read (source : String) : Except KnowledgeError Knowledge :=
  match KnowledgeDocument.read? source with
  | none => .error (.malformed .knowledge)
  | some document =>
    match (build document).apply empty with
    | (.ok (), k) => .ok k
    | (.error e, _) => .error e

end Knowledge

end CellComplex
