import CellComplex.Cell.Basic
import CellComplex.Toml.Decode

/-!
# Knowledge documents

A knowledge document lists points by their labels, links between points, and evidence, which is a
link with a truth value. A link or a piece of evidence may have a point as its atomic name.

* `KnowledgeDocument.read?`: what a document lists.
-/

namespace CellComplex

/-- Two points and the label between them. -/
structure LinkEntry where
  subject : String
  predicate : String
  label : String
  oriented : Bool
  atom : Option String
  deriving DecidableEq, Repr

/-- Two points, the label between them, and how far it holds. -/
structure EvidenceEntry where
  subject : String
  predicate : String
  label : String
  truth : Truth Float
  atom : Option String
  deriving Repr

/-- What a document lists, each kind in order. -/
structure KnowledgeDocument where
  points : List String
  links : List LinkEntry
  evidence : List EvidenceEntry
  deriving Repr

open Toml (Entries Value)

/-- The atomic name in a record, if it has one. -/
def readAtom? (entries : Entries) : Option (Option String) :=
  entries.optional "atom" (fun v => v.text?.map some) none

namespace LinkEntry

/-- A link. -/
def read? (v : Value) : Option LinkEntry := do
  let entries ← v.record? ["subject", "predicate", "label", "oriented", "atom"]
  return {
    subject := ← entries.required "subject" Value.text?
    predicate := ← entries.required "predicate" Value.text?
    label := ← entries.optional "label" Value.text? Label.defaultLink
    oriented := ← entries.optional "oriented" Value.boolean? true
    atom := ← readAtom? entries }

end LinkEntry

namespace EvidenceEntry

/-- A truth value: a frequency and a confidence. What follows them in the list is not looked at. -/
def readTruth? (v : Value) : Option (Truth Float) := do
  match ← v.items? with
  | frequency :: confidence :: _ => return ⟨← frequency.float?, ← confidence.float?⟩
  | _ => none

/-- A piece of evidence. -/
def read? (v : Value) : Option EvidenceEntry := do
  let entries ← v.record? ["subject", "predicate", "label", "truth", "atom"]
  return {
    subject := ← entries.required "subject" Value.text?
    predicate := ← entries.required "predicate" Value.text?
    label := ← entries.optional "label" Value.text? Label.defaultLink
    truth := ← entries.required "truth" readTruth?
    atom := ← readAtom? entries }

end EvidenceEntry

namespace KnowledgeDocument

/-- What a table lists. -/
def ofEntries? (entries : Entries) : Option KnowledgeDocument := do
  let known ← (Value.table .header entries).record? ["points", "links", "evidence"]
  return {
    points := ← known.optional "points" (Value.list? Value.text?) []
    links := ← known.optional "links" (Value.list? LinkEntry.read?) []
    evidence := ← known.optional "evidence" (Value.list? EvidenceEntry.read?) [] }

/-- What a document lists. -/
def read? (source : String) : Option KnowledgeDocument :=
  (Toml.readDocument? source).bind ofEntries?

end KnowledgeDocument

end CellComplex
