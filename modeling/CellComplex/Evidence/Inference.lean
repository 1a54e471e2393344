import CellComplex.Evidence.Walk

/-!
# Inferred truth

How far "S is P" holds is read off what the two terms share. What is S should be P, and what P is
should be S: every member of the extension of S that lies in the extension of P counts for the
statement, every other one against it, and likewise with the intension of P in that of S.

* `Space.inferTruth`: the counts and their truth value. Terms that share nothing at all have no
  evidence about each other.
-/

namespace CellComplex

/-- Whether a horizon can be used: finite and positive. -/
def isHorizon (horizon : Float) : Bool := horizon.isFinite && 0 < horizon

/-- The number of members of a list that lie in a set. -/
def countIn (ids : List CellId) (set : CellSet) : Nat := ids.countP set.contains

/-- The terms of the subject and of the predicate. -/
structure TermSets where
  subjectExtension : List CellId
  subjectIntension : List CellId
  predicateExtension : List CellId
  predicateIntension : List CellId

namespace TermSets

/-- Whether a term of the subject is a term of the predicate. -/
def related (t : TermSets) : Bool :=
  let predicate := Std.TreeSet.ofList (t.predicateExtension ++ t.predicateIntension)
  (t.subjectExtension ++ t.subjectIntension).any predicate.contains

/-- The cases for the statement. -/
def positive (t : TermSets) : Nat :=
  countIn t.subjectExtension (Std.TreeSet.ofList t.predicateExtension) +
    countIn t.predicateIntension (Std.TreeSet.ofList t.subjectIntension)

/-- All cases. -/
def total (t : TermSets) : Nat := t.subjectExtension.length + t.predicateIntension.length

/-- The evidence that the terms give. -/
def summary (t : TermSets) (horizon : Float) : EvidenceSummary :=
  if t.related then .ofCounts t.positive t.total horizon else .none

end TermSets

namespace Space

/-- The terms of a subject and a predicate. -/
def termSets (sp : Space) (subject predicate : CellId) : Except StoreError TermSets := do
  let subjectExtension ← sp.extension subject
  let subjectIntension ← sp.intension subject
  let predicateExtension ← sp.extension predicate
  let predicateIntension ← sp.intension predicate
  return { subjectExtension, subjectIntension, predicateExtension, predicateIntension }

/-- How far the subject is the predicate. -/
def inferTruth (sp : Space) (subject predicate : CellId) (horizon : Float) :
    Except StoreError EvidenceSummary := do
  if !isHorizon horizon then
    throw (.invalidHorizon horizon)
  return (← sp.termSets subject predicate).summary horizon

end Space

end CellComplex
