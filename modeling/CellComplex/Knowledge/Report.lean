import CellComplex.Knowledge.Basic
import CellComplex.Knowledge.Settings
import CellComplex.Rewrite.Apply
import CellComplex.Rule.Draft

/-!
# Reports

A report is the answer to one of four questions about knowledge, all names in it as users see them.

* `status`: how much there is.
* `infer`: how far "subject is predicate" holds, and what the subject is.
* `resolveEvidence`: the evidence on an edge, duplicates resolved by a policy.
* `applyTransitive`: what the transitive rule makes of three points in a row.
-/

namespace CellComplex

/-! ## 1. Kinds of reports -/

/-- How much there is. -/
structure StatusReport where
  /-- The path of the knowledge document. -/
  source : Option String
  points : Nat
  links : Nat
  cells : Nat
  liveCells : Nat
  atomLinks : Nat
  dimensions : Nat
  stale : Bool
  settings : Settings

/-- How far "subject is predicate" holds. -/
structure InferReport where
  subject : String
  predicate : String
  horizon : Float
  evidence : EvidenceSummary
  /-- Everything that is the subject. -/
  extension : List String
  /-- Everything that the subject is. -/
  intension : List String

/-- The evidence on an edge. -/
structure ResolveReport where
  label : String
  source : String
  target : String
  policy : PolicyKind
  truth : Embedding
  /-- How many live cells the resolution cost. -/
  resolved : Nat

/-- A cell that a rewrite made or deleted. -/
structure CellSummary where
  id : CellId
  label : String
  dimension : Nat
  boundary : List String

/-- What a rewrite made and deleted. -/
structure RewriteReport where
  rule : String
  created : List CellSummary
  deleted : List CellSummary

/-! ## 2. Chance -/

/-- Mixes the bits of a word so that neighbouring words are far apart. It belongs to the dice below
and stands for no part of the program. -/
def mixBits (w : UInt64) : UInt64 :=
  let w := (w ^^^ (w >>> 30)) * 0xbf58476d1ce4e5b9
  let w := (w ^^^ (w >>> 27)) * 0x94d049bb133111eb
  w ^^^ (w >>> 31)

/-- Dice that fall the same way for the same seed. They stand in for the generator that the program
takes from a library, whose numbers they do not give; and without a seed, where the program rolls
afresh in every run, they fall as for the seed 0. What is said of dice is said of all dice, and
nothing rests on these. -/
def Dice.ofSeed (seed : Option Nat) : Dice :=
  { roll := fun n => mixBits ((seed.getD 0).toUInt64 + (n + 1).toUInt64 * 0x9e3779b97f4a7c15)
    used := 0 }

namespace Knowledge

/-! ## 3. Questions -/

/-- How much there is. -/
def status (k : Knowledge) (settings : Settings) (source : Option String) : StatusReport :=
  { source, settings
    points := k.pointCount
    links := (k.store.layer 1).countP fun id => k.space.satisfies id Cell.isLive
    cells := k.store.size
    liveCells := k.store.liveCount
    atomLinks := k.store.atomLinkCount
    dimensions := k.store.layerCount
    stale := k.store.isStale }

/-- Some cells as users see them. -/
def describeAll (k : Knowledge) (ids : List CellId) : Except KnowledgeError (List String) :=
  ids.mapM k.describe

/-- How far "subject is predicate" holds. -/
def infer (k : Knowledge) (subject predicate : String) (horizon : Float) :
    Except KnowledgeError InferReport := do
  let s ← k.point subject
  let p ← k.point predicate
  let evidence ← (k.space.inferTruth s p horizon).mapError .store
  let extension ← (k.space.extension s).mapError .store
  let intension ← (k.space.intension s).mapError .store
  return { subject, predicate, horizon, evidence
           extension := ← k.describeAll extension
           intension := ← k.describeAll intension }

/-- Asks for the evidence on an edge; duplicates are resolved. -/
def queryResolving (policy : PolicyKind) (dice : Dice) (label : String) (x y : CellId) :
    Task Embedding :=
  fun ⟨store, points⟩ =>
    let r := (Space.queryResolving policy.policy label x y).run (Space.ofStore store, dice)
    (r.1.mapError .store, ⟨r.2.1.top, points⟩)

/-- The evidence on an edge, duplicates resolved by a policy as the dice fall. -/
def resolveWith (label source target : String) (policy : PolicyKind) (dice : Dice) :
    Task ResolveReport := do
  let x ← Task.ask (·.point source)
  let y ← Task.ask (·.point target)
  let before ← Task.ask (.ok ·.store.liveCount)
  let truth ← queryResolving policy dice label x y
  let after ← Task.ask (.ok ·.store.liveCount)
  return { label, source, target, policy, truth, resolved := before - after }

/-- The evidence on an edge, duplicates resolved by a policy. -/
def resolveEvidence (label source target : String) (policy : PolicyKind) (seed : Option Nat) :
    Task ResolveReport :=
  resolveWith label source target policy (.ofSeed seed)

/-- A cell as reports show it. -/
def summarize (k : Knowledge) (id : CellId) : Except KnowledgeError CellSummary := do
  let c ← k.resolve id
  return { id, label := c.shownLabel, dimension := c.dimension
           boundary := ← k.describeAll c.boundary }

/-- The edge with a label from one point to another. -/
def requireLink (k : Knowledge) (label source target : String) (x y : CellId) :
    Except KnowledgeError CellId :=
  match k.space.findLink? x y label true with
  | some edge => .ok edge
  | none => .error (.missingLink label source target)

/-- Three points in a row, and the edges between neighbours. -/
def chainOf (k : Knowledge) (label : String) (points : List String) :
    Except KnowledgeError (List CellId) :=
  match points with
  | [a, b, c] => do
    let x ← k.point a
    let y ← k.point b
    let z ← k.point c
    let xy ← k.requireLink label a b x y
    let yz ← k.requireLink label b c y z
    return [x, y, z, xy, yz]
  | _ => .error (.pointCount points.length)

/-- Writes the transitive rule for a label and applies it to three points in a row. -/
def applyTransitive (label : String) (points : List String) : Task RewriteReport := do
  let chain ← Task.ask (·.chainOf label points)
  let rule ← Task.edit (transitiveRule label)
  Task.edit Space.buildIndex
  let rewrite ← Task.edit (Space.rewriteBy rule chain)
  Task.edit Space.buildIndex
  let name ← Task.ask (·.resolve rule)
  let created ← Task.ask fun k => rewrite.created.mapM k.summarize
  let deleted ← Task.ask fun k => rewrite.deleted.mapM k.summarize
  return { rule := name.label, created, deleted }

end Knowledge

end CellComplex
