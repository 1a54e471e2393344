import CellComplex.Evidence.Query
import CellComplex.Space.Edit

/-!
# Resolving duplicates

Duplicates are two live edges with one label over one ordered pair. A policy makes one of two
duplicates, and a query that is ambiguous lets a policy work until one edge is left.

* `Space.revision`: both give way to a new edge with the merged truth value.
* `Space.choice`: the more confident one stays; of equals, the first.
* `Space.queryResolving`: asks, resolves and asks again. Each round must leave fewer candidates
  than the round before, which is why the rounds end whatever the policy does.
-/

namespace CellComplex

/-! ## 1. Two duplicates -/

namespace Space

/-- The truth value on an edge. -/
def truthOf (c : Cell) : Except StoreError (Truth Float) :=
  match Embedding.truth? c.embedding with
  | some t => .ok t
  | none => .error (.missingTruthValue c.id)

/-- Whether two cells are two live edges with one label over one ordered pair. -/
def areDuplicates (a b : Cell) : Bool :=
  a.isEdge && b.isEdge && a.label == b.label && a.boundary == b.boundary

/-- Two duplicates: the cell they both are, and their truth values. -/
def duplicatePair (sp : Space) (first second : CellId) :
    Except StoreError (Cell × Truth Float × Truth Float) := do
  let a ← sp.resolve first
  let b ← sp.resolve second
  if first = second || !areDuplicates a b then
    throw (.notDuplicates first second)
  return (a, ← truthOf a, ← truthOf b)

/-- Puts one edge in the place of two duplicates: it carries the merged truth value. -/
def revision (first second : CellId) : Edit CellId := do
  let (cell, a, b) ← Edit.look (duplicatePair · first second)
  requireDeletable first
  requireDeletable second
  let merged ← create cell.label cell.boundary
  setEmbedding merged (.ofTruth (Truth.revise Truth.floatThreshold a b))
  delete first
  delete second
  return merged

/-- Keeps the more confident of two duplicates. -/
def choice (first second : CellId) : Edit CellId := do
  let (_, a, b) ← Edit.look (duplicatePair · first second)
  if a.confidence < b.confidence then
    delete first
    return second
  else
    delete second
    return first

end Space

/-! ## 2. Chance -/

/-- A source of 64-bit numbers, and how many of them were used. -/
structure Dice where
  roll : Nat → UInt64
  used : Nat

/-- The next number. -/
def Dice.next (dice : Dice) : UInt64 × Dice :=
  (dice.roll dice.used, { dice with used := dice.used + 1 })

/-- One number decides between the two ways to resolve: the lower half of the numbers is
revision. -/
def Space.randomResolution (roll : UInt64) (first second : CellId) : Edit CellId :=
  if roll.toNat < twoTo 63 then revision first second else choice first second

/-! ## 3. Policies -/

/-- Makes one of two duplicates, with a state of its own. -/
abbrev Policy (ρ : Type) := CellId → CellId → ExceptT StoreError (StateM (Space × ρ)) CellId

namespace Policy

/-- A policy without a state. -/
def ofEdit {ρ : Type} (resolve : CellId → CellId → Edit CellId) : Policy ρ :=
  fun first second (sp, state) =>
    let r := (resolve first second).apply sp
    (r.1, r.2, state)

/-- Merges. -/
def revision {ρ : Type} : Policy ρ := ofEdit Space.revision

/-- Keeps the more confident one. -/
def choice {ρ : Type} : Policy ρ := ofEdit Space.choice

/-- Merges or keeps, as the dice fall. -/
def random : Policy Dice :=
  fun first second (sp, dice) =>
    let (roll, dice) := dice.next
    let r := (Space.randomResolution roll first second).apply sp
    (r.1, r.2, dice)

end Policy

/-- The policies that have a name. -/
inductive PolicyKind where
  | revision
  | choice
  | random
  deriving DecidableEq, Repr

namespace PolicyKind

/-- The name of a policy. -/
def name : PolicyKind → String
  | .revision => "revision"
  | .choice => "choice"
  | .random => "random"

/-- The policy with a name. -/
def ofName? (name : String) : Option PolicyKind :=
  [revision, choice, random].find? (·.name = name)

/-- What is said of a name that no policy has. -/
def unknownMessage (name : String) : String :=
  s!"unknown policy '{name}' (expected revision, choice or random)"

/-- The policy of a kind. -/
def policy : PolicyKind → Policy Dice
  | .revision => .revision
  | .choice => .choice
  | .random => .random

end PolicyKind

/-! ## 4. Asking until the answer is clear -/

namespace Space

/-- Whether a round left no fewer candidates than there were. -/
def stalled (before : Option Nat) (count : Nat) : Bool := before.any (· ≤ count)

/-- How far the rounds can still go: the first round is before all others, and each later one has
fewer candidates. -/
def roundsLeft : Option Nat → Nat × Nat
  | none => (1, 0)
  | some n => (0, n)

/-- Goes on with a query; `before` is the number of candidates before the last round. -/
def resolveFrom {ρ : Type} (policy : Policy ρ) (label : String) (x y : CellId)
    (before : Option Nat) (state : Space × ρ) : Except StoreError Embedding × Space × ρ :=
  match state.1.query label x y with
  | .error (.ambiguous _ first second) =>
    let count := (state.1.candidates label x y).length
    if _hstalled : stalled before count then (.error (.resolutionStalled label count), state)
    else
      match policy first second state with
      | (.error e, state) => (.error e, state)
      | (.ok _, sp, own) =>
        resolveFrom policy label x y (some count) ((buildIndex.apply sp).2, own)
  | answer => (answer, state)
termination_by roundsLeft before
decreasing_by
  cases before with
  | none => exact Prod.Lex.left _ _ (by omega)
  | some n =>
    refine Prod.Lex.right _ ?_
    simpa [stalled] using _hstalled

/-- The evidence for "x label y", duplicates resolved by a policy. The index is built again after
each round. -/
def queryResolving {ρ : Type} (policy : Policy ρ) (label : String) (x y : CellId) :
    ExceptT StoreError (StateM (Space × ρ)) Embedding :=
  fun state => resolveFrom policy label x y none state

end Space

end CellComplex
