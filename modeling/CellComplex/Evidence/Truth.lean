/-!
# Truth values

A truth value says how often a statement held among the cases seen (frequency), and how much the
cases seen count against those still to come (confidence).

* `Truth.revise`: merges the truth values of two disjoint bodies of evidence. It is written over
  any numbers with the four operations, so the same formula is read over floats and over rationals.
* `EvidenceSummary.ofCounts`: the truth value of `positive` cases out of `total`.
-/

namespace CellComplex

/-- A frequency and a confidence. -/
structure Truth (α : Type) where
  frequency : α
  confidence : α
  deriving DecidableEq, Repr

namespace Truth

section Revision

variable {α : Type} [Add α] [Sub α] [Mul α] [Div α] [Neg α] [LT α] [DecidableLT α]
  [OfNat α 0] [OfNat α 1] [OfNat α 2]

/-- The size of a number without its sign. -/
def magnitude (x : α) : α := if x < 0 then -x else x

/-- The larger of two numbers. -/
def larger (x y : α) : α := if x < y then y else x

/-- The weight of the first of two confidences: it counts for as much as the second leaves open. -/
def weight (c d : α) : α := c * (1 - d)

/-- Merges two truth values. Each frequency counts with its weight; where the weights vanish (no
evidence on either side, or certainty on both) the mean frequency and the larger confidence are
taken. A number vanishes below `threshold`. -/
def revise (threshold : α) (a b : Truth α) : Truth α :=
  let w₁ := weight a.confidence b.confidence
  let w₂ := weight b.confidence a.confidence
  let total := w₁ + w₂
  let scale := total + (1 - a.confidence) * (1 - b.confidence)
  { frequency :=
      if magnitude total < threshold then (a.frequency + b.frequency) / 2
      else (a.frequency * w₁ + b.frequency * w₂) / total
    confidence :=
      if magnitude scale < threshold then larger a.confidence b.confidence
      else total / scale }

end Revision

/-- The distance from one to the next float: `2 ^ -52`. -/
def floatThreshold : Float := Float.ofBits 0x3cb0000000000000

/-- What is believed of a statement without evidence: no leaning, no confidence. -/
def prior : Truth Float := ⟨0.5, 0⟩

end Truth

/-! ## Evidence -/

/-- The evidence horizon of an inference that names none. -/
def defaultHorizon : Float := 1

/-- A truth value and the counts behind it. -/
structure EvidenceSummary where
  truth : Truth Float
  positive : Nat
  total : Nat

namespace EvidenceSummary

/-- No evidence at all. -/
def none : EvidenceSummary := ⟨⟨0, 0⟩, 0, 0⟩

/-- The summary of `positive` cases out of `total`; `horizon` is the number of cases after which
the past counts as much as the future. -/
def ofCounts (positive total : Nat) (horizon : Float) : EvidenceSummary :=
  if total = 0 then .none
  else
    let w := Float.ofNat total
    ⟨⟨Float.ofNat positive / w, w / (w + horizon)⟩, positive, total⟩

end EvidenceSummary

end CellComplex
