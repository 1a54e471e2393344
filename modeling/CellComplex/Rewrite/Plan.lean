import CellComplex.Rule.Basic
import CellComplex.Error

/-!
# What to make, and in which order

The product of a rule is made from the bottom up: the product cells by rising dimension, each after
the cells of its boundary. Cells that a matched cell stands for are there already, and nothing
below them is made.

* `Rule.plan`: the templates to make, each once, in order.
-/

namespace CellComplex

/-- A step of planning: look at a cell, or write it down, its boundary being planned. -/
inductive Visit where
  | enter (id : CellId)
  | leave (id : CellId)
  deriving DecidableEq, Repr

namespace Rule

/-- A product cell without a template that is not bound. -/
def noTemplate (rule : Rule) (id : CellId) : StoreError :=
  .malformedRule rule.cell (.noTemplate id)

/-- How many templates have not been entered. -/
def unentered (rule : Rule) (entered : CellSet) : Nat :=
  rule.templates.keys.countP fun id => !entered.contains id

theorem unentered_insert_lt {rule : Rule} {entered : CellSet} {id : CellId} {t : Template}
    (ht : rule.template? id = some t) (hid : entered.contains id = false) :
    rule.unentered (entered.insert id) < rule.unentered entered := by
  have hmem : id ∈ rule.templates.keys := by
    rw [Std.TreeMap.mem_keys, Std.TreeMap.mem_iff_isSome_getElem?]
    have : rule.templates[id]? = some t := ht
    rw [this]
    rfl
  unfold unentered
  generalize rule.templates.keys = ids at hmem
  induction ids with
  | nil => cases hmem
  | cons x ids ih =>
    have hle : ids.countP (fun y => !(entered.insert id).contains y) ≤
        ids.countP fun y => !entered.contains y := by
      refine List.countP_mono_left fun y _ h => ?_
      simp only [Std.TreeSet.contains_insert, Bool.not_or, Bool.and_eq_true] at h
      exact h.2
    simp only [List.countP_cons]
    by_cases hx : x = id
    · subst hx
      simp only [Std.TreeSet.contains_insert_self, hid, Bool.not_true, Bool.not_false,
        Bool.false_eq_true, if_true, if_false]
      omega
    · have := ih ((List.mem_cons.mp hmem).resolve_left (Ne.symm hx))
      have hsame : (entered.insert id).contains x = entered.contains x := by
        rw [Std.TreeSet.contains_insert]
        have hne : (compare id x == Ordering.eq) = false := by
          simpa using Ne.symm hx
        rw [hne, Bool.false_or]
      rw [hsame]
      omega

/-- Goes on planning: `entered` are the cells looked at, `planned` the cells written down, latest
first, and the list holds the steps still to take. -/
def planFrom (rule : Rule) (isBound : CellId → Bool) (entered : CellSet)
    (planned : List CellId) : List Visit → Except StoreError (List CellId)
  | [] => .ok planned.reverse
  | .leave id :: rest => rule.planFrom isBound entered (id :: planned) rest
  | .enter id :: rest =>
    if _hskip : entered.contains id || isBound id then rule.planFrom isBound entered planned rest
    else
      match ht : rule.template? id with
      | none => .error (rule.noTemplate id)
      | some t =>
        rule.planFrom isBound (entered.insert id) planned
          (t.boundary.map .enter ++ .leave id :: rest)
termination_by steps => (rule.unentered entered, steps.length)
decreasing_by
  · exact Prod.Lex.right _ (by simp)
  · exact Prod.Lex.right _ (by simp)
  · have hid : entered.contains id = false := by
      cases h : entered.contains id with
      | false => rfl
      | true => rw [h] at _hskip; exact absurd (Bool.true_or _) _hskip
    exact Prod.Lex.left _ _ (unentered_insert_lt ht hid)

/-- The product cells that no matched cell stands for, with their dimensions. -/
def unboundProduct (rule : Rule) (isBound : CellId → Bool) :
    Except StoreError (List (Nat × CellId)) :=
  (rule.product.filter fun id => !isBound id).mapM fun id =>
    match rule.template? id with
    | some t => .ok (t.dimension, id)
    | none => .error (rule.noTemplate id)

/-- The templates to make, in order. -/
def plan (rule : Rule) (isBound : CellId → Bool) : Except StoreError (List CellId) := do
  let roots ← rule.unboundProduct isBound
  let ordered := roots.mergeSort fun a b => a.1 ≤ b.1
  rule.planFrom isBound ∅ [] (ordered.map fun root => .enter root.2)

end Rule

end CellComplex
