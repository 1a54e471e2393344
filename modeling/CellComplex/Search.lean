import CellComplex.Cell.Id

/-!
# Depth-first search

Three questions about cells are searches: what lies below a boundary, what a term reaches along
edges, and which templates a product needs. All three walk depth first, visit no id twice, and may
stop at an id with a failure.

* `Branching`: where to go from an id. Only finitely many ids lead anywhere.
* `Branching.preorder`: the ids in the order of their first visit.
* `Branching.pruned`: a search that puts no id on its stack that was visited already.
* `Branching.paintFrom`: the same walk, for many searches one after the other. What a search visits
  gets its color, and the colors of earlier searches stay where it does not come by.

The search ends because every visit of an id that leads somewhere uses up one of the finitely many,
and every other step shortens the stack.
-/

namespace CellComplex

/-- Where a search goes from an id, or why it stops there. -/
structure Branching (ε : Type) where
  next : CellId → Except ε (List CellId)
  finite : ∃ inner : List CellId, ∀ id ids, next id = .ok ids → ids ≠ [] → id ∈ inner

namespace Branching

variable {ε : Type}

/-- How many of the ids that lead anywhere are still to be visited. -/
noncomputable def unseen (b : Branching ε) (seen : CellId → Bool) : Nat :=
  b.finite.choose.countP fun id => !seen id

theorem unseen_le (b : Branching ε) {seen seen' : CellId → Bool}
    (h : ∀ x, seen x = true → seen' x = true) : b.unseen seen' ≤ b.unseen seen := by
  refine List.countP_mono_left fun x _ hx => ?_
  rw [Bool.not_eq_true'] at hx ⊢
  exact Bool.eq_false_iff.mpr fun hseen => Bool.eq_false_iff.mp hx (h x hseen)

/-- A list loses something to a stronger test if one of its members passes only the weaker one. -/
theorem countP_lt_countP {α : Type} {p q : α → Bool} {l : List α} {a : α}
    (hpq : ∀ x, p x = true → q x = true) (ha : a ∈ l) (hp : p a = false) (hq : q a = true) :
    l.countP p < l.countP q := by
  induction l with
  | nil => cases ha
  | cons x l ih =>
    have hle : l.countP p ≤ l.countP q := List.countP_mono_left fun y _ h => hpq y h
    rcases List.mem_cons.mp ha with rfl | ha
    · simp only [List.countP_cons, hp, hq, if_true]
      simp only [Bool.false_eq_true, if_false]
      omega
    · have := ih ha
      simp only [List.countP_cons]
      cases hx : p x with
      | false => simp only [Bool.false_eq_true, if_false]; split <;> omega
      | true => simp only [hpq x hx, if_true]; omega

theorem unseen_lt (b : Branching ε) {seen seen' : CellId → Bool} {id : CellId} {ids : List CellId}
    (h : ∀ x, seen x = true → seen' x = true) (hnext : b.next id = .ok ids) (hids : ids ≠ [])
    (hseen : seen id = false) (hseen' : seen' id = true) : b.unseen seen' < b.unseen seen := by
  refine countP_lt_countP (a := id) (fun x hx => ?_) (b.finite.choose_spec id ids hnext hids) ?_ ?_
  · rw [Bool.not_eq_true'] at hx ⊢
    exact Bool.eq_false_iff.mpr fun hx' => Bool.eq_false_iff.mp hx (h x hx')
  · rw [hseen']
    rfl
  · rw [hseen]
    rfl

/-- A visit uses up an id that leads somewhere, or shortens the stack: where an id leads, or part of
that, takes its place. -/
theorem visit_decreases (b : Branching ε) {seen seen' : CellId → Bool} {id : CellId}
    {ids pushed rest : List CellId} (h : ∀ x, seen x = true → seen' x = true)
    (hnext : b.next id = .ok ids) (hpushed : pushed.Sublist (ids ++ rest))
    (hseen : seen id = false) (hseen' : seen' id = true) :
    Prod.Lex (· < ·) (· < ·) (b.unseen seen', pushed.length)
      (b.unseen seen, (id :: rest).length) := by
  by_cases hids : ids = []
  · subst hids
    rcases Nat.lt_or_eq_of_le (b.unseen_le h) with hlt | heq
    · exact Prod.Lex.left _ _ hlt
    · rw [heq]
      exact Prod.Lex.right _ (Nat.lt_succ_of_le hpushed.length_le)
  · exact Prod.Lex.left _ _ (b.unseen_lt h hnext hids hseen hseen')

/-- Continues a search: `seen` are the ids visited, `order` the same ids, latest first, and the
list holds the ids still to look at, next one first. -/
def preorderFrom (b : Branching ε) (seen : CellSet) (order : List CellId) :
    List CellId → Except ε (List CellId)
  | [] => .ok order.reverse
  | id :: rest =>
    if _hseen : seen.contains id then b.preorderFrom seen order rest
    else
      match _hnext : b.next id with
      | .error e => .error e
      | .ok ids => b.preorderFrom (seen.insert id) (id :: order) (ids ++ rest)
termination_by stack => (b.unseen seen.contains, stack.length)
decreasing_by
  · exact Prod.Lex.right _ (by simp)
  · refine b.visit_decreases (fun x hx => ?_) _hnext (.refl _) (Bool.not_eq_true _ ▸ _hseen) ?_
    · rw [Std.TreeSet.contains_insert, hx, Bool.or_true]
    · exact Std.TreeSet.contains_insert_self

/-- The ids reached from `start`, each once, in the order of their first visit. -/
def preorder (b : Branching ε) (start : List CellId) : Except ε (List CellId) :=
  b.preorderFrom ∅ [] start

/-- What of some ids was not visited yet. -/
def unvisited (seen : CellSet) (ids : List CellId) : List CellId :=
  ids.filter fun id => !seen.contains id

/-- Continues a search that leaves out what was visited already when it puts ids on the stack. -/
def prunedFrom (b : Branching ε) (seen : CellSet) (order : List CellId) :
    List CellId → Except ε (List CellId)
  | [] => .ok order.reverse
  | id :: rest =>
    if _hseen : seen.contains id then b.prunedFrom seen order rest
    else
      match _hnext : b.next id with
      | .error e => .error e
      | .ok ids =>
        b.prunedFrom (seen.insert id) (id :: order) (unvisited (seen.insert id) ids ++ rest)
termination_by stack => (b.unseen seen.contains, stack.length)
decreasing_by
  · exact Prod.Lex.right _ (by simp)
  · refine b.visit_decreases (fun x hx => ?_) _hnext (List.filter_sublist.append (.refl _))
      (Bool.not_eq_true _ ▸ _hseen) ?_
    · rw [Std.TreeSet.contains_insert, hx, Bool.or_true]
    · exact Std.TreeSet.contains_insert_self

/-- The ids reached from `start`, each once, by a search that leaves out what was visited. -/
def pruned (b : Branching ε) (start : List CellId) : Except ε (List CellId) :=
  b.prunedFrom ∅ [] start

/-- Continues a search that gives all it visits a color, painting over earlier colors. The list
holds the ids still to look at, next one first. -/
def paintFrom (b : Branching ε) (color : Nat) (paint : Std.TreeMap CellId Nat) :
    List CellId → Except ε (Std.TreeMap CellId Nat)
  | [] => .ok paint
  | id :: rest =>
    if _hseen : (paint[id]? == some color) = true then b.paintFrom color paint rest
    else
      match _hnext : b.next id with
      | .error e => .error e
      | .ok ids => b.paintFrom color (paint.insert id color) (ids ++ rest)
termination_by stack => (b.unseen fun x => paint[x]? == some color, stack.length)
decreasing_by
  · exact Prod.Lex.right _ (by simp)
  · refine b.visit_decreases (fun x hx => ?_) _hnext (.refl _) (Bool.not_eq_true _ ▸ _hseen) ?_
    · rw [Std.TreeMap.getElem?_insert]
      split
      · exact beq_self_eq_true _
      · exact hx
    · rw [Std.TreeMap.getElem?_insert_self]
      exact beq_self_eq_true _

end Branching

end CellComplex
