import CellComplex.Proofs.Search.Reach

/-!
# The search as a recursion

A search keeps one stack and marks an id when it takes it off. The same ids come out, in the same
order, of the recursion that a reader has in mind: to visit an id that was visited before does
nothing; to visit another one is to note it, and then to visit where it leads, one after the other.

* `Branching.visit`: this recursion, over what is noted already;
* `visit_of_mem`, **`visit_of_not_mem`**: its two equations;
* **`preorderFrom_eq_foldlM`**: a search with a stack visits the stack, one after the other -- by
  induction along the search, since visiting two rows is visiting the first and then the second;
* **`preorder_eq_visit`**: a search from one id is a visit, failures included;
* `preorderFrom_push`: what was visited already need not be put on the stack;
* **`pruned_eq_preorder`**: a search that leaves it out finds the same;
* `Branching.within`, **`preorder_of_within`**: a search that is through after so many steps, to
  evaluate it.
-/

namespace CellComplex

namespace Branching

variable {ε : Type} {b : Branching ε}

/-! ## 1. The recursion -/

/-- Visits some ids one after the other. The result holds what was noted before, and by that the
recursion ends. -/
def visitRow (b : Branching ε) (done : List CellId) :
    List CellId → Except ε {out : List CellId // ∀ x ∈ done, x ∈ out}
  | [] => .ok ⟨done, fun _ hx => hx⟩
  | id :: rest =>
    if _hdone : id ∈ done then b.visitRow done rest
    else
      match _hnext : b.next id with
      | .error e => .error e
      | .ok ids =>
        match b.visitRow (done ++ [id]) ids with
        | .error e => .error e
        | .ok inner =>
          match b.visitRow inner.1 rest with
          | .error e => .error e
          | .ok outer =>
            .ok ⟨outer.1, fun x hx => outer.2 x (inner.2 x (List.mem_append_left _ hx))⟩
termination_by ids => (b.unseen fun x => decide (x ∈ done), ids.length)
decreasing_by
  · exact Prod.Lex.right _ (by simp)
  · exact b.visit_decreases (by simp +contextual) _hnext (List.sublist_append_left ids rest)
      (by simpa using _hdone) (by simp)
  · have hmono : b.unseen (fun x => decide (x ∈ inner.1)) ≤ b.unseen fun x => decide (x ∈ done) :=
      b.unseen_le fun x hx =>
        decide_eq_true (inner.2 x (List.mem_append_left _ (of_decide_eq_true hx)))
    rcases Nat.lt_or_eq_of_le hmono with hlt | heq
    · exact Prod.Lex.left _ _ hlt
    · rw [heq]
      exact Prod.Lex.right _ (by simp)

/-- **Visits an id**: what is noted afterwards, in the order of noting. -/
def visit (b : Branching ε) (done : List CellId) (id : CellId) : Except ε (List CellId) :=
  (b.visitRow done [id]).map Subtype.val

/-- To visit what was noted already does nothing. -/
theorem visit_of_mem {done : List CellId} {id : CellId} (h : id ∈ done) :
    b.visit done id = .ok done := by
  unfold visit
  rw [visitRow, dif_pos h, visitRow]
  rfl

/-- A row is visited one after the other. -/
theorem visitRow_eq_foldlM (done ids : List CellId) :
    (b.visitRow done ids).map Subtype.val = ids.foldlM b.visit done := by
  induction ids generalizing done with
  | nil =>
    rw [visitRow]
    rfl
  | cons id rest ih =>
    rw [List.foldlM_cons]
    by_cases hdone : id ∈ done
    · rw [visit_of_mem hdone, visitRow, dif_pos hdone]
      exact ih done
    · rw [visit, visitRow, visitRow, dif_neg hdone, dif_neg hdone]
      split
      · rfl
      · next ids hnext =>
        cases b.visitRow (done ++ [id]) ids with
        | error e => rfl
        | ok inner =>
          simp only [visitRow]
          show _ = rest.foldlM b.visit inner.1
          rw [← ih]
          cases b.visitRow inner.1 rest <;> rfl

/-- **To visit another id is to note it and to visit where it leads, one after the other.** -/
theorem visit_of_not_mem {done : List CellId} {id : CellId} (h : id ∉ done) :
    b.visit done id = b.next id >>= fun ids => ids.foldlM b.visit (done ++ [id]) := by
  unfold visit
  rw [visitRow, dif_neg h]
  split
  · next hnext =>
    rw [hnext]
    rfl
  · next ids hnext =>
    rw [hnext]
    show _ = ids.foldlM b.visit (done ++ [id])
    rw [← visitRow_eq_foldlM]
    cases b.visitRow (done ++ [id]) ids with
    | error e => rfl
    | ok inner =>
      simp only [visitRow]
      rfl

/-! ## 2. The stack -/

/-- **A search visits its stack, one after the other.** -/
theorem preorderFrom_eq_foldlM {seen : CellSet} {order stack : List CellId}
    (h : ∀ x, x ∈ seen ↔ x ∈ order) :
    b.preorderFrom seen order stack = stack.foldlM b.visit order.reverse := by
  fun_induction b.preorderFrom seen order stack with
  | case1 seen order => rfl
  | case2 seen order id rest hseen ih =>
    have hid : id ∈ order.reverse := List.mem_reverse.mpr ((h id).mp hseen)
    rw [List.foldlM_cons, visit_of_mem hid]
    exact ih h
  | case3 seen order id rest hseen e hnext =>
    have hid : id ∉ order.reverse := fun hid => hseen ((h id).mpr (List.mem_reverse.mp hid))
    rw [List.foldlM_cons, visit_of_not_mem hid, hnext]
    rfl
  | case4 seen order id rest hseen ids hnext ih =>
    have hid : id ∉ order.reverse := fun hid => hseen ((h id).mpr (List.mem_reverse.mp hid))
    -- what was pushed comes off before the rest does
    rw [ih (mem_insert_iff h), List.foldlM_append, List.reverse_cons, List.foldlM_cons,
      visit_of_not_mem hid, hnext]
    rfl

/-- **A search from one id is a visit.** -/
theorem preorder_eq_visit (b : Branching ε) (start : CellId) :
    b.preorder [start] = b.visit [] start := by
  unfold preorder
  rw [preorderFrom_eq_foldlM (by simp), List.reverse_nil, List.foldlM_cons]
  cases b.visit [] start <;> rfl

/-! ## 3. What need not wait -/

/-- A visit forgets nothing. -/
theorem mem_of_visit {done out : List CellId} {id x : CellId} (h : b.visit done id = .ok out)
    (hx : x ∈ done) : x ∈ out := by
  unfold visit at h
  cases hrow : b.visitRow done [id] with
  | error e =>
    rw [hrow] at h
    cases h
  | ok inner =>
    rw [hrow] at h
    cases h
    exact inner.2 x hx

/-- What was noted before may be left out of a row. -/
theorem foldlM_visit_filter {done : List CellId} {p : CellId → Bool}
    (h : ∀ x, p x = false → x ∈ done) (ids : List CellId) :
    (ids.filter p).foldlM b.visit done = ids.foldlM b.visit done := by
  induction ids generalizing done with
  | nil => rfl
  | cons id rest ih =>
    rw [List.foldlM_cons]
    cases hp : p id with
    | false =>
      rw [List.filter_cons_of_neg (by simp [hp]), visit_of_mem (h id hp)]
      exact ih h
    | true =>
      rw [List.filter_cons_of_pos hp, List.foldlM_cons]
      cases hvisit : b.visit done id with
      | error e => rfl
      | ok mid => exact ih fun x hx => mem_of_visit hvisit (h x hx)

/-- **What was visited already need not be put on the stack**: the search finds the same. -/
theorem preorderFrom_push {seen : CellSet} {order rest ids : List CellId} {id : CellId}
    (h : ∀ x, x ∈ seen ↔ x ∈ order) (hid : id ∉ seen) (hnext : b.next id = .ok ids) :
    b.preorderFrom seen order (id :: rest) =
      b.preorderFrom (seen.insert id) (id :: order) (unvisited (seen.insert id) ids ++ rest) := by
  have hinsert : ∀ x, x ∈ seen.insert id ↔ x ∈ id :: order := mem_insert_iff h
  have hdone : ∀ x, (!(seen.insert id).contains x) = false → x ∈ (id :: order).reverse := by
    intro x hx
    rw [Bool.not_eq_false'] at hx
    exact List.mem_reverse.mpr ((hinsert x).mp hx)
  rw [preorderFrom_eq_foldlM h, preorderFrom_eq_foldlM hinsert, List.foldlM_append, unvisited,
    foldlM_visit_filter hdone, List.foldlM_cons,
    visit_of_not_mem fun hmem => hid ((h id).mpr (List.mem_reverse.mp hmem)), hnext,
    List.reverse_cons]
  rfl

/-- A search that leaves out what was visited goes on as one that does not, by induction along the
search. -/
theorem prunedFrom_eq_preorderFrom {seen : CellSet} {order stack : List CellId}
    (h : ∀ x, x ∈ seen ↔ x ∈ order) :
    b.prunedFrom seen order stack = b.preorderFrom seen order stack := by
  fun_induction b.prunedFrom seen order stack with
  | case1 seen order => rw [preorderFrom]
  | case2 seen order id rest hseen ih =>
    rw [preorderFrom, dif_pos hseen]
    exact ih h
  | case3 seen order id rest hseen e hnext =>
    rw [preorderFrom_eq_foldlM h, List.foldlM_cons, visit_of_not_mem, hnext]
    · rfl
    · exact fun hid => hseen ((h id).mpr (List.mem_reverse.mp hid))
  | case4 seen order id rest hseen ids hnext ih =>
    rw [ih (mem_insert_iff h)]
    exact (preorderFrom_push h hseen hnext).symm

/-- **A search that leaves out what was visited finds the same**, failures included. -/
theorem pruned_eq_preorder (b : Branching ε) (start : List CellId) :
    b.pruned start = b.preorder start := prunedFrom_eq_preorderFrom (by simp)

/-! ## 4. Counted steps -/

/-- A search by its steps, if so many are enough. The measure of the search itself cannot be
evaluated, since what leads anywhere is only known to be finite. -/
def within (b : Branching ε) : Nat → List CellId → List CellId → Option (List CellId)
  | _, order, [] => some order.reverse
  | 0, _, _ :: _ => none
  | n + 1, order, id :: rest =>
    if id ∈ order then b.within n order rest
    else
      match b.next id with
      | .error _ => none
      | .ok ids => b.within n (id :: order) (ids ++ rest)

theorem foldlM_visit_of_within {n : Nat} {order stack out : List CellId}
    (h : b.within n order stack = some out) : stack.foldlM b.visit order.reverse = .ok out := by
  induction n generalizing order stack with
  | zero =>
    cases stack with
    | nil => exact congrArg Except.ok (Option.some.inj h)
    | cons id rest => cases h
  | succ n ih =>
    cases stack with
    | nil => exact congrArg Except.ok (Option.some.inj h)
    | cons id rest =>
      unfold within at h
      rw [List.foldlM_cons]
      split at h
      · next hid =>
        rw [visit_of_mem (List.mem_reverse.mpr hid)]
        exact ih h
      · next hid =>
        rw [visit_of_not_mem fun hmem => hid (List.mem_reverse.mp hmem)]
        split at h
        · cases h
        · next ids hnext =>
          have hrow := ih h
          rw [List.foldlM_append, List.reverse_cons] at hrow
          rw [hnext]
          exact hrow

/-- **A search that is through after so many steps has found this.** -/
theorem preorder_of_within {n : Nat} {start out : List CellId}
    (h : b.within n [] start = some out) : b.preorder start = .ok out :=
  (preorderFrom_eq_foldlM (by simp)).trans (foldlM_visit_of_within h)

end Branching

end CellComplex
