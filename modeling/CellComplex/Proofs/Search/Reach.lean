import CellComplex.Search
import Mathlib.Data.List.Nodup
import Mathlib.Logic.Relation

/-!
# What a search reaches

A search walks along `Branching.next`. This file says what its answer means, without the order in
which the ids were met:

* `Branching.Leads`: one step of a search; `Branching.Reached`: any number of steps from the start;
* `Branching.Explored`: the invariant of the walk -- whatever was visited is visited with all its
  successors, except those that still wait on the stack;
* **`mem_preorder`**: a search that ends well lists exactly the ids it can reach, each once
  (`preorder_nodup`), and no step from any of them fails (`preorder_next`);
* **`preorder_eq_error`**: a search that fails has reached an id where the step fails;
* **`paintFrom_eq_preorder`**: a search with a new color does what a search of its own does,
  whatever other searches have painted.
-/

namespace CellComplex

namespace Branching

variable {ε : Type} {b : Branching ε}

/-! ## 1. Steps -/

/-- One step of a search. -/
def Leads (b : Branching ε) (x y : CellId) : Prop := ∃ ids, b.next x = .ok ids ∧ y ∈ ids

/-- What any number of steps reaches from some ids. -/
def Reached (b : Branching ε) (start : List CellId) (y : CellId) : Prop :=
  ∃ x ∈ start, Relation.ReflTransGen b.Leads x y

theorem reached_of_mem {start : List CellId} {x : CellId} (h : x ∈ start) : b.Reached start x :=
  ⟨x, h, .refl⟩

theorem Reached.mono {start start' : List CellId} {y : CellId} (h : b.Reached start y)
    (hsub : ∀ x ∈ start, b.Reached start' x) : b.Reached start' y := by
  obtain ⟨x, hx, hxy⟩ := h
  obtain ⟨z, hz, hzx⟩ := hsub x hx
  exact ⟨z, hz, hzx.trans hxy⟩

/-- What the successors of an id reach, the id reaches. -/
theorem Reached.of_next {id : CellId} {ids rest : List CellId} {y : CellId}
    (hnext : b.next id = .ok ids) (h : b.Reached (ids ++ rest) y) : b.Reached (id :: rest) y := by
  refine h.mono fun x hx => ?_
  rcases List.mem_append.mp hx with hx | hx
  · exact ⟨id, List.mem_cons_self, .single ⟨ids, hnext, hx⟩⟩
  · exact reached_of_mem (List.mem_cons_of_mem _ hx)

/-! ## 2. The invariant of the walk -/

/-- What holds while a search walks: `seen` and `order` are the same ids, each once, and the
successors of a visited id are visited or wait on the stack. -/
structure Explored (b : Branching ε) (seen : CellSet) (order stack : List CellId) : Prop where
  mem_seen : ∀ x, x ∈ seen ↔ x ∈ order
  nodup : order.Nodup
  closed : ∀ x ∈ order, ∃ ids, b.next x = .ok ids ∧ ∀ y ∈ ids, y ∈ order ∨ y ∈ stack

/-- A set and a list that hold the same take in one more id. -/
theorem mem_insert_iff {seen : CellSet} {order : List CellId} {id : CellId}
    (h : ∀ x, x ∈ seen ↔ x ∈ order) (x : CellId) : x ∈ seen.insert id ↔ x ∈ id :: order := by
  rw [Std.TreeSet.mem_insert, h, List.mem_cons, Std.LawfulEqCmp.compare_eq_iff_eq, eq_comm]

theorem explored_start (stack : List CellId) : Explored b ∅ [] stack where
  mem_seen x := by simp
  nodup := List.nodup_nil
  closed x hx := absurd hx List.not_mem_nil

theorem Explored.skip {seen : CellSet} {order rest : List CellId} {id : CellId}
    (h : Explored b seen order (id :: rest)) (hid : id ∈ seen) : Explored b seen order rest where
  mem_seen := h.mem_seen
  nodup := h.nodup
  closed x hx := by
    obtain ⟨ids, hnext, hids⟩ := h.closed x hx
    refine ⟨ids, hnext, fun y hy => ?_⟩
    rcases hids y hy with hy | hy
    · exact Or.inl hy
    · rcases List.mem_cons.mp hy with rfl | hy
      · exact Or.inl ((h.mem_seen _).mp hid)
      · exact Or.inr hy

theorem Explored.visit {seen : CellSet} {order rest ids : List CellId} {id : CellId}
    (h : Explored b seen order (id :: rest)) (hid : id ∉ seen) (hnext : b.next id = .ok ids) :
    Explored b (seen.insert id) (id :: order) (ids ++ rest) where
  mem_seen := mem_insert_iff h.mem_seen
  nodup := List.nodup_cons.mpr ⟨fun hmem => hid ((h.mem_seen _).mpr hmem), h.nodup⟩
  closed x hx := by
    rcases List.mem_cons.mp hx with rfl | hx
    · exact ⟨ids, hnext, fun y hy => Or.inr (List.mem_append_left _ hy)⟩
    · obtain ⟨ids', hnext', hids'⟩ := h.closed x hx
      refine ⟨ids', hnext', fun y hy => ?_⟩
      rcases hids' y hy with hy | hy
      · exact Or.inl (List.mem_cons_of_mem _ hy)
      · rcases List.mem_cons.mp hy with rfl | hy
        · exact Or.inl List.mem_cons_self
        · exact Or.inr (List.mem_append_right _ hy)

/-- **The invariant at the end of a walk**: nothing waits any more, and neither what was visited
before nor what waited is lost. -/
theorem explored_preorderFrom {seen : CellSet} {order stack r : List CellId}
    (h : Explored b seen order stack) (hr : b.preorderFrom seen order stack = .ok r) :
    (∃ seen', Explored b seen' r.reverse []) ∧ (∀ x ∈ order, x ∈ r) ∧ ∀ x ∈ stack, x ∈ r := by
  fun_induction b.preorderFrom seen order stack generalizing r with
  | case1 seen order =>
    cases hr
    refine ⟨⟨seen, ?_⟩, fun x hx => List.mem_reverse.mpr hx, fun x hx => absurd hx List.not_mem_nil⟩
    rw [List.reverse_reverse]
    exact h
  | case2 seen order id rest hseen ih =>
    have hid : id ∈ seen := hseen
    obtain ⟨hend, horder, hstack⟩ := ih (h.skip hid) hr
    refine ⟨hend, horder, fun x hx => ?_⟩
    rcases List.mem_cons.mp hx with rfl | hx
    · exact horder _ ((h.mem_seen _).mp hid)
    · exact hstack x hx
  | case3 seen order id rest hseen e hnext => cases hr
  | case4 seen order id rest hseen ids hnext ih =>
    obtain ⟨hend, horder, hstack⟩ := ih (h.visit hseen hnext) hr
    refine ⟨hend, fun x hx => horder x (List.mem_cons_of_mem _ hx), fun x hx => ?_⟩
    rcases List.mem_cons.mp hx with rfl | hx
    · exact horder _ List.mem_cons_self
    · exact hstack x (List.mem_append_right _ hx)

/-! ## 3. Nothing else is met -/

theorem reached_preorderFrom {seen : CellSet} {order stack r : List CellId}
    (hr : b.preorderFrom seen order stack = .ok r) :
    ∀ x ∈ r, x ∈ order ∨ b.Reached stack x := by
  fun_induction b.preorderFrom seen order stack generalizing r with
  | case1 seen order =>
    cases hr
    exact fun x hx => Or.inl (List.mem_reverse.mp hx)
  | case2 seen order id rest hseen ih =>
    intro x hx
    refine (ih hr x hx).imp_right fun h => h.mono fun y hy => ?_
    exact reached_of_mem (List.mem_cons_of_mem _ hy)
  | case3 seen order id rest hseen e hnext => cases hr
  | case4 seen order id rest hseen ids hnext ih =>
    intro x hx
    rcases ih hr x hx with hx | hx
    · rcases List.mem_cons.mp hx with rfl | hx
      · exact Or.inr (reached_of_mem List.mem_cons_self)
      · exact Or.inl hx
    · exact Or.inr (hx.of_next hnext)

theorem reached_of_preorderFrom_error {seen : CellSet} {order stack : List CellId} {e : ε}
    (hr : b.preorderFrom seen order stack = .error e) :
    ∃ x, b.Reached stack x ∧ b.next x = .error e := by
  fun_induction b.preorderFrom seen order stack with
  | case1 seen order => cases hr
  | case2 seen order id rest hseen ih =>
    obtain ⟨x, hx, hnext⟩ := ih hr
    exact ⟨x, hx.mono fun y hy => reached_of_mem (List.mem_cons_of_mem _ hy), hnext⟩
  | case3 seen order id rest hseen e' hnext =>
    cases hr
    exact ⟨id, reached_of_mem List.mem_cons_self, hnext⟩
  | case4 seen order id rest hseen ids hnext ih =>
    obtain ⟨x, hx, hx'⟩ := ih hr
    exact ⟨x, hx.of_next hnext, hx'⟩

/-- What was visited first stays first. -/
theorem preorderFrom_begins {seen : CellSet} {order stack r : List CellId}
    (hr : b.preorderFrom seen order stack = .ok r) : ∃ rest, r = order.reverse ++ rest := by
  fun_induction b.preorderFrom seen order stack with
  | case1 seen order =>
    cases hr
    exact ⟨[], (List.append_nil _).symm⟩
  | case2 seen order id rest hseen ih => exact ih hr
  | case3 seen order id rest hseen e hnext => cases hr
  | case4 seen order id rest hseen ids hnext ih =>
    obtain ⟨later, rfl⟩ := ih hr
    refine ⟨id :: later, ?_⟩
    rw [List.reverse_cons, List.append_assoc]
    rfl

/-! ## 4. A whole search -/

theorem preorder_nodup {start order : List CellId} (h : b.preorder start = .ok order) :
    order.Nodup := by
  obtain ⟨⟨seen, hend⟩, _⟩ := explored_preorderFrom (explored_start start) h
  exact List.nodup_reverse.mp hend.nodup

/-- The search begins where it was told to. -/
theorem head?_preorder {x : CellId} {start order : List CellId}
    (h : b.preorder (x :: start) = .ok order) : order.head? = some x := by
  unfold preorder preorderFrom at h
  rw [dif_neg (Bool.eq_false_iff.mp Std.TreeSet.contains_emptyc)] at h
  split at h
  · cases h
  · obtain ⟨rest, rfl⟩ := preorderFrom_begins h
    rfl

theorem preorder_next {start order : List CellId} (h : b.preorder start = .ok order) :
    ∀ x ∈ order, ∃ ids, b.next x = .ok ids ∧ ∀ y ∈ ids, y ∈ order := by
  obtain ⟨⟨seen, hend⟩, _⟩ := explored_preorderFrom (explored_start start) h
  intro x hx
  obtain ⟨ids, hnext, hids⟩ := hend.closed x (List.mem_reverse.mpr hx)
  refine ⟨ids, hnext, fun y hy => ?_⟩
  exact (hids y hy).elim List.mem_reverse.mp fun hy => absurd hy List.not_mem_nil

/-- **A search that ends well lists exactly what it can reach.** -/
theorem mem_preorder {start order : List CellId} (h : b.preorder start = .ok order)
    {y : CellId} : y ∈ order ↔ b.Reached start y := by
  refine ⟨fun hy => ?_, fun h' => ?_⟩
  · exact (reached_preorderFrom h y hy).resolve_left List.not_mem_nil
  · obtain ⟨x, hx, hxy⟩ := h'
    have hstart : x ∈ order := (explored_preorderFrom (explored_start start) h).2.2 x hx
    induction hxy with
    | refl => exact hstart
    | tail _ hstep ih =>
      obtain ⟨ids, hnext, hy⟩ := hstep
      obtain ⟨ids', hnext', hids'⟩ := preorder_next h _ ih
      cases hnext.symm.trans hnext'
      exact hids' _ hy

/-- **A search that fails has reached an id where the step fails.** -/
theorem preorder_eq_error {start : List CellId} {e : ε} (h : b.preorder start = .error e) :
    ∃ x, b.Reached start x ∧ b.next x = .error e :=
  reached_of_preorderFrom_error h

/-- A search ends well if no step from what it can reach fails. -/
theorem preorder_isOk_iff {start : List CellId} :
    (∃ order, b.preorder start = .ok order) ↔
      ∀ x, b.Reached start x → ∃ ids, b.next x = .ok ids := by
  refine ⟨?_, fun h => ?_⟩
  · rintro ⟨order, h⟩ x hx
    obtain ⟨ids, hnext, _⟩ := preorder_next h x ((mem_preorder h).mpr hx)
    exact ⟨ids, hnext⟩
  · cases hp : b.preorder start with
    | ok order => exact ⟨order, rfl⟩
    | error e =>
      obtain ⟨x, hx, he⟩ := preorder_eq_error hp
      obtain ⟨ids, hids⟩ := h x hx
      rw [he] at hids
      cases hids

/-! ## 5. Searches with colors -/

section Paint

variable {color : Nat} {paint paint' : Std.TreeMap CellId Nat}

/-- A search changes no color but to its own. -/
theorem getElem?_paintFrom {stack : List CellId} (h : b.paintFrom color paint stack = .ok paint')
    (x : CellId) : paint'[x]? = some color ∨ paint'[x]? = paint[x]? := by
  fun_induction b.paintFrom color paint stack with
  | case1 paint =>
    cases h
    exact Or.inr rfl
  | case2 paint id rest hseen ih => exact ih h
  | case3 paint id rest hseen e hnext => cases h
  | case4 paint id rest hseen ids hnext ih =>
    rcases ih h with hcolor | hold
    · exact Or.inl hcolor
    · rw [Std.TreeMap.getElem?_insert] at hold
      split at hold
      · exact Or.inl hold
      · exact Or.inr hold

/-- The ids of its color are what a search has seen. -/
theorem paintFrom_eq_preorderFrom {seen : CellSet} {order stack : List CellId}
    (h : ∀ x, paint[x]? = some color ↔ x ∈ seen) :
    (b.paintFrom color paint stack).map (fun _ => ()) =
      (b.preorderFrom seen order stack).map fun _ => () := by
  fun_induction b.paintFrom color paint stack generalizing seen order with
  | case1 paint =>
    unfold preorderFrom
    rfl
  | case2 paint id rest hseen ih =>
    have hid : seen.contains id = true := (h id).mp (beq_iff_eq.mp hseen)
    unfold preorderFrom
    rw [dif_pos hid]
    exact ih h
  | case3 paint id rest hseen e hnext =>
    have hid : ¬ seen.contains id = true := fun hid => hseen (beq_iff_eq.mpr ((h id).mpr hid))
    unfold preorderFrom
    rw [dif_neg hid]
    split
    · next hnext' =>
      cases hnext.symm.trans hnext'
      rfl
    · next hnext' => cases hnext.symm.trans hnext'
  | case4 paint id rest hseen ids hnext ih =>
    have hid : ¬ seen.contains id = true := fun hid => hseen (beq_iff_eq.mpr ((h id).mpr hid))
    have hinsert : ∀ x, (paint.insert id color)[x]? = some color ↔ x ∈ seen.insert id := by
      intro x
      rw [Std.TreeMap.getElem?_insert, Std.TreeSet.mem_insert]
      split
      · next e => exact iff_of_true rfl (Or.inl e)
      · next e => exact (h x).trans (or_iff_right e).symm
    unfold preorderFrom
    rw [dif_neg hid]
    split
    · next hnext' => cases hnext.symm.trans hnext'
    · next hnext' =>
      cases hnext.symm.trans hnext'
      exact ih hinsert

/-- **A search with a new color does what a search of its own does.** -/
theorem paintFrom_eq_preorder {start : List CellId}
    (h : ∀ x : CellId, paint[x]? ≠ some color) :
    (b.paintFrom color paint start).map (fun _ => ()) =
      (b.preorder start).map fun _ => () := by
  refine paintFrom_eq_preorderFrom fun x => ?_
  exact iff_of_false (h x) Std.TreeSet.not_mem_emptyc

end Paint

end Branching

end CellComplex
