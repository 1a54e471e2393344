import CellComplex.Proofs.Evidence.Walk

/-!
# The order of a walk

A walk keeps a stack, so that long chains of edges are no chains of calls. Its order is that of the
recursion all the same, in every space: whatever stores there are, whether or not their indexes are
fresh, and however the edges run -- in circles, twice between two points, or to a point that was
reached before by a longer way.

* `Space.Onward`: the edges that lead on from a point, ascending, and where they lead;
* `onward_neighbours`: the walk goes on along these edges, in this order;
* `Space.visit`: to visit a point is to note it, unless it is noted, and to visit where it leads;
* **`walk_eq_visit`**: the extension and the intension of a point are what a visit to it notes.
-/

namespace CellComplex

namespace Space

variable {sp : Space} {direction : Direction} {u : CellId}

/-- **The edges that lead on from `u`, and where they lead**: the edges, ascending, are the live
ones among the indexed cofaces of `u` that have `u` at their near end, and the ends are their far
ends. -/
structure Onward (sp : Space) (direction : Direction) (u : CellId) (edges ends : List CellId) :
    Prop where
  ascending : edges.Pairwise fun e e' => compare e e' = .lt
  mem_iff : ∀ e, e ∈ edges ↔ e ∈ sp.cofacesOf u ∧ ∃ o v, sp.find? e = some o ∧
    o.isLive = true ∧ o.dimension = 1 ∧ o.boundary = direction.ends u v
  ends : edges.Forall₂ (fun e v => ∃ o, sp.find? e = some o ∧ o.boundary = direction.ends u v) ends

/-- The members of a list with a value, beside their values. -/
theorem forall₂_filterMap {α β : Type} (f : α → Option β) (l : List α) :
    (l.filter fun a => (f a).isSome).Forall₂ (fun a b => f a = some b) (l.filterMap f) := by
  induction l with
  | nil => exact .nil
  | cons a l ih =>
    cases h : f a with
    | none => simpa [h] using ih
    | some b => simpa [h] using ih

/-- **A walk goes on along these edges, in this order.** -/
theorem onward_neighbours (sp : Space) (direction : Direction) (u : CellId) :
    ∃ edges, sp.Onward direction u edges (sp.neighbours direction u) := by
  refine ⟨(sp.cofacesOf u).toList.filter fun e => (sp.leadsTo? direction u e).isSome, ?_, ?_, ?_⟩
  · exact Std.TreeSet.ordered_toList.filter _
  · intro e
    rw [List.mem_filter, Std.TreeSet.mem_toList, Option.isSome_iff_exists, exists_comm]
    exact and_congr_right fun _ => exists_congr fun v => leadsTo?_eq_some
  · refine (forall₂_filterMap (sp.leadsTo? direction u) _).imp fun e v h => ?_
    obtain ⟨o, ho, _, _, hends⟩ := leadsTo?_eq_some.mp h
    exact ⟨o, ho, hends⟩

/-- **Visits a point**: what is noted afterwards, in the order of noting. -/
def visit (sp : Space) (direction : Direction) :
    List CellId → CellId → Except StoreError (List CellId) :=
  (sp.steps direction).visit

/-- A point that is not noted is noted, and then its far ends are visited. -/
theorem visit_onward {done : List CellId} (h : u ∉ done) :
    ∃ edges ends, sp.Onward direction u edges ends ∧
      sp.visit direction done u = ends.foldlM (sp.visit direction) (done ++ [u]) := by
  obtain ⟨edges, hedges⟩ := onward_neighbours sp direction u
  exact ⟨edges, _, hedges, Branching.visit_of_not_mem h⟩

theorem walk_eq_visit_nil {start : CellId} (hstart : sp.lookup.IsPoint start)
    (direction : Direction) : sp.walk direction start = sp.visit direction [] start := by
  obtain ⟨c, hc, hpoint⟩ := hstart
  exact (walk_eq_preorder direction hc hpoint).trans (Branching.preorder_eq_visit _ start)

end Space

/-- **A walk is recursive depth-first preorder.** In every space, its indexes fresh or stale, each
point has an extension and an intension, and these are what a recursive visit to the point notes. To
visit what is noted does nothing; to visit another point is to note it, and then to visit, one after
the other and in the order of the edges, the far ends of the live edges among its indexed cofaces
that have it at their near end. -/
theorem walk_eq_visit {sp : Space} {start : CellId} (hstart : sp.lookup.IsPoint start) :
    (∃ below, sp.extension start = .ok below ∧ sp.visit .extension [] start = .ok below) ∧
      (∃ above, sp.intension start = .ok above ∧ sp.visit .intension [] start = .ok above) ∧
      ∀ direction, (∀ done u, u ∈ done → sp.visit direction done u = .ok done) ∧
        ∀ done u, u ∉ done → ∃ edges ends, sp.Onward direction u edges ends ∧
          sp.visit direction done u = ends.foldlM (sp.visit direction) (done ++ [u]) := by
  have hwalk : ∀ direction, ∃ order, sp.walk direction start = .ok order ∧
      sp.visit direction [] start = .ok order := by
    intro direction
    obtain ⟨c, hc, hpoint⟩ := hstart
    obtain ⟨order, horder, _⟩ := Space.walk_eq_ok direction hc hpoint
    exact ⟨order, horder, (Space.walk_eq_visit_nil ⟨c, hc, hpoint⟩ direction).symm.trans horder⟩
  exact ⟨hwalk .extension, hwalk .intension, fun direction =>
    ⟨fun done u => Branching.visit_of_mem, fun done u => Space.visit_onward⟩⟩

/-- A store over the circle of edges. Its index knows an edge to a third point, and not the edge that
was made after it was built. -/
def ringOver : Space :=
  [Operation.create "c" [], .create "ac" [⟨0, 0⟩, ⟨1, 0⟩], .buildIndex,
    .create "bc" [⟨0, 1⟩, ⟨1, 0⟩]].foldl (fun sp op => (op.edit.apply sp).2) ⟨.empty 1, [ring]⟩

/-- The two parallel edges lead to one point, the circle leads back, and the third point is last. -/
theorem walk_eq_visit_ringOver :
    ringOver.isStale = true ∧
      ringOver.visit .intension [] ⟨0, 0⟩ = .ok [⟨0, 0⟩, ⟨0, 1⟩, ⟨1, 0⟩] := by
  have ha : ringOver.lookup.IsPoint ⟨0, 0⟩ := by decide +kernel
  obtain ⟨_, ⟨above, habove, hvisit⟩, _⟩ := walk_eq_visit ha
  have horder : ringOver.intension ⟨0, 0⟩ = .ok [⟨0, 0⟩, ⟨0, 1⟩, ⟨1, 0⟩] :=
    Space.walk_of_within ha 6 (by decide +kernel)
  cases habove.symm.trans horder
  exact ⟨by decide +kernel, hvisit⟩

end CellComplex
