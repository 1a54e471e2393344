import CellComplex.Search
import CellComplex.Space.Basic

/-!
# Walking along edges

An edge from `x` to `y` reads "x is y". The extension of a point holds everything that is the point,
the intension everything that the point is, directly or through other points.

* `neighbours`: one step. Only live edges count, in the order of their ids.
* `extension`, `intension`: all steps, depth first, each point at its first visit.
-/

namespace CellComplex

/-- Which way edges are followed. -/
inductive Direction where
  /-- Against the edges: to what is the point. -/
  | extension
  /-- Along the edges: to what the point is. -/
  | intension
  deriving DecidableEq, Repr

namespace Space

/-- The end of an edge that one step from `id` leads to. -/
def farEnd (direction : Direction) (id : CellId) (boundary : List CellId) : Option CellId :=
  match boundary, direction with
  | [source, target], .extension => if target = id then some source else none
  | [source, target], .intension => if source = id then some target else none
  | _, _ => none

/-- The points one step away. -/
def neighbours (sp : Space) (direction : Direction) (id : CellId) : List CellId :=
  (sp.cofacesOf id).toList.filterMap fun edge =>
    (sp.find? edge).bind fun c => if c.isEdge then farEnd direction id c.boundary else none

theorem mem_keys_of_neighbours {sp : Space} {direction : Direction} {id : CellId}
    (h : sp.neighbours direction id ≠ []) :
    id ∈ sp.stores.flatMap fun s => s.index.cofaces.keys := by
  obtain ⟨y, hy⟩ := List.exists_mem_of_ne_nil _ h
  obtain ⟨edge, hedge, _⟩ := List.mem_filterMap.mp hy
  obtain ⟨s, hs, hmem⟩ := mem_gather.mp (Std.TreeSet.mem_toList.mp hedge)
  refine List.mem_flatMap.mpr ⟨s, hs, Std.TreeMap.mem_keys.mpr ?_⟩
  refine Decidable.byContradiction fun hid => ?_
  have hempty : s.cofacesOf id = ∅ := Std.TreeMap.getD_eq_fallback hid
  rw [hempty] at hmem
  exact Std.TreeSet.not_mem_emptyc hmem

/-- Following edges as a search. -/
def steps (sp : Space) (direction : Direction) : Branching StoreError where
  next id := .ok (sp.neighbours direction id)
  finite := by
    refine ⟨sp.stores.flatMap fun s => s.index.cofaces.keys, fun id ids h hne => ?_⟩
    cases h
    exact mem_keys_of_neighbours hne

/-- Everything reached from a point, the point first. -/
def walk (sp : Space) (direction : Direction) (start : CellId) :
    Except StoreError (List CellId) := do
  requirePoint (← sp.resolve start)
  (sp.steps direction).pruned [start]

/-- Everything that is the point. -/
def extension (sp : Space) (start : CellId) : Except StoreError (List CellId) :=
  sp.walk .extension start

/-- Everything that the point is. -/
def intension (sp : Space) (start : CellId) : Except StoreError (List CellId) :=
  sp.walk .intension start

end Space

end CellComplex
