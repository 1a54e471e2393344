import CellComplex.Proofs.Evidence.Query
import CellComplex.Proofs.Space.Apply

/-!
# A question by a full scan

A question can be answered without the coface index, by going through all cells of dimension one.
That is slow, and what the index is for; here both are shown to give the same.

* `Space.scan`: the live cells of layer 1 with a label and a boundary, in the order of the layer;
* `listed_scan`: in a consistent store the scan finds the answers, oldest first;
* `findLink?_eq_head?`: a link that is looked for is the first of the scan;
* `Store.relabel`, **`Grows.isStale_eq`**: other labels leave a fresh index fresh;
* **`candidates_eq_scan`**: candidates, links and queries agree with the scan.
-/

namespace CellComplex

/-! ## 1. The scan -/

/-- The live cells of layer 1 with a label and the boundary `[x, y]`, in the order of the layer. -/
def Space.scan (sp : Space) (label : String) (x y : CellId) : List CellId :=
  (sp.layer 1).filter fun id =>
    sp.satisfies id fun c => c.isLive && c.label == label && c.boundary == [x, y]

namespace Store

variable {s t : Store} {label : String} {x y id : CellId}

theorem layer_ofStore (s : Store) (n : Nat) : (Space.ofStore s).layer n = s.layer n := by
  simp [Space.layer, Space.stores, Space.ofStore]

section Consistent

variable (h : s.Consistent)
include h

theorem Consistent.mem_scan :
    id ∈ (Space.ofStore s).scan label x y ↔ s.Answers label x y id := by
  unfold Space.scan Space.satisfies
  rw [List.mem_filter, layer_ofStore, h.mem_layer, find?_ofStore, Option.any_eq_true]
  refine ⟨fun hid => ?_, fun hid => ?_⟩
  · obtain ⟨⟨c, hc, hone⟩, c', hc', htest⟩ := hid
    cases hc.symm.trans hc'
    simp only [Bool.and_eq_true, beq_iff_eq] at htest
    exact ⟨c, hc, htest.1.1, hone, htest.1.2, htest.2⟩
  · obtain ⟨c, hc, hsay⟩ := hid
    refine ⟨⟨c, hc, hsay.dimension⟩, c, hc, ?_⟩
    simp [hsay.isLive, hsay.label_eq, hsay.boundary]

/-- **The scan finds the answers, oldest first.** -/
theorem Consistent.listed_scan : Space.Listed label x y s ((Space.ofStore s).scan label x y) where
  nodup := by
    unfold Space.scan
    rw [layer_ofStore]
    exact (h.layer_nodup 1).filter _
  mem_iff _ := h.mem_scan
  ascending := by
    unfold Space.scan
    rw [layer_ofStore]
    exact (h.layer_ascending 1).filter _

/-- **A link from `x` to `y` is the first of the scan.** -/
theorem Consistent.findLink?_eq_head? :
    (Space.ofStore s).findLink? x y label true = ((Space.ofStore s).scan label x y).head? := by
  unfold Space.findLink? Space.scan
  rw [← List.head?_filter]
  -- the two tests differ in what they ask of the dimension and of the number of ends
  refine congrArg List.head? (List.filter_congr fun id hid => ?_)
  rw [layer_ofStore, h.mem_layer] at hid
  obtain ⟨c, hc, hone⟩ := hid
  unfold Space.satisfies
  rw [find?_ofStore, hc, Option.any_some, Option.any_some, Bool.eq_iff_iff]
  simp only [Bool.and_eq_true, Space.isEdge_iff, Space.joins, Bool.not_true, Bool.false_and,
    Bool.or_false, beq_iff_eq]
  refine ⟨fun hlink => ⟨⟨hlink.1.1.2.2, hlink.1.2⟩, hlink.2⟩, fun hscan => ?_⟩
  have hlen : c.boundary.length = edgeEnds := by rw [hscan.2]; rfl
  exact ⟨⟨⟨hone, hlen, hscan.1.1⟩, hscan.1.2⟩, hscan.2⟩

end Consistent

/-! ## 2. Other labels -/

/-- Gives cells other labels, one after the other; what the store does not own keeps its label. -/
def relabel (s : Store) (labels : List (CellId × String)) : Store :=
  runAll s (labels.map fun entry => .setLabel entry.1 entry.2)

theorem generation_run_setLabel (s : Store) (id : CellId) (label : String) :
    ((Operation.setLabel id label).run s).generation = s.generation := by
  show ((Space.modifyCell id _).apply (.ofStore s)).2.top.generation = _
  cases hown : (Space.ofStore s).requireOwned id with
  | ok _ =>
    rw [Space.apply_modifyCell (Space.requireOwned_eq_ok.mp hown)]
    rfl
  | error err =>
    let change : Store → Store := fun s => s.modifyAt id.index ({ · with label })
    have hfails : ((Space.ofStore s).requireOwned id >>= fun _ => pure ((), change)) =
        .error err := by
      rw [hown]
      rfl
    rw [Space.modifyCell, Edit.apply_decide_error hfails]
    rfl

theorem generation_relabel (s : Store) (labels : List (CellId × String)) :
    (s.relabel labels).generation = s.generation := by
  induction labels generalizing s with
  | nil => rfl
  | cons entry labels ih => exact (ih _).trans (generation_run_setLabel s entry.1 entry.2)

theorem grows_relabel (s : Store) (labels : List (CellId × String)) :
    Grows s (s.relabel labels) := by
  refine (runAll_changes s fun hmem => ?_).grows
  obtain ⟨_, _, h⟩ := List.mem_map.mp hmem
  cases h

end Store

/-- An index stays as fresh as it was while nothing happens that matters to it. -/
theorem Grows.isStale_eq {s t : Store} (h : Grows s t) (hgen : t.generation = s.generation) :
    t.isStale = s.isStale := by
  unfold Store.isStale
  rw [h.index_eq, hgen]

theorem Store.Quiet.isLivePoint {s t : Store} {x : CellId} (hquiet : s.Quiet t)
    (h : s.Extends t) (hx : s.IsLivePoint x) : t.IsLivePoint x := by
  obtain ⟨c, hc, hpoint, hlive⟩ := hx
  obtain ⟨d, hd, hlive', hpoint'⟩ :=
    (hquiet.live_iff h (P := fun form => form.dimension = 0)).mpr ⟨c, hc, hlive, hpoint⟩
  exact ⟨d, hd, hpoint', hlive'⟩

/-! ## 3. Questions -/

/-- **The indexed query agrees with a full scan.** Let a reachable store have a fresh index, and let
cells get other labels after that. For every label, every live point `x` and every cell `y` of the
store, the candidates for "x label y" are exactly what a scan of layer 1 finds, in the order of the
layer, and the link from `x` to `y` is the first of them. The query gives the prior if the scan finds
nothing, the payload of the edge if it finds one, and otherwise names the first two as ambiguous. -/
theorem candidates_eq_scan {s : Store} (hs : s.Reachable) (hfresh : s.isStale = false)
    {x y : CellId} (hx : s.IsLivePoint x) (hy : s.owns y = true) (label : String)
    (labels : List (CellId × String)) {t : Store} (ht : t = s.relabel labels) :
    (Space.ofStore t).candidates label x y = (Space.ofStore t).scan label x y ∧
      (Space.ofStore t).findLink? x y label true = ((Space.ofStore t).scan label x y).head? ∧
      ((Space.ofStore t).scan label x y = [] →
        (Space.ofStore t).query label x y = .ok (Embedding.ofTruth .prior)) ∧
      (∀ edge, (Space.ofStore t).scan label x y = [edge] → ∃ c, t.find? edge = some c ∧
        (Space.ofStore t).query label x y = .ok c.embedding) ∧
      ∀ first second rest, (Space.ofStore t).scan label x y = first :: second :: rest →
        (Space.ofStore t).query label x y = .error (.ambiguous label first second) := by
  have hgrows : Grows s t := ht ▸ s.grows_relabel labels
  have hgen : t.generation = s.generation := ht ▸ s.generation_relabel labels
  have hreach : t.Reachable := ht ▸ hs.runAll _
  have hfresh' : t.isStale = false := (hgrows.isStale_eq hgen).trans hfresh
  have hx' : t.IsLivePoint x :=
    (hgrows.generation_eq_iff.2.mp hgen).isLivePoint hgrows.extends hx
  have hcands : (Space.ofStore t).candidates label x y = (Space.ofStore t).scan label x y :=
    Space.candidates_eq hreach hfresh' hx' hreach.consistent.listed_scan
  obtain ⟨cx, hcx, _⟩ := hx'.isLive
  obtain ⟨cy, hcy⟩ := Store.owns_iff.mp (hgrows.extends.owns hy)
  rw [← Store.find?_ofStore] at hcx hcy
  refine ⟨hcands, hreach.consistent.findLink?_eq_head?, fun hnone => ?_, fun edge hone => ?_,
    fun first second rest hmore => ?_⟩
  · exact Space.query_of_none hcx hcy (hcands.trans hnone)
  · obtain ⟨c, hc, _⟩ := hreach.consistent.mem_scan.mp (hone ▸ List.mem_singleton_self edge)
    exact ⟨c, hc, Space.query_of_one hcx hcy (hcands.trans hone) ((t.find?_ofStore edge).trans hc)⟩
  · exact Space.query_of_more hcx hcy (hcands.trans hmore)

/-- Edges between two points both ways, a loop, a cell with one end and an edge that was deleted. -/
def crossroads : Store :=
  runAll (.empty 0) [.create "a" [], .create "b" [], .create "is" [⟨0, 0⟩, ⟨0, 1⟩],
    .create "was" [⟨0, 0⟩, ⟨0, 1⟩], .create "is" [⟨0, 1⟩, ⟨0, 0⟩], .create "is" [⟨0, 0⟩, ⟨0, 0⟩],
    .create "is" [⟨0, 0⟩], .create "is" [⟨0, 0⟩, ⟨0, 1⟩], .delete ⟨0, 7⟩, .buildIndex]

/-- An edge that gets the label after the index was built is found, as the second of two. -/
theorem candidates_eq_scan_crossroads :
    let t := crossroads.relabel [(⟨0, 3⟩, "is"), (⟨0, 4⟩, "was"), (⟨1, 0⟩, "is")]
    (Space.ofStore t).candidates "is" ⟨0, 0⟩ ⟨0, 1⟩ = [⟨0, 2⟩, ⟨0, 3⟩] ∧
      (Space.ofStore t).findLink? ⟨0, 0⟩ ⟨0, 1⟩ "is" true = some ⟨0, 2⟩ ∧
      (Space.ofStore t).query "is" ⟨0, 0⟩ ⟨0, 1⟩ = .error (.ambiguous "is" ⟨0, 2⟩ ⟨0, 3⟩) := by
  intro t
  have hreach : crossroads.Reachable := (Store.Reachable.empty 0).runAll _
  have hx : crossroads.IsLivePoint ⟨0, 0⟩ := by decide +kernel
  have hscan : (Space.ofStore t).scan "is" ⟨0, 0⟩ ⟨0, 1⟩ = [⟨0, 2⟩, ⟨0, 3⟩] := by decide +kernel
  have hfresh : crossroads.isStale = false := by decide +kernel
  have hy : crossroads.owns ⟨0, 1⟩ = true := by decide +kernel
  obtain ⟨hcands, hlink, _, _, hmore⟩ := candidates_eq_scan hreach hfresh hx hy "is" _ (t := t) rfl
  rw [hscan] at hcands hlink
  exact ⟨hcands, hlink, hmore _ _ [] hscan⟩

end CellComplex
