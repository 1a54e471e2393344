import CellComplex.Proofs.Store.History
import CellComplex.Proofs.Store.Operation

/-!
# A fresh index is exact

The coface index is built in one pass and never patched. What it says is right as long as it says
that it is fresh.

* `Store.Coface`: a live cell that lists a live cell in its boundary;
* `mem_cofacesOf_build`: what one pass finds;
* **`Store.mem_cofacesOf_pass`**: it finds the owners of what is alive in sight;
* `Store.mem_cofacesOf_buildIndex`: in a consistent store one pass finds the cofaces;
* **`Store.Reachable.mem_cofacesOf`**: in a reachable store a fresh index holds the cofaces;
* **`isStale_runAll`**: after every run the index is fresh exactly if it was built and nothing that
  matters happened since, and then it holds the cofaces.
-/

namespace CellComplex

/-! ## 1. One pass -/

section Build

variable {look : Lookup} {cofaces : Std.TreeMap CellId CellSet} {c x : CellId}

/-- One owner is entered at those of some faces that are alive. -/
theorem mem_enterFaces {faces : List CellId} {owner : CellId} :
    x ∈ (faces.foldl (fun cofaces face =>
        if (look.find face).any Cell.isLive then CofaceIndex.enter cofaces face owner else cofaces)
      cofaces).getD c ∅ ↔
      x ∈ cofaces.getD c ∅ ∨ (owner = x ∧ c ∈ faces ∧ (look.find c).any Cell.isLive = true) := by
  induction faces generalizing cofaces with
  | nil => simp
  | cons face faces ih =>
    rw [List.foldl_cons, ih, List.mem_cons]
    split
    · next hlive =>
      unfold CofaceIndex.enter
      rw [Store.mem_getD_enter]
      refine ⟨fun h' => ?_, fun h' => ?_⟩
      · rcases h' with (h | ⟨rfl, rfl⟩) | ⟨hx, hc, hl⟩
        · exact Or.inl h
        · exact Or.inr ⟨rfl, Or.inl rfl, hlive⟩
        · exact Or.inr ⟨hx, Or.inr hc, hl⟩
      · rcases h' with h | ⟨rfl, rfl | hc, hl⟩
        · exact Or.inl (Or.inl h)
        · exact Or.inl (Or.inr ⟨rfl, rfl⟩)
        · exact Or.inr ⟨rfl, hc, hl⟩
    · next hdead =>
      refine ⟨fun h' => ?_, fun h' => ?_⟩
      · rcases h' with h | ⟨hx, hc, hl⟩
        · exact Or.inl h
        · exact Or.inr ⟨hx, Or.inr hc, hl⟩
      · rcases h' with h | ⟨hx, rfl | hc, hl⟩
        · exact Or.inl h
        · exact absurd hl hdead
        · exact Or.inr ⟨hx, hc, hl⟩

/-- An owner is entered if it is alive and no point. -/
theorem mem_enterOwner {o : Cell} :
    x ∈ (CofaceIndex.enterOwner look cofaces o).getD c ∅ ↔
      x ∈ cofaces.getD c ∅ ∨ (o.id = x ∧ o.isLive = true ∧ 1 ≤ o.dimension ∧ c ∈ o.boundary ∧
        (look.find c).any Cell.isLive = true) := by
  unfold CofaceIndex.enterOwner
  split
  · next hskip =>
    refine ⟨Or.inl, fun h => h.resolve_right ?_⟩
    intro h'
    obtain ⟨_, hlive, hpos, _, _⟩ := h'
    rw [Store.isLive_iff] at hlive
    rw [hlive, Bool.or_false, decide_eq_true_eq] at hskip
    omega
  · next hkeep =>
    rw [mem_enterFaces]
    rw [Bool.or_eq_true, decide_eq_true_eq, not_or, Bool.not_eq_true] at hkeep
    refine or_congr_right (and_congr_right fun _ => ⟨fun h => ?_, fun h => h.2.2⟩)
    exact ⟨Store.isLive_iff.mpr hkeep.2, Nat.one_le_iff_ne_zero.mpr hkeep.1, h⟩

theorem mem_enterOwners {owners : List Cell} :
    x ∈ (owners.foldl (CofaceIndex.enterOwner look) cofaces).getD c ∅ ↔
      x ∈ cofaces.getD c ∅ ∨ ∃ o ∈ owners, o.id = x ∧ o.isLive = true ∧ 1 ≤ o.dimension ∧
        c ∈ o.boundary ∧ (look.find c).any Cell.isLive = true := by
  induction owners generalizing cofaces with
  | nil => simp
  | cons o owners ih =>
    rw [List.foldl_cons, ih, mem_enterOwner, or_assoc]
    simp only [List.mem_cons, exists_eq_or_imp]

/-- **One pass finds the live owners of a live cell.** -/
theorem mem_cofacesOf_build {owners : List Cell} {generation : Nat} :
    x ∈ (CofaceIndex.build look owners generation).cofacesOf c ↔
      ∃ o ∈ owners, o.id = x ∧ o.isLive = true ∧ 1 ≤ o.dimension ∧ c ∈ o.boundary ∧
        (look.find c).any Cell.isLive = true := by
  unfold CofaceIndex.build CofaceIndex.cofacesOf
  rw [mem_enterOwners, Std.TreeMap.getD_emptyc]
  exact ⟨fun h => h.resolve_left Std.TreeSet.not_mem_emptyc, Or.inr⟩

end Build

/-! ## 2. Cofaces -/

/-- **A cell in sight that is not deleted.** -/
def Lookup.IsLive (look : Lookup) (c : CellId) : Prop :=
  ∃ f, look.find c = some f ∧ f.isLive = true

/-- **A live cell of dimension one or more that lists `c` in its boundary**, alive or not. -/
def Lookup.IsOwner (look : Lookup) (c x : CellId) : Prop :=
  ∃ o, look.find x = some o ∧ o.isLive = true ∧ 1 ≤ o.dimension ∧ c ∈ o.boundary

namespace Store

variable {s t : Store} {c x : CellId}

/-- **A live cell of dimension one or more that lists a live cell in its boundary.** -/
def Coface (s : Store) (c x : CellId) : Prop :=
  (∃ f, s.find? c = some f ∧ f.isLive = true) ∧
    ∃ o, s.find? x = some o ∧ o.isLive = true ∧ 1 ≤ o.dimension ∧ c ∈ o.boundary

/-- The cells of a store are those that it finds, if each is at its place. -/
theorem mem_cells (hslot : ∀ (i : Nat) (c : Cell), s.cells[i]? = some c → c.id = ⟨s.id, i⟩)
    {o : Cell} : o ∈ s.cells.toList ∧ o.id = x ↔ s.find? x = some o := by
  refine ⟨fun h' => ?_, fun ho => ?_⟩
  · obtain ⟨ho, rfl⟩ := h'
    obtain ⟨i, hi⟩ := List.mem_iff_getElem?.mp ho
    rw [Array.getElem?_toList] at hi
    rw [hslot i o hi]
    exact find?_eq_some_iff.mpr ⟨rfl, hi⟩
  · obtain ⟨hstore, hget⟩ := find?_eq_some_iff.mp ho
    refine ⟨Array.mem_toList_iff.mpr (Array.mem_of_getElem? hget), ?_⟩
    rw [hslot _ o hget, ← hstore]

/-- **One pass finds the owners of the cells that are alive in sight.** -/
theorem mem_cofacesOf_pass
    (hslot : ∀ (i : Nat) (c : Cell), s.cells[i]? = some c → c.id = ⟨s.id, i⟩) {look : Lookup} :
    x ∈ (s.buildIndex look).cofacesOf c ↔ s.lookup.IsOwner c x ∧ look.IsLive c := by
  show x ∈ (CofaceIndex.build look s.cells.toList s.generation).cofacesOf c ↔ _
  rw [mem_cofacesOf_build]
  refine ⟨fun h' => ?_, fun h' => ?_⟩
  · obtain ⟨o, ho, hx, hl, hpos, hc, hface⟩ := h'
    exact ⟨⟨o, (mem_cells hslot).mp ⟨ho, hx⟩, hl, hpos, hc⟩, (Option.any_eq_true _ _).mp hface⟩
  · obtain ⟨⟨o, ho, hl, hpos, hc⟩, hface⟩ := h'
    obtain ⟨hmem, hx⟩ := (mem_cells hslot).mpr ho
    exact ⟨o, hmem, hx, hl, hpos, hc, (Option.any_eq_true _ _).mpr hface⟩

/-- In a consistent store one pass finds the cofaces. -/
theorem mem_cofacesOf_buildIndex (h : s.Consistent) :
    x ∈ (s.buildIndex s.lookup).cofacesOf c ↔ s.Coface c x :=
  (mem_cofacesOf_pass h.slot).trans and_comm

/-- In a quiet history the live cells are the same, ... -/
theorem Quiet.isLive_iff (hquiet : s.Quiet t) (h : s.Extends t) :
    t.lookup.IsLive c ↔ s.lookup.IsLive c := by
  have hface : (∃ d, t.find? c = some d ∧ d.isLive = true ∧ True) ↔
      ∃ d, s.find? c = some d ∧ d.isLive = true ∧ True :=
    hquiet.live_iff (P := fun _ => True) h
  simp only [and_true] at hface
  exact hface

/-- ... and so are their owners ... -/
theorem Quiet.isOwner_iff (hquiet : s.Quiet t) (h : s.Extends t) :
    t.lookup.IsOwner c x ↔ s.lookup.IsOwner c x :=
  hquiet.live_iff (P := fun form => 1 ≤ form.dimension ∧ c ∈ form.boundary) h

/-- ... and the cofaces. -/
theorem Quiet.coface_iff (hquiet : s.Quiet t) (h : s.Extends t) : t.Coface c x ↔ s.Coface c x :=
  and_congr (hquiet.isLive_iff h) (hquiet.isOwner_iff h)

end Store

/-! ## 3. Runs -/

/-- Every operation only extends. -/
theorem Operation.extends (op : Operation) (s : Store) : s.Extends (op.run s) := by
  by_cases hop : op = .buildIndex
  · rw [hop, Operation.run_buildIndex]
    exact ⟨rfl, Nat.le_refl _, fun id c hc => ⟨c, hc, rfl, fun h => h⟩, fun _ _ h => h⟩
  · exact (Operation.changes hop s).extends

/-- So does every run. -/
theorem runAll_extends (s : Store) (ops : List Operation) : s.Extends (runAll s ops) := by
  induction ops generalizing s with
  | nil => exact .refl s
  | cons op ops ih => exact (op.extends s).trans (ih (op.run s))

/-- Operations that do not build the index are changes, one after the other. -/
theorem runAll_changes (s : Store) {ops : List Operation} (h : .buildIndex ∉ ops) :
    Changes [] s (runAll s ops) := by
  induction ops generalizing s with
  | nil => exact .refl
  | cons op ops ih =>
    rw [List.mem_cons, not_or] at h
    exact (Operation.changes (Ne.symm h.1) s).trans (ih _ h.2)

/-- A run splits at its last building of the index, if there is one. -/
theorem last_buildIndex (ops : List Operation) :
    .buildIndex ∉ ops ∨
      ∃ before after, ops = before ++ .buildIndex :: after ∧ .buildIndex ∉ after := by
  by_cases h : .buildIndex ∈ ops
  · obtain ⟨after, before, hsplit, hafter⟩ := List.eq_append_cons_of_mem (List.mem_reverse.mpr h)
    refine Or.inr ⟨before.reverse, after.reverse, ?_, fun h => hafter (List.mem_reverse.mp h)⟩
    rw [← List.reverse_reverse ops, hsplit]
    simp
  · exact Or.inl h

/-- After the last building the index is fresh exactly in a quiet history, and then exact. -/
theorem isStale_after {s : Store} (hs : s.Consistent) {after : List Operation}
    (hafter : .buildIndex ∉ after) :
    ((runAll (s.buildIndex s.lookup) after).isStale = false ↔
        s.Quiet (runAll (s.buildIndex s.lookup) after)) ∧
      (s.Quiet (runAll (s.buildIndex s.lookup) after) → ∀ c x,
        x ∈ (runAll (s.buildIndex s.lookup) after).cofacesOf c ↔
          (runAll (s.buildIndex s.lookup) after).Coface c x) := by
  have hchanges := runAll_changes (s.buildIndex s.lookup) hafter
  generalize runAll (s.buildIndex s.lookup) after = t at hchanges
  have hindex : t.index = .build s.lookup s.cells.toList s.generation := hchanges.index_eq
  -- building the index changes neither the cells nor the generation
  have hquiet : (s.buildIndex s.lookup).Quiet t ↔ s.Quiet t :=
    ⟨fun h => ⟨h.size_eq, h.live⟩, fun h => ⟨h.size_eq, h.live⟩⟩
  have hgen : t.generation = s.generation ↔ (s.buildIndex s.lookup).Quiet t :=
    hchanges.grows.generation_eq_iff.2
  refine ⟨?_, fun h c x => ?_⟩
  · unfold Store.isStale CofaceIndex.isStale
    rw [hindex, ← hquiet, ← hgen, bne_eq_false_iff_eq]
    exact ⟨fun h => (Option.some.inj h).symm, fun h => congrArg some h.symm⟩
  · have hbuilt := Store.mem_cofacesOf_buildIndex (c := c) (x := x) hs
    show x ∈ t.index.cofacesOf c ↔ _
    rw [hindex, (hquiet.mpr h).coface_iff hchanges.extends]
    exact hbuilt

/-- The same for a run that is told apart at a building. -/
theorem isStale_split (id : Nat) (before : List Operation) {after : List Operation}
    (hafter : .buildIndex ∉ after) {t : Store}
    (ht : t = runAll (.empty id) (before ++ .buildIndex :: after)) :
    (t.isStale = false ↔ (runAll (.empty id) before).Quiet t) ∧
      ((runAll (.empty id) before).Quiet t → ∀ c x, x ∈ t.cofacesOf c ↔ t.Coface c x) := by
  have hs : (runAll (.empty id) before).Consistent :=
    ((Store.Reachable.empty id).runAll before).consistent
  rw [runAll_append] at ht
  change t = runAll (Operation.buildIndex.run (runAll (.empty id) before)) after at ht
  rw [Operation.run_buildIndex] at ht
  rw [ht]
  exact isStale_after hs hafter

theorem Store.Reachable.exists_run {s : Store} (h : s.Reachable) :
    ∃ id ops, s = CellComplex.runAll (.empty id) ops := by
  induction h with
  | empty id => exact ⟨id, [], rfl⟩
  | step op _ ih =>
    obtain ⟨id, ops, rfl⟩ := ih
    exact ⟨id, ops ++ [op], (runAll_append _ ops [op]).symm⟩

/-- **In a reachable store a fresh index holds exactly the cofaces.** -/
theorem Store.Reachable.mem_cofacesOf {s : Store} (h : s.Reachable) (hfresh : s.isStale = false)
    {c x : CellId} : x ∈ s.cofacesOf c ↔ s.Coface c x := by
  obtain ⟨id, ops, hs⟩ := h.exists_run
  rcases last_buildIndex ops with hnone | ⟨before, after, rfl, hafter⟩
  · -- an index that was never built is stale
    have hindex : s.index = .empty := hs ▸ (runAll_changes (.empty id) hnone).index_eq
    unfold Store.isStale at hfresh
    rw [hindex] at hfresh
    cases hfresh
  · obtain ⟨hiff, hexact⟩ := isStale_split id before hafter hs
    exact hexact (hiff.mp hfresh) c x

/-- **After every run the index is fresh exactly if it was built, and no cell was made and no live
cell was deleted since it was built last; and a fresh index holds exactly the cofaces.** -/
theorem isStale_runAll (id : Nat) (ops : List Operation) :
    ((runAll (.empty id) ops).isStale = false ↔
        ∃ before after, ops = before ++ .buildIndex :: after ∧ .buildIndex ∉ after ∧
          (runAll (.empty id) before).Quiet (runAll (.empty id) ops)) ∧
      ((runAll (.empty id) ops).isStale = false → ∀ c x,
        x ∈ (runAll (.empty id) ops).cofacesOf c ↔ (runAll (.empty id) ops).Coface c x) := by
  rcases last_buildIndex ops with hnone | ⟨before, after, hops, hafter⟩
  · have hindex := (runAll_changes (.empty id) hnone).index_eq
    have hstale : (runAll (.empty id) ops).isStale = true := by
      unfold Store.isStale
      rw [hindex]
      rfl
    rw [hstale]
    refine ⟨iff_of_false (by decide) ?_, fun h => absurd h (by decide)⟩
    intro h'
    obtain ⟨before, after, rfl, _, _⟩ := h'
    exact hnone (List.mem_append_right _ List.mem_cons_self)
  · obtain ⟨hiff, hexact⟩ := isStale_split id before hafter (congrArg _ hops)
    refine ⟨⟨fun h => ⟨before, after, hops, hafter, hiff.mp h⟩, ?_⟩, fun h => hexact (hiff.mp h)⟩
    intro h'
    obtain ⟨before', after', hops', hafter', hquiet⟩ := h'
    exact (isStale_split id before' hafter' (congrArg _ hops')).1.mpr hquiet

/-- An edge is a coface of its ends as soon as the index is built, and another label does not make
the index stale. -/
theorem isStale_runAll_edge :
    ⟨0, 2⟩ ∈ (runAll (.empty 0) [.create "a" [], .create "b" [], .create "ab" [⟨0, 0⟩, ⟨0, 1⟩],
      .buildIndex, .setLabel ⟨0, 2⟩ "ba"]).cofacesOf ⟨0, 0⟩ := by
  have hexact := (isStale_runAll 0 [.create "a" [], .create "b" [], .create "ab" [⟨0, 0⟩, ⟨0, 1⟩],
    .buildIndex, .setLabel ⟨0, 2⟩ "ba"]).2 rfl ⟨0, 0⟩ ⟨0, 2⟩
  exact hexact.mpr ⟨⟨_, rfl, rfl⟩, _, rfl, rfl, Nat.le_refl 1, List.mem_cons_self⟩

end CellComplex
