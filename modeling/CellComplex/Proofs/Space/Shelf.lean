import Mathlib.Logic.Function.Basic
import CellComplex.Proofs.Store.Freshness

/-!
# Any number of stores, each asked alone or over others

A store can be written alone, and at another time over a store, or over one that was itself written
over a third. So a cell may list faces that are out of sight when its store is looked at again.
What is in sight can still be relied on:

* `Asking`: an operation, asked of one store over some others; `Shelf.after`: a run;
* `Space.Reachable`: some stores as they stand after a run, one over the others;
* `Shelf.Kept`: every store has its name, and every face of a cell is lower than the cell;
* `Kept.change`, **`Kept.after`**: this is kept by one change, and by a run;
* **`Reachable.apart`**, **`Reachable.lower`**: what it says of a space.
-/

namespace CellComplex

/-! ## 1. Asking stores -/

/-- The stores, by their names. -/
abbrev Shelf := Nat → Store

/-- **An operation, asked of the store `top` over some others.** -/
structure Asking where
  top : Nat
  below : List Nat
  op : Operation
  apart : top ∉ below

namespace Shelf

/-- One store over some others. -/
def space (shelf : Shelf) (top : Nat) (below : List Nat) : Space := ⟨shelf top, below.map shelf⟩

/-- Nothing but empty stores. -/
def start : Shelf := Store.empty

/-- Puts a store back. -/
def put (shelf : Shelf) (top : Nat) (s : Store) : Shelf := Function.update shelf top s

end Shelf

/-- What an operation leaves behind, failing or not. -/
def Asking.run (ask : Asking) (shelf : Shelf) : Shelf :=
  shelf.put ask.top (ask.op.edit.apply (shelf.space ask.top ask.below)).2.top

/-- What some operations leave behind, one after the other. -/
def Shelf.after (shelf : Shelf) (asks : List Asking) : Shelf :=
  asks.foldl (fun shelf ask => ask.run shelf) shelf

/-- **A store over others, as they stand after any work on all of them.** -/
def Space.Reachable (sp : Space) : Prop :=
  ∃ asks top below, top ∉ below ∧ sp = (Shelf.start.after asks).space top below

namespace Shelf

variable {shelf : Shelf} {top : Nat} {below : List Nat} {s t : Store}

@[simp] theorem put_self : shelf.put top s top = s := Function.update_self ..

theorem put_of_ne {k : Nat} (h : k ≠ top) : shelf.put top s k = shelf k := Function.update_of_ne h ..

@[simp] theorem put_put : (shelf.put top s).put top t = shelf.put top t := Function.update_idem ..

@[simp] theorem put_eq : shelf.put top (shelf top) = shelf := Function.update_eq_self ..

/-- The stores below stay where they are. -/
theorem map_put (h : top ∉ below) : below.map (shelf.put top s) = below.map shelf :=
  List.map_congr_left fun _ hk => put_of_ne fun hkt => h (hkt ▸ hk)

/-! ## 2. What every run keeps -/

/-- **Every store has its name, and the faces of cells are lower**, wherever they are. -/
structure Kept (shelf : Shelf) : Prop where
  id_eq : ∀ k, (shelf k).id = k
  lower : ∀ k x c, (shelf k).find? x = some c → ∀ b ∈ c.boundary,
    ∃ f, (shelf b.store).find? b = some f ∧ f.dimension < c.dimension

theorem kept_start : start.Kept where
  id_eq _ := rfl
  lower k x c hc := by cases (Store.find?_empty k x).symm.trans hc

namespace Kept

variable (h : shelf.Kept)
include h

/-- A cell in sight is the cell of that id. -/
theorem find?_of_space {x : CellId} {c : Cell} (hc : (shelf.space top below).find? x = some c) :
    (shelf x.store).find? x = some c := by
  obtain ⟨s, hs, hc⟩ := Space.exists_store hc
  have hstore : ∃ k, s = shelf k := by
    rcases List.mem_cons.mp hs with rfl | hs
    · exact ⟨top, rfl⟩
    · obtain ⟨k, _, rfl⟩ := List.mem_map.mp hs
      exact ⟨k, rfl⟩
  obtain ⟨k, rfl⟩ := hstore
  have hk : x.store = k := (Store.find?_eq_some_iff.mp hc).1.trans (h.id_eq k)
  rw [hk]
  exact hc

/-- One change of one store, over whatever others. -/
theorem change (hstep : Change (below.map shelf) (shelf top) t) : (shelf.put top t).Kept where
  id_eq k := by
    by_cases hk : k = top
    · subst hk
      rw [put_self, hstep.extends.id_eq, h.id_eq]
    · rw [put_of_ne hk, h.id_eq]
  lower k x d hd b hb := by
    -- a cell that was there is there, as high as before
    have hlift : ∀ {f n}, (shelf b.store).find? b = some f → f.dimension < n →
        ∃ f', (shelf.put top t b.store).find? b = some f' ∧ f'.dimension < n := by
      intro f n hf hlt
      by_cases hbt : b.store = top
      · rw [hbt] at hf ⊢
        obtain ⟨f', hf', hform, _⟩ := hstep.extends.find b f hf
        have hdim : f'.dimension = f.dimension := congrArg Form.dimension hform
        exact ⟨f', by rw [put_self]; exact hf', hdim ▸ hlt⟩
      · exact ⟨f, by rw [put_of_ne hbt]; exact hf, hlt⟩
    by_cases hk : k = top
    · subst hk
      rw [put_self] at hd
      rcases hstep.find_cases hd with ⟨c, hc, hform⟩ | hseen
      · have hboundary : d.boundary = c.boundary := congrArg Form.boundary hform
        have hdim : d.dimension = c.dimension := congrArg Form.dimension hform
        obtain ⟨f, hf, hlt⟩ := h.lower k x c hc b (hboundary ▸ hb)
        exact hlift hf (hdim ▸ hlt)
      · obtain ⟨f, hf, hlt⟩ := hseen b hb
        exact hlift (h.find?_of_space hf) hlt
    · rw [put_of_ne hk] at hd
      obtain ⟨f, hf, hlt⟩ := h.lower k x d hd b hb
      exact hlift hf hlt

/-- Any number of changes. -/
theorem changes (hapart : top ∉ below) (hsteps : Changes (below.map shelf) (shelf top) t) :
    (shelf.put top t).Kept := by
  induction hsteps with
  | refl => exact put_eq.symm ▸ h
  | @tail s t _ hstep ih =>
    have hstep' : Change (below.map (shelf.put top s)) (shelf.put top s top) t := by
      rw [map_put hapart, put_self]
      exact hstep
    exact put_put (s := s) ▸ ih.change hstep'

/-- **One operation keeps it.** -/
theorem run (ask : Asking) : (ask.run shelf).Kept := by
  by_cases hop : ask.op = .buildIndex
  · -- an index changes no cell
    have hcells : ∀ k x, (ask.run shelf k).find? x = (shelf k).find? x := by
      intro k x
      unfold Asking.run
      by_cases hk : k = ask.top
      · rw [hk, put_self, hop]
        rfl
      · rw [put_of_ne hk]
    refine ⟨fun k => ?_, fun k x c hc b hb => ?_⟩
    · unfold Asking.run
      by_cases hk : k = ask.top
      · rw [hk, put_self, hop]
        exact h.id_eq _
      · rw [put_of_ne hk, h.id_eq]
    · rw [hcells] at hc ⊢
      exact h.lower k x c hc b hb
  · exact h.changes ask.apart (Operation.stepwise hop (shelf.space ask.top ask.below)).2

/-- **So does a run.** -/
theorem after (asks : List Asking) : (shelf.after asks).Kept := by
  induction asks generalizing shelf with
  | nil => exact h
  | cons ask asks ih => exact ih (h.run ask)

end Kept

end Shelf

/-! ## 3. Spaces -/

namespace Space

variable {sp : Space} {x b : CellId} {c f : Cell}

/-- **No store below has the name of the store on top.** -/
theorem Reachable.apart (h : sp.Reachable) : ∀ s ∈ sp.below, s.id ≠ sp.top.id := by
  obtain ⟨asks, top, below, hapart, rfl⟩ := h
  have hkept := Shelf.kept_start.after asks
  intro s hs
  obtain ⟨k, hk, rfl⟩ := List.mem_map.mp hs
  show ((Shelf.start.after asks) k).id ≠ ((Shelf.start.after asks) top).id
  rw [hkept.id_eq, hkept.id_eq]
  exact fun hkt => hapart (hkt ▸ hk)

/-- **A face that is in sight is lower than the cell.** -/
theorem Reachable.lower (h : sp.Reachable) (hc : sp.find? x = some c) (hb : b ∈ c.boundary)
    (hf : sp.find? b = some f) : f.dimension < c.dimension := by
  obtain ⟨asks, top, below, _, rfl⟩ := h
  have hkept := Shelf.kept_start.after asks
  obtain ⟨f', hf', hlt⟩ := hkept.lower x.store x c (hkept.find?_of_space hc) b hb
  cases (hkept.find?_of_space hf).symm.trans hf'
  exact hlt

end Space

/-- A reachable store with nothing below is among the reachable spaces. -/
theorem Store.Reachable.space {s : Store} (h : s.Reachable) : (Space.ofStore s).Reachable := by
  obtain ⟨id, ops, rfl⟩ := h.exists_run
  have run : ∀ (ops : List Operation) (shelf : Shelf),
      shelf.after (ops.map fun op => ⟨id, [], op, List.not_mem_nil⟩) id =
        CellComplex.runAll (shelf id) ops := by
    intro ops
    induction ops with
    | nil => exact fun _ => rfl
    | cons op ops ih =>
      intro shelf
      refine (ih _).trans (congrArg (CellComplex.runAll · ops) ?_)
      exact Shelf.put_self
  refine ⟨ops.map fun op => ⟨id, [], op, List.not_mem_nil⟩, id, [], List.not_mem_nil, ?_⟩
  exact congrArg Space.ofStore (run ops Shelf.start).symm

end CellComplex
