import CellComplex.Proofs.Rewrite.Staging
import CellComplex.Proofs.Store.Freshness

/-!
# A store with some cells more

Cells that entered one after the other are the only cells that can list each other: what was there
before is older than they are.

* `Space.indexed`: a store as it is read once its index is built;
* `Lines.append`: one line after another;
* `Lines.find_cases`: a cell was there, or is one of the line; `Lines.find?_mem`, `Lines.find?_kept`
  are the converse;
* `Lines.ids_nodup`, `Lines.fresh`: no id is used twice; `Lines.index_lt`: ids rise along the line;
  **`Lines.not_lists`**: no cell lists a later one;
* **`Lines.coface_iff`**: the cofaces of a cell in the line are those cells of the line that list
  it; **`Lines.mem_cofacesOf`**: the index says so once it is built.
-/

namespace CellComplex

variable {below : List Store} {s : Store} {c d : Cell} {cs ds : List Cell} {x : CellId}

/-- A store with its index built, and nothing below. -/
def Space.indexed (s : Store) : Space := .ofStore (s.buildIndex s.lookup)

theorem Space.lookup_indexed (s : Store) : (indexed s).lookup = s.lookup :=
  Space.lookup_ofStore (s.buildIndex s.lookup)

theorem Store.Consistent.sound_indexed (h : s.Consistent) : (Space.indexed s).lookup.Sound := by
  rw [Space.lookup_indexed]
  exact h.sound

theorem Space.find?_indexed (s : Store) (x : CellId) : (indexed s).find? x = s.find? x :=
  Store.find?_ofStore (s.buildIndex s.lookup) x

/-! ## 1. Lines after lines -/

theorem Store.pushAll_pushAll : (s.pushAll cs).pushAll ds = s.pushAll (cs ++ ds) :=
  List.foldl_append.symm

theorem Lines.append (h : Lines below s cs) (h' : Lines below (s.pushAll cs) ds) :
    Lines below s (cs ++ ds) := by
  induction h with
  | nil => exact h'
  | cons hmake _ ih => exact .cons hmake (ih h')

/-- One more, made of the cells of the store alone. -/
theorem Lines.push {label : String} {boundary : List CellId} {check : BoundaryCheck}
    (h : Lines [] s cs)
    (hmake : Cell.make (s.pushAll cs).lookup ((s.pushAll cs).nextId 0) label boundary check =
      .ok c) : Lines [] s (cs ++ [c]) := by
  rw [← Space.lookup_ofStore] at hmake
  exact h.snoc hmake

theorem Lines.consistent (hs : s.Consistent) (h : Lines [] s cs) : (s.pushAll cs).Consistent :=
  h.changes.consistent hs

/-! ## 2. Cells -/

namespace Lines

variable (h : Lines below s cs)
include h

theorem isLive (hc : c ∈ cs) : c.isLive = true := by
  induction h with
  | nil => exact absurd hc List.not_mem_nil
  | cons hmake _ ih =>
    rcases List.mem_cons.mp hc with rfl | hc
    · exact Store.isLive_iff.mpr (make_fields hmake).2.2.2
    · exact ih hc

theorem id_eq {k : Nat} (hc : cs[k]? = some c) : c.id = s.nextId k := by
  obtain ⟨hlt, _⟩ := List.getElem?_eq_some_iff.mp hc
  have hid : (cs.map Cell.id)[k]? = some c.id := by simp [hc]
  rw [h.ids] at hid
  simpa [hlt] using hid.symm

theorem find?_mem (hc : c ∈ cs) : (s.pushAll cs).find? c.id = some c := by
  obtain ⟨k, hk⟩ := List.mem_iff_getElem?.mp hc
  rw [h.id_eq hk]
  exact h.find?_new hk

theorem fresh (hc : c ∈ cs) : s.find? c.id = none := by
  obtain ⟨k, hk⟩ := List.mem_iff_getElem?.mp hc
  rw [h.id_eq hk]
  exact Store.find?_nextId k

theorem find?_kept (hc : s.find? x = some c) : (s.pushAll cs).find? x = some c := by
  rw [h.find?_old fun k _ hx => ?_, hc]
  rw [hx, Store.find?_nextId] at hc
  cases hc

theorem find_cases (hd : (s.pushAll cs).find? x = some d) :
    s.find? x = some d ∨ (d ∈ cs ∧ d.id = x) := by
  by_cases hx : ∃ k, k < cs.length ∧ x = s.nextId k
  · obtain ⟨k, hk, rfl⟩ := hx
    have hget : cs[k]? = some cs[k] := List.getElem?_eq_getElem hk
    cases hd.symm.trans (h.find?_new hget)
    exact Or.inr ⟨List.getElem_mem hk, h.id_eq hget⟩
  · refine Or.inl ?_
    rw [← h.find?_old fun k hk e => hx ⟨k, hk, e⟩, hd]

theorem ids_nodup : (cs.map Cell.id).Nodup := by
  rw [h.ids]
  exact List.nodup_range.map fun _ _ e => Store.nextId_inj.mp e

/-- Cells of the line with one id are one cell. -/
theorem eq_of_id_eq (hc : c ∈ cs) (hd : d ∈ cs) (hid : c.id = d.id) : c = d := by
  have hfind := h.find?_mem hc
  rw [hid, h.find?_mem hd] at hfind
  exact (Option.some.inj hfind).symm

end Lines

/-- What stands behind has the greater index. -/
theorem Lines.index_lt (h : Lines below s (cs ++ ds)) (hc : c ∈ cs) (hd : d ∈ ds) :
    c.id.index < d.id.index := by
  have hrise : ((cs ++ ds).map Cell.id).Pairwise fun x y => x.index < y.index := by
    rw [h.ids]
    exact List.pairwise_lt_range.map _ fun _ _ hlt => Nat.add_lt_add_left hlt _
  rw [List.map_append, List.pairwise_append] at hrise
  exact hrise.2.2 _ (List.mem_map_of_mem hc) _ (List.mem_map_of_mem hd)

/-- **No cell lists one that stands behind it.** -/
theorem Lines.not_lists (hs : s.Consistent) (h : Lines [] s (cs ++ ds)) (hc : c ∈ cs)
    (hd : d ∈ ds) : d.id ∉ c.boundary := by
  intro hlists
  have hfind := h.find?_mem (List.mem_append_left _ hc)
  exact Nat.lt_asymm (h.index_lt hc hd) ((h.consistent hs).older _ c hfind _ hlists).2

/-! ## 3. Cofaces -/

namespace Lines

variable (hs : s.Consistent) (h : Lines [] s cs)
include hs h

/-- **Who lists a cell of the line is a cell of the line.** -/
theorem coface_iff (hc : c ∈ cs) :
    (s.pushAll cs).Coface c.id x ↔ ∃ o ∈ cs, o.id = x ∧ c.id ∈ o.boundary := by
  have hsound := (h.consistent hs).sound
  refine ⟨fun h' => ?_, fun h' => ?_⟩
  · obtain ⟨_, o, ho, _, _, hmem⟩ := h'
    rcases h.find_cases ho with hold | ⟨hmem', hid⟩
    · -- an older cell lists older cells
      obtain ⟨hown, _⟩ := hs.older x o hold c.id hmem
      obtain ⟨f, hf⟩ := Store.owns_iff.mp hown
      rw [h.fresh hc] at hf
      cases hf
    · exact ⟨o, hmem', hid, hmem⟩
  · obtain ⟨o, ho, rfl, hmem⟩ := h'
    have hfind := h.find?_mem ho
    have hpos : 1 ≤ o.dimension := by
      refine Nat.one_le_iff_ne_zero.mpr fun hzero => ?_
      rw [(hsound.point_iff o.id o hfind).mp hzero] at hmem
      cases hmem
    exact ⟨⟨c, h.find?_mem hc, h.isLive hc⟩, o, hfind, h.isLive ho, hpos, hmem⟩

/-- The index says so once it is built. -/
theorem mem_cofacesOf (hc : c ∈ cs) :
    x ∈ (Space.indexed (s.pushAll cs)).cofacesOf c.id ↔ ∃ o ∈ cs, o.id = x ∧ c.id ∈ o.boundary := by
  rw [← h.coface_iff hs hc, ← Store.mem_cofacesOf_buildIndex (h.consistent hs)]
  rfl

end Lines

end CellComplex
