import CellComplex.Proofs.Boundary.Make
import CellComplex.Proofs.Store.Frame

/-!
# Consistent stores

A store keeps some things twice: a cell's place is in its name, its dimension and its closure follow
from its boundary, the layers follow from the dimensions, and the expansions from the atoms. A store
is consistent if all of this agrees.

* `Store.Filed`: every cell is at its place and in its layer;
* `Store.Consistent`: the invariant, one field for each thing that is kept twice;
* **`Consistent.push`**: a cell that was made for the next place leaves the store consistent;
* `Consistent.modifyAt`, `Consistent.deleteAt`, `Consistent.linkAtom`, `Consistent.restamp`: so do
  the other changes.
-/

namespace CellComplex

namespace Store

/-! ## 1. Cells in their places -/

/-- **Every cell is at its place and in its layer.** -/
structure Filed (s : Store) : Prop where
  /-- The cell at place `i` is the cell `i` of this store. -/
  slot : ∀ (i : Nat) (c : Cell), s.cells[i]? = some c → c.id = ⟨s.id, i⟩
  /-- A layer lists the cells of its dimension. -/
  mem_layer : ∀ n id, id ∈ s.layer n ↔ ∃ c, s.find? id = some c ∧ c.dimension = n

section Filed

variable {s : Store} {id : CellId} {c : Cell} {i : Nat}

theorem filed_empty (id : Nat) : (empty id).Filed where
  slot i c hc := by simp [empty] at hc
  mem_layer n x := by simp [layer, empty, find?]

theorem Filed.id_eq (h : s.Filed) (hc : s.find? id = some c) : c.id = id := by
  obtain ⟨hstore, hget⟩ := find?_eq_some_iff.mp hc
  rw [h.slot _ _ hget, ← hstore]

theorem Filed.push (h : s.Filed) (hid : c.id = s.nextId 0) : (s.push c).Filed where
  slot j d hd := by
    have hget : (s.cells.push c)[j]? = some d := hd
    rw [Array.getElem?_push] at hget
    split at hget
    · next e =>
      cases hget
      rw [hid, e]
      rfl
    · exact h.slot j d hget
  mem_layer n x := by
    have hadds := adds_push hid
    rw [mem_layer_push, h.mem_layer]
    refine ⟨fun hx => ?_, fun hx => ?_⟩
    · rcases hx with ⟨d, hd, hdim⟩ | ⟨hdim, rfl⟩
      · exact ⟨d, hadds.find hd, hdim⟩
      · exact ⟨c, hadds.new, hdim⟩
    · obtain ⟨d, hd, hdim⟩ := hx
      rcases hadds.find_cases hd with ⟨rfl, rfl⟩ | hd
      · exact Or.inr ⟨hdim, rfl⟩
      · exact Or.inl ⟨d, hd, hdim⟩

/-- Labels, payloads, handlers and marks of deletion are filed nowhere. -/
theorem Filed.modifyAt {f : Cell → Cell} (h : s.Filed) (hf : ∀ c, (f c).form = c.form) :
    (s.modifyAt i f).Filed := by
  have halike : Lookup.Alike s.lookup (s.modifyAt i f).lookup := alike_modifyAt hf
  refine ⟨fun j d hd => ?_, fun n x => ?_⟩
  · have hj : (s.modifyAt i f).find? ⟨s.id, j⟩ = some d := find?_eq_some_iff.mpr ⟨rfl, hd⟩
    obtain ⟨c, hc, hform⟩ := halike.symm.find hj
    have hid : c.id = d.id := congrArg Form.id hform
    exact hid.symm.trans (h.id_eq hc)
  · show x ∈ s.layer n ↔ _
    rw [h.mem_layer]
    refine ⟨fun h' => ?_, fun h' => ?_⟩
    · obtain ⟨c, hc, hdim⟩ := h'
      obtain ⟨c', hc', hdim'⟩ := halike.dimension hc
      exact ⟨c', hc', hdim'.trans hdim⟩
    · obtain ⟨d, hd, hdim⟩ := h'
      obtain ⟨c, hc, hdim'⟩ := halike.symm.dimension hd
      exact ⟨c, hc, hdim'.trans hdim⟩

end Filed

/-! ## 2. The invariant -/

/-- **Everything that a store keeps twice agrees.** -/
structure Consistent (s : Store) : Prop where
  /-- The cell at place `i` is the cell `i` of this store. -/
  slot : ∀ (i : Nat) (c : Cell), s.cells[i]? = some c → c.id = ⟨s.id, i⟩
  /-- Boundaries list older cells of the store. -/
  older : ∀ id c, s.find? id = some c → ∀ b ∈ c.boundary, s.owns b = true ∧ b.index < id.index
  /-- Dimensions follow from the boundaries, and closures are the points below. -/
  sound : s.lookup.Sound
  /-- A layer lists the cells of its dimension, ... -/
  mem_layer : ∀ n id, id ∈ s.layer n ↔ ∃ c, s.find? id = some c ∧ c.dimension = n
  /-- ... each once, oldest first, ... -/
  layer_ascending : ∀ n, (s.layer n).Pairwise fun a b => a.index < b.index
  /-- ... and none is empty. -/
  layer_ne_nil : ∀ n, n < s.layerCount → s.layer n ≠ []
  /-- The two directions of the atom links agree. -/
  inverse : ∀ e a, a ∈ s.atomsOf e ↔ e ∈ s.expansionsOf a
  /-- Points name cells that are not points. -/
  linked : ∀ e a, a ∈ s.atomsOf e → s.lookup.IsCompound e ∧ s.lookup.IsPoint a

variable {s : Store} {id : CellId} {c d : Cell} {i : Nat}

/-! ## 3. What consistency gives -/

namespace Consistent

variable (h : s.Consistent)
include h

theorem id_eq (hc : s.find? id = some c) : c.id = id := h.sound.id_eq id c hc

theorem sound_ofStore : (Space.ofStore s).lookup.Sound := by
  rw [Space.lookup_ofStore]
  exact h.sound

theorem filed : s.Filed := ⟨h.slot, h.mem_layer⟩

/-- Every layer up to the highest cell is there. -/
theorem dimension_lt_layerCount (hc : s.find? id = some c) : c.dimension < s.layerCount := by
  refine Nat.lt_of_not_le fun hle => ?_
  have hmem : id ∈ s.layer c.dimension := (h.mem_layer _ id).mpr ⟨c, hc, rfl⟩
  rw [layer_of_le hle] at hmem
  exact absurd hmem List.not_mem_nil

theorem layer_nodup (n : Nat) : (s.layer n).Nodup := by
  refine (h.layer_ascending n).imp ?_
  rintro a _ hlt rfl
  exact Nat.lt_irrefl _ hlt

theorem closure_ne_empty (hc : s.find? id = some c) : ∃ p, p ∈ c.closure :=
  h.sound.closure_ne_empty hc

end Consistent

theorem consistent_empty (id : Nat) : (empty id).Consistent where
  slot := (filed_empty id).slot
  older id c hc := by simp [find?, empty] at hc
  sound := by
    have hnone : ∀ x, (empty id).lookup.find x = Lookup.empty.find x := by
      intro x
      show (if x.store = id then (#[] : Array Cell)[x.index]? else none) = none
      split <;> rfl
    rw [Lookup.ext_find hnone]
    exact Lookup.sound_empty
  mem_layer := (filed_empty id).mem_layer
  layer_ascending n := by simp [layer, empty]
  layer_ne_nil n hn := absurd hn (Nat.not_lt_zero n)
  inverse e a := by simp [atomsOf, expansionsOf, empty]
  linked e a ha := by simp [atomsOf, empty] at ha

/-! ## 4. A new cell -/

section Push

variable {label : String} {boundary : List CellId} {check : BoundaryCheck} (h : s.Consistent)
  (hmake : Cell.make s.lookup (s.nextId 0) label boundary check = .ok c)
include h hmake

theorem Consistent.push_older (hd : (s.push c).find? id = some d) :
    ∀ b ∈ d.boundary, (s.push c).owns b = true ∧ b.index < id.index := by
  have hid : c.id = s.nextId 0 := (make_fields hmake).1
  have hadds := adds_push hid
  have howned : ∀ {b f}, s.find? b = some f → (s.push c).owns b = true :=
    fun hf => owns_iff.mpr ⟨_, hadds.find hf⟩
  intro b hb
  rcases hadds.find_cases hd with ⟨rfl, rfl⟩ | hd
  · obtain ⟨f, hf, _⟩ := (make_records h.sound hmake).lower b hb
    have hlt : b.index < s.size := (find?_isSome_iff.mp ⟨f, hf⟩).2
    exact ⟨howned hf, by rw [hid]; exact hlt⟩
  · obtain ⟨hown, hlt⟩ := h.older id d hd b hb
    obtain ⟨f, hf⟩ := owns_iff.mp hown
    exact ⟨howned hf, hlt⟩

theorem Consistent.push_layer_ascending (n : Nat) :
    ((s.push c).layer n).Pairwise fun a b => a.index < b.index := by
  rw [layer_push]
  split
  · refine List.pairwise_append.mpr ⟨h.layer_ascending n, List.pairwise_singleton _ _, ?_⟩
    intro x hx y hy
    obtain ⟨d, hd, _⟩ := (h.mem_layer n x).mp hx
    rw [List.mem_singleton.mp hy, (make_fields hmake).1]
    exact (find?_isSome_iff.mp ⟨d, hd⟩).2
  · exact h.layer_ascending n

/-- The layer of the new cell is not empty, and the one below holds a face of it. -/
theorem Consistent.push_layer_ne_nil {n : Nat} (hn : n < (s.push c).layerCount) :
    (s.push c).layer n ≠ [] := by
  have hrec := make_records h.sound hmake
  have hle : c.dimension ≤ s.layerCount := by
    by_cases he : c.boundary = []
    · rw [hrec.point_iff.mpr he]
      exact Nat.zero_le _
    · obtain ⟨b, _, f, hf, hdim⟩ := hrec.attained he
      rw [hdim]
      exact h.dimension_lt_layerCount hf
  rw [layerCount_push] at hn
  intro hnil
  have hempty : ∀ x, x ∉ (s.push c).layer n := by
    rw [hnil]
    exact fun x => List.not_mem_nil
  by_cases e : c.dimension = n
  · exact hempty c.id (mem_layer_push.mpr (Or.inr ⟨e, rfl⟩))
  · obtain ⟨x, hx⟩ := List.exists_mem_of_ne_nil _ (h.layer_ne_nil n (by omega))
    exact hempty x (mem_layer_push.mpr (Or.inl hx))

/-- **A cell that was made for the next place leaves the store consistent.** -/
theorem Consistent.push : (s.push c).Consistent := by
  have hid : c.id = s.nextId 0 := (make_fields hmake).1
  have hadds := adds_push hid
  have hfiled : (s.push c).Filed := h.filed.push hid
  refine ⟨hfiled.slot, fun id d hd => h.push_older hmake hd,
    h.sound.adds hadds (make_records h.sound hmake), hfiled.mem_layer,
    h.push_layer_ascending hmake, fun n hn => h.push_layer_ne_nil hmake hn, h.inverse,
    fun e a ha => ?_⟩
  obtain ⟨he, hp⟩ := h.linked e a ha
  exact ⟨hadds.isCompound he, hadds.isPoint hp⟩

end Push

/-! ## 5. Other changes -/

/-- Labels, payloads, handlers and marks of deletion are kept once. -/
theorem Consistent.modifyAt {f : Cell → Cell} (h : s.Consistent)
    (hf : ∀ c, (f c).form = c.form) : (s.modifyAt i f).Consistent := by
  have halike : Lookup.Alike s.lookup (s.modifyAt i f).lookup := alike_modifyAt hf
  have back : ∀ {id d}, (s.modifyAt i f).find? id = some d →
      ∃ c, s.find? id = some c ∧ c.form = d.form := fun hd => halike.symm.find hd
  have howned : ∀ {id}, s.owns id = true → (s.modifyAt i f).owns id = true := by
    intro id hid
    obtain ⟨c, hc⟩ := owns_iff.mp hid
    obtain ⟨c', hc', _⟩ := halike.find hc
    exact owns_iff.mpr ⟨c', hc'⟩
  have hfiled : (s.modifyAt i f).Filed := h.filed.modifyAt hf
  refine ⟨hfiled.slot, fun id d hd b hb => ?_, h.sound.alike halike, hfiled.mem_layer,
    h.layer_ascending, h.layer_ne_nil, h.inverse, fun e a ha => ?_⟩
  · obtain ⟨c, hc, hform⟩ := back hd
    have hboundary : c.boundary = d.boundary := congrArg Form.boundary hform
    obtain ⟨hown, hlt⟩ := h.older id c hc b (hboundary ▸ hb)
    exact ⟨howned hown, hlt⟩
  · obtain ⟨he, hp⟩ := h.linked e a ha
    exact ⟨halike.isCompound he, halike.isPoint hp⟩

/-- The index and the generation are about other things. -/
theorem Consistent.restamp (h : s.Consistent) (index : CofaceIndex) (generation : Nat) :
    { s with index, generation }.Consistent :=
  ⟨h.slot, h.older, h.sound, h.mem_layer, h.layer_ascending, h.layer_ne_nil, h.inverse, h.linked⟩

theorem Consistent.deleteAt (h : s.Consistent) : (s.deleteAt i).Consistent := by
  have hmark : (s.modifyAt i ({ · with deleted := true })).Consistent := h.modifyAt fun _ => rfl
  exact hmark.restamp s.index (s.generation + 1)

/-- A link of a point to a cell that is not a point. -/
theorem Consistent.linkAtom {expansion atom : CellId} (h : s.Consistent)
    (he : s.lookup.IsCompound expansion) (ha : s.lookup.IsPoint atom) :
    (s.linkAtom expansion atom).Consistent := by
  refine ⟨h.slot, h.older, h.sound, h.mem_layer, h.layer_ascending, h.layer_ne_nil,
    fun e a => ?_, fun e a hlink => ?_⟩
  · rw [mem_atomsOf_linkAtom, mem_expansionsOf_linkAtom, h.inverse]
  · rcases mem_atomsOf_linkAtom.mp hlink with hlink | ⟨rfl, rfl⟩
    · exact h.linked e a hlink
    · exact ⟨he, ha⟩

end Store

end CellComplex
