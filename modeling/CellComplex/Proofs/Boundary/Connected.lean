import CellComplex.Cell.Boundary
import CellComplex.Proofs.DisjointSets.Classes

/-!
# Boundaries that hang together

The check of a boundary joins every face with the points below it in a forest and asks whether all
faces end up in one class. Here the forest is taken away: the check passes exactly if a chain of
faces, each with a point in common with the next, leads from the first face to every other one.

* `joinFaces_partitions`: the forest holds the classes that "face and point below it" generates;
* `Touch`: two positions whose faces have a point in common;
* `same_joinFaces_iff`: the forest ties a face to the first one exactly if a chain of touching faces
  does;
* **`firstApart_eq_none_iff`**: no face is apart exactly if every position is at the end of a chain.
-/

namespace CellComplex

open DisjointSets

/-! ## 1. The forest of faces and points -/

/-- A face and a point below it, as vertices. -/
def Covers (faces : List (Cell × Nat)) (x y : Vertex) : Prop :=
  ∃ f k p, (f, k) ∈ faces ∧ p ∈ f.closure ∧ x = .face k ∧ y = .point p

/-- The first face covers the points below it, the others cover the rest. -/
theorem covers_cons {f : Cell} {k : Nat} {rest : List (Cell × Nat)} {x y : Vertex} :
    Covers ((f, k) :: rest) x y ↔
      (∃ p ∈ f.closure.toList, x = .face k ∧ y = .point p) ∨ Covers rest x y := by
  refine ⟨fun h => ?_, fun h => ?_⟩
  · obtain ⟨g, j, p, hg, hp, hx, hy⟩ := h
    rcases List.mem_cons.mp hg with e | hg
    · cases e
      exact Or.inl ⟨p, Std.TreeSet.mem_toList.mpr hp, hx, hy⟩
    · exact Or.inr ⟨g, j, p, hg, hp, hx, hy⟩
  · rcases h with ⟨p, hp, hx, hy⟩ | ⟨g, j, p, hg, hp, hx, hy⟩
    · exact ⟨f, k, p, List.mem_cons_self, Std.TreeSet.mem_toList.mp hp, hx, hy⟩
    · exact ⟨g, j, p, List.mem_cons_of_mem _ hg, hp, hx, hy⟩

theorem joinFace_partitions {d : DisjointSets Vertex} {R : Vertex → Vertex → Prop} (k : Nat)
    (points : List CellId) (h : d.Partitions R) :
    (joinFace d k points).Partitions (fun x y => R x y ∨ ∃ p ∈ points, x = .face k ∧ y = .point p) ∧
      (∀ v ∈ d.slots, v ∈ (joinFace d k points).slots) ∧
      Vertex.face k ∈ (joinFace d k points).slots := by
  unfold joinFace
  have hface : Vertex.face k ∈ (d.insert (.face k)).slots := mem_slots_insert.mpr (Or.inr rfl)
  have hkeep : ∀ v ∈ d.slots, v ∈ (d.insert (.face k)).slots :=
    fun v hv => mem_slots_insert.mpr (Or.inl hv)
  have hstart := h.insert (.face k)
  clear h
  generalize d.insert (.face k) = e at hface hkeep hstart
  induction points generalizing e R with
  | nil => exact ⟨by simpa using hstart, hkeep, hface⟩
  | cons p points ih =>
    rw [List.foldl_cons]
    have hp : Vertex.point p ∈ (e.insert (.point p)).slots := mem_slots_insert.mpr (Or.inr rfl)
    have hf : Vertex.face k ∈ (e.insert (.point p)).slots := mem_slots_insert.mpr (Or.inl hface)
    have hnext := (hstart.insert (.point p)).union hf hp
    obtain ⟨hpart, hkeep', hface'⟩ := ih _ (by rw [union_slots]; exact hf)
      (fun v hv => by rw [union_slots]; exact mem_slots_insert.mpr (Or.inl (hkeep v hv))) hnext
    refine ⟨hpart.congr fun x y => ?_, hkeep', hface'⟩
    simp only [List.mem_cons, or_assoc, exists_eq_or_imp]

theorem foldl_joinFace_partitions {d : DisjointSets Vertex} {R : Vertex → Vertex → Prop}
    (faces : List (Cell × Nat)) (h : d.Partitions R) :
    let e := faces.foldl (fun d f => joinFace d f.2 f.1.closure.toList) d
    e.Partitions (fun x y => R x y ∨ Covers faces x y) ∧ (∀ v ∈ d.slots, v ∈ e.slots) ∧
      ∀ f k, (f, k) ∈ faces → Vertex.face k ∈ e.slots := by
  induction faces generalizing d R with
  | nil =>
    exact ⟨by simpa [Covers] using h, fun v hv => hv, fun f k hf => absurd hf List.not_mem_nil⟩
  | cons head rest ih =>
    obtain ⟨f, k⟩ := head
    obtain ⟨hpart, hkeep, hface⟩ := joinFace_partitions k f.closure.toList h
    obtain ⟨hpart', hkeep', hface'⟩ := ih hpart
    refine ⟨hpart'.congr fun x y => ?_, fun v hv => hkeep' v (hkeep v hv), fun g j hg => ?_⟩
    · rw [covers_cons, or_assoc]
    · rcases List.mem_cons.mp hg with e | hg
      · cases e
        exact hkeep' _ hface
      · exact hface' g j hg

/-- **The forest holds what the faces cover.** -/
theorem joinFaces_partitions (faces : List (Cell × Nat)) :
    (joinFaces faces).Partitions (Covers faces) ∧
      ∀ f k, (f, k) ∈ faces → Vertex.face k ∈ (joinFaces faces).slots := by
  obtain ⟨hpart, _, hface⟩ :=
    foldl_joinFace_partitions faces (partitions_empty (fun _ _ => False) fun _ _ h => h)
  exact ⟨hpart.congr fun x y => ⟨fun h => h.resolve_left id, Or.inr⟩, hface⟩

theorem firstOutside_cons {d : DisjointSets Vertex} {f : Cell} {k : Nat}
    {rest : List (Cell × Nat)} :
    firstOutside d ((f, k) :: rest) =
      if (d.connected (.face 0) (.face k)).1 then
        firstOutside (d.connected (.face 0) (.face k)).2 rest
      else some f.id := by
  rw [firstOutside]
  rcases d.connected (.face 0) (.face k) with ⟨_ | _, e⟩ <;> rfl

theorem firstOutside_eq_none_iff {d : DisjointSets Vertex} {faces : List (Cell × Nat)} :
    firstOutside d faces = none ↔ ∀ f k, (f, k) ∈ faces → d.Same (.face 0) (.face k) := by
  induction faces generalizing d with
  | nil => simp [firstOutside]
  | cons head rest ih =>
    obtain ⟨f, k⟩ := head
    rw [firstOutside_cons]
    by_cases hc : (d.connected (.face 0) (.face k)).1 = true
    · rw [if_pos hc, ih]
      simp only [same_connected]
      refine ⟨fun h g j hg => ?_, fun h g j hg => h g j (List.mem_cons_of_mem _ hg)⟩
      rcases List.mem_cons.mp hg with e | hg
      · cases e
        exact connected_fst.mp hc
      · exact h g j hg
    · rw [if_neg hc]
      exact iff_of_false (by simp) fun h => hc (connected_fst.mpr (h f k List.mem_cons_self))

/-! ## 2. Chains of faces -/

/-- The faces at two positions have a point in common. -/
def Touch (faces : List Cell) (i j : Nat) : Prop :=
  ∃ f g p, faces[i]? = some f ∧ faces[j]? = some g ∧ p ∈ f.closure ∧ p ∈ g.closure

/-- What hangs on the first face: faces at the end of a chain, and the points below them. -/
def OnChain (faces : List Cell) : Vertex → Prop
  | .face k => Relation.ReflTransGen (Touch faces) 0 k
  | .point p => ∃ f k, faces[k]? = some f ∧ p ∈ f.closure ∧ Relation.ReflTransGen (Touch faces) 0 k

theorem covers_zipIdx {faces : List Cell} {x y : Vertex} :
    Covers faces.zipIdx x y ↔
      ∃ f k p, faces[k]? = some f ∧ p ∈ f.closure ∧ x = .face k ∧ y = .point p := by
  simp only [Covers, List.mk_mem_zipIdx_iff_getElem?]

/-- A face hangs on the first one exactly if the points below it do. -/
theorem onChain_of_covers {faces : List Cell} {x y : Vertex} (h : Covers faces.zipIdx x y) :
    OnChain faces x ↔ OnChain faces y := by
  obtain ⟨f, k, p, hf, hp, rfl, rfl⟩ := covers_zipIdx.mp h
  refine ⟨?_, fun h' => ?_⟩
  · exact fun hk => ⟨f, k, hf, hp, hk⟩
  · obtain ⟨g, j, hg, hpg, hj⟩ := h'
    exact hj.tail ⟨g, f, p, hg, hf, hpg, hp⟩

theorem onChain_of_eqvGen {faces : List Cell} {x y : Vertex}
    (h : Relation.EqvGen (Covers faces.zipIdx) x y) : OnChain faces x ↔ OnChain faces y := by
  induction h with
  | rel x y h => exact onChain_of_covers h
  | refl x => exact Iff.rfl
  | symm x y _ ih => exact ih.symm
  | trans x y z _ _ ih ih' => exact ih.trans ih'

theorem eqvGen_of_touch {faces : List Cell} {i j : Nat} (h : Touch faces i j) :
    Relation.EqvGen (Covers faces.zipIdx) (.face i) (.face j) := by
  obtain ⟨f, g, p, hf, hg, hpf, hpg⟩ := h
  have hi : Covers faces.zipIdx (.face i) (.point p) :=
    covers_zipIdx.mpr ⟨f, i, p, hf, hpf, rfl, rfl⟩
  have hj : Covers faces.zipIdx (.face j) (.point p) :=
    covers_zipIdx.mpr ⟨g, j, p, hg, hpg, rfl, rfl⟩
  exact (Relation.EqvGen.rel _ _ hi).trans _ _ _ ((Relation.EqvGen.rel _ _ hj).symm _ _)

theorem eqvGen_iff_chain {faces : List Cell} {j : Nat} :
    Relation.EqvGen (Covers faces.zipIdx) (.face 0) (.face j) ↔
      Relation.ReflTransGen (Touch faces) 0 j := by
  refine ⟨?_, fun h => ?_⟩
  · exact fun h => (onChain_of_eqvGen h).mp (show OnChain faces (.face 0) from .refl)
  · induction h with
    | refl => exact .refl _
    | tail _ hstep ih => exact ih.trans _ _ _ (eqvGen_of_touch hstep)

/-- The forest ties a face to the first one exactly if a chain of touching faces does. -/
theorem same_joinFaces_iff {faces : List Cell} {f : Cell} {j : Nat} (hj : faces[j]? = some f) :
    (joinFaces faces.zipIdx).Same (.face 0) (.face j) ↔
      Relation.ReflTransGen (Touch faces) 0 j := by
  obtain ⟨hpart, hface⟩ := joinFaces_partitions faces.zipIdx
  have hlt : 0 < faces.length := Nat.zero_lt_of_lt (List.getElem?_eq_some_iff.mp hj).1
  have hzero : Vertex.face 0 ∈ (joinFaces faces.zipIdx).slots :=
    hface faces[0] 0 (List.mk_mem_zipIdx_iff_getElem?.mpr (List.getElem?_eq_getElem hlt))
  rw [hpart.same, ← eqvGen_iff_chain]
  exact and_iff_right hzero

/-- **No face is apart exactly if a chain of touching faces leads from the first to every
other.** -/
theorem firstApart_eq_none_iff {faces : List Cell} :
    firstApart faces = none ↔
      ∀ j, j < faces.length → Relation.ReflTransGen (Touch faces) 0 j := by
  unfold firstApart
  rw [firstOutside_eq_none_iff]
  refine ⟨fun h j hj => ?_, fun h f j hf => ?_⟩
  · cases j with
    | zero => exact .refl
    | succ j =>
      have hget := List.getElem?_eq_getElem hj
      refine (same_joinFaces_iff hget).mp (h (faces[j + 1]) _ ?_)
      -- every position but the first is in the tail
      cases faces with
      | nil => exact absurd hj (Nat.not_lt_zero _)
      | cons f rest =>
        rw [List.zipIdx_cons, List.tail_cons, List.mk_mem_zipIdx_iff_le_and_getElem?_sub]
        exact ⟨by omega, by simp⟩
  · have hget : faces[j]? = some f := List.mk_mem_zipIdx_iff_getElem?.mp (List.mem_of_mem_tail hf)
    exact (same_joinFaces_iff hget).mpr (h j (List.getElem?_eq_some_iff.mp hget).1)

end CellComplex
