import CellComplex.Cell.Boundary
import CellComplex.Proofs.Cell.Below
import CellComplex.Proofs.Outcome

/-!
# The faces of a boundary

A boundary lists ids, and its faces are the cells of these ids, position by position. What is
computed from the faces says something of the boundary:

* `Lookup.exists_face`, `Lookup.exists_listed`, `Lookup.face_at`, `Lookup.listed_at`: every id has
  its face, and every face its id;
* `lowest_le`, `le_highest`, `exists_highest`: the extreme dimensions;
* `mem_closureOf`: the points below the faces;
* **`highest_eq_zero_iff`**: the faces are as low as points exactly if only points are listed.
-/

namespace CellComplex

/-! ## 1. Ids and faces -/

namespace Lookup

section

variable {look : Lookup} {boundary : List CellId} {faces : List Cell}
variable {b : CellId} {f : Cell} {i : Nat}
variable (hfaces : boundary.mapM look.resolve = .ok faces)
include hfaces

theorem exists_face (hb : b ∈ boundary) : ∃ f ∈ faces, look.find b = some f := by
  obtain ⟨f, hf, hbf⟩ := Outcome.mapM_mem hfaces hb
  exact ⟨f, hf, resolve_eq_ok.mp hbf⟩

theorem exists_listed (hf : f ∈ faces) : ∃ b ∈ boundary, look.find b = some f := by
  obtain ⟨b, hb, hbf⟩ := Outcome.mapM_mem_right hfaces hf
  exact ⟨b, hb, resolve_eq_ok.mp hbf⟩

theorem face_at (hb : boundary[i]? = some b) : ∃ f, faces[i]? = some f ∧ look.find b = some f := by
  obtain ⟨f, hf, hbf⟩ := Outcome.mapM_get hfaces hb
  exact ⟨f, hf, resolve_eq_ok.mp hbf⟩

theorem listed_at (hf : faces[i]? = some f) :
    ∃ b, boundary[i]? = some b ∧ look.find b = some f := by
  obtain ⟨b, hb, hbf⟩ := Outcome.mapM_get_right hfaces hf
  exact ⟨b, hb, resolve_eq_ok.mp hbf⟩

/-- In a sound lookup the faces carry the ids that are listed. -/
theorem map_id_faces (hs : look.Sound) : faces.map Cell.id = boundary := by
  have hall := Outcome.mapM_eq_ok.mp hfaces
  clear hfaces
  induction hall with
  | nil => rfl
  | cons hb _ ih => rw [List.map_cons, ih, hs.id_eq _ _ (resolve_eq_ok.mp hb)]

end

/-- A boundary has faces if every id in it is known. -/
theorem exists_faces {look : Lookup} {boundary : List CellId}
    (h : ∀ b ∈ boundary, ∃ c, look.find b = some c) :
    ∃ faces, boundary.mapM look.resolve = .ok faces := by
  refine Outcome.mapM_isOk fun b hb => ?_
  obtain ⟨c, hc⟩ := h b hb
  exact ⟨c, resolve_eq_ok.mpr hc⟩

end Lookup

/-! ## 2. What is computed from faces -/

variable {faces : List Cell} {f : Cell} {p : CellId}

theorem lowest_le (hf : f ∈ faces) : lowest faces ≤ f.dimension := by
  have hmem : f.dimension ∈ faces.map Cell.dimension := List.mem_map_of_mem hf
  unfold lowest
  cases hmin : (faces.map Cell.dimension).min? with
  | none =>
    rw [List.min?_eq_none_iff.mp hmin] at hmem
    exact absurd hmem List.not_mem_nil
  | some m => exact (List.min?_eq_some_iff.mp hmin).2 _ hmem

theorem le_highest (hf : f ∈ faces) : f.dimension ≤ highest faces := by
  have hmem : f.dimension ∈ faces.map Cell.dimension := List.mem_map_of_mem hf
  unfold highest
  cases hmax : (faces.map Cell.dimension).max? with
  | none =>
    rw [List.max?_eq_none_iff.mp hmax] at hmem
    exact absurd hmem List.not_mem_nil
  | some m => exact (List.max?_eq_some_iff.mp hmax).2 _ hmem

theorem exists_highest (hne : faces ≠ []) : ∃ f ∈ faces, f.dimension = highest faces := by
  unfold highest
  cases hmax : (faces.map Cell.dimension).max? with
  | none =>
    rw [List.max?_eq_none_iff, List.map_eq_nil_iff] at hmax
    exact absurd hmax hne
  | some m => exact List.mem_map.mp (List.max?_eq_some_iff.mp hmax).1

theorem mem_closureOf : p ∈ closureOf faces ↔ ∃ f ∈ faces, p ∈ f.closure := by
  have fold : ∀ (faces : List Cell) (points : CellSet),
      p ∈ faces.foldl (fun points face => points ∪ face.closure) points ↔
        p ∈ points ∨ ∃ f ∈ faces, p ∈ f.closure := by
    intro faces
    induction faces with
    | nil => simp
    | cons f rest ih =>
      intro points
      rw [List.foldl_cons, ih, Std.TreeSet.mem_union_iff, or_assoc]
      simp only [List.mem_cons, exists_eq_or_imp]
  unfold closureOf
  rw [fold]
  exact ⟨fun h => h.resolve_left Std.TreeSet.not_mem_emptyc, Or.inr⟩

/-! ## 3. Points and others -/

section

variable {look : Lookup} {boundary : List CellId}

/-- **The faces are as low as points exactly if only points are listed.** -/
theorem highest_eq_zero_iff (hfaces : boundary.mapM look.resolve = .ok faces) :
    highest faces = 0 ↔ ∀ b ∈ boundary, look.IsPoint b := by
  refine ⟨fun hzero b hb => ?_, fun h => ?_⟩
  · obtain ⟨f, hf, hbf⟩ := Lookup.exists_face hfaces hb
    have hle : f.dimension ≤ 0 := hzero ▸ le_highest hf
    exact ⟨f, hbf, Nat.le_zero.mp hle⟩
  · by_cases hne : faces = []
    · rw [hne]
      rfl
    · obtain ⟨f, hf, hdim⟩ := exists_highest hne
      obtain ⟨b, hb, hbf⟩ := Lookup.exists_listed hfaces hf
      obtain ⟨c, hc, hzero⟩ := h b hb
      cases hc.symm.trans hbf
      rw [← hdim, hzero]

theorem highest_ne_zero_iff (hfaces : boundary.mapM look.resolve = .ok faces) :
    highest faces ≠ 0 ↔ ∃ b ∈ boundary, look.IsCompound b := by
  rw [ne_eq, highest_eq_zero_iff hfaces]
  refine ⟨fun h => ?_, fun h hpoints => ?_⟩
  · obtain ⟨b, hb, hnot⟩ := not_forall₂.mp h
    obtain ⟨f, _, hbf⟩ := Lookup.exists_face hfaces hb
    have hpos : f.dimension ≠ 0 := fun hzero => hnot ⟨f, hbf, hzero⟩
    exact ⟨b, hb, f, hbf, Nat.one_le_iff_ne_zero.mpr hpos⟩
  · obtain ⟨b, hb, c, hc, hpos⟩ := h
    obtain ⟨c', hc', hzero⟩ := hpoints b hb
    cases hc.symm.trans hc'
    omega

end

end CellComplex
