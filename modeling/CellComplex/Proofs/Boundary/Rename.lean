import CellComplex.Proofs.Boundary.Make
import CellComplex.Proofs.Cell.Rename

/-!
# Making a cell by other names

Nothing that is checked of a boundary depends on what its cells are called: of renamed cells the
same cell is made, or the same law is broken. The order of ids does change under a renaming, and
with it the order in which a face is joined with its points; only the classes that come of it count.

* `firstRepeat_renamed`, `firstApart_renamed`: the first offender is the same;
* `checkMinimal_renamed`: so is what the search below the faces meets first;
* **`make_renamed`**: a cell is made alike on both sides.
-/

namespace CellComplex

variable {ρ : CellId → CellId} {faces faces' : List Cell} {look look' : Lookup}

/-! ## 1. Faces -/

theorem renamed_ids (h : List.Forall₂ (Cell.Renamed ρ) faces faces') :
    faces'.map Cell.id = (faces.map Cell.id).map ρ := by
  induction h with
  | nil => rfl
  | cons hface _ ih => rw [List.map_cons, List.map_cons, List.map_cons, ih, hface.id]

theorem renamed_dimensions (h : List.Forall₂ (Cell.Renamed ρ) faces faces') :
    faces'.map Cell.dimension = faces.map Cell.dimension := by
  induction h with
  | nil => rfl
  | cons hface _ ih => rw [List.map_cons, List.map_cons, ih, hface.dimension]

theorem highest_renamed (h : List.Forall₂ (Cell.Renamed ρ) faces faces') :
    highest faces' = highest faces := by
  rw [highest, highest, renamed_dimensions h]

theorem lowest_renamed (h : List.Forall₂ (Cell.Renamed ρ) faces faces') :
    lowest faces' = lowest faces := by
  rw [lowest, lowest, renamed_dimensions h]

/-- The points below renamed faces are those below the faces, renamed. -/
theorem closureOf_renamed (h : List.Forall₂ (Cell.Renamed ρ) faces faces') :
    CellSet.Renamed ρ (closureOf faces) (closureOf faces') := by
  intro p
  rw [mem_closureOf, mem_closureOf]
  induction h with
  | nil => simp
  | cons hface _ ih =>
    simp only [List.mem_cons, exists_eq_or_imp]
    exact or_congr (hface.closure p) ih

/-! ## 2. Hanging together -/

theorem point_at_renamed (h : List.Forall₂ (Cell.Renamed ρ) faces faces') (i : Nat) (p : CellId) :
    (∃ g, faces'[i]? = some g ∧ ρ p ∈ g.closure) ↔ ∃ f, faces[i]? = some f ∧ p ∈ f.closure := by
  induction h generalizing i with
  | nil => simp
  | cons hface _ ih =>
    cases i with
    | zero => simpa using hface.closure p
    | succ i => exact ih i

/-- Faces at two positions touch by whatever name. -/
theorem touch_renamed (hρ : ρ.Surjective) (h : List.Forall₂ (Cell.Renamed ρ) faces faces') :
    Touch faces' = Touch faces := by
  funext i j
  refine propext ⟨fun htouch => ?_, fun htouch => ?_⟩
  · obtain ⟨f, g, q, hf, hg, hqf, hqg⟩ := htouch
    obtain ⟨p, rfl⟩ := hρ q
    obtain ⟨f', hf', hpf⟩ := (point_at_renamed h i p).mp ⟨f, hf, hqf⟩
    obtain ⟨g', hg', hpg⟩ := (point_at_renamed h j p).mp ⟨g, hg, hqg⟩
    exact ⟨f', g', p, hf', hg', hpf, hpg⟩
  · obtain ⟨f, g, p, hf, hg, hpf, hpg⟩ := htouch
    obtain ⟨f', hf', hpf'⟩ := (point_at_renamed h i p).mpr ⟨f, hf, hpf⟩
    obtain ⟨g', hg', hpg'⟩ := (point_at_renamed h j p).mpr ⟨g, hg, hpg⟩
    exact ⟨f', g', ρ p, hf', hg', hpf', hpg'⟩

/-- A face beside its position, on both sides. -/
def PlacedAlike (ρ : CellId → CellId) (placed placed' : Cell × Nat) : Prop :=
  placed.1.Renamed ρ placed'.1 ∧ placed'.2 = placed.2

theorem zipIdx_renamed (h : List.Forall₂ (Cell.Renamed ρ) faces faces') (k : Nat) :
    List.Forall₂ (PlacedAlike ρ) (faces.zipIdx k) (faces'.zipIdx k) := by
  induction h generalizing k with
  | nil => exact .nil
  | cons hface _ ih => exact .cons ⟨hface, rfl⟩ (ih (k + 1))

/-- Two forests that tie the same positions to the first one leave the same face outside. -/
theorem firstOutside_renamed {d d' : DisjointSets Vertex} {placed placed' : List (Cell × Nat)}
    (h : List.Forall₂ (PlacedAlike ρ) placed placed')
    (hsame : ∀ f k, (f, k) ∈ placed →
      (d'.Same (.face 0) (.face k) ↔ d.Same (.face 0) (.face k))) :
    firstOutside d' placed' = (firstOutside d placed).map ρ := by
  induction h generalizing d d' with
  | nil => rfl
  | @cons head head' rest rest' hhead _ ih =>
    obtain ⟨f, k⟩ := head
    obtain ⟨f', k'⟩ := head'
    obtain ⟨hface, rfl⟩ : f.Renamed ρ f' ∧ k' = k := hhead
    have hconnected : (d'.connected (.face 0) (.face k')).1 =
        (d.connected (.face 0) (.face k')).1 := by
      rw [Bool.eq_iff_iff, DisjointSets.connected_fst, DisjointSets.connected_fst]
      exact hsame f k' List.mem_cons_self
    have hrest : firstOutside (d'.connected (.face 0) (.face k')).2 rest' =
        (firstOutside (d.connected (.face 0) (.face k')).2 rest).map ρ := ih fun g j hg => by
      rw [DisjointSets.same_connected, DisjointSets.same_connected]
      exact hsame g j (List.mem_cons_of_mem _ hg)
    rw [firstOutside_cons, firstOutside_cons, hconnected, hrest, hface.id]
    split <;> rfl

/-- **The first face that is apart is the same.** -/
theorem firstApart_renamed (hρ : ρ.Surjective)
    (h : List.Forall₂ (Cell.Renamed ρ) faces faces') :
    firstApart faces' = (firstApart faces).map ρ := by
  refine firstOutside_renamed ?_ fun f k hf => ?_
  · cases h with
    | nil => exact .nil
    | cons _ hrest => exact zipIdx_renamed hrest 1
  · have hget : faces[k]? = some f := List.mk_mem_zipIdx_iff_getElem?.mp (List.mem_of_mem_tail hf)
    obtain ⟨hlt, _⟩ := List.getElem?_eq_some_iff.mp hget
    have hget' := List.getElem?_eq_getElem (h.length_eq ▸ hlt)
    rw [same_joinFaces_iff hget, same_joinFaces_iff hget', touch_renamed hρ h]

theorem checkConnected_renamed (hρ : ρ.Surjective) {label : String}
    (h : List.Forall₂ (Cell.Renamed ρ) faces faces') :
    Outcome.Agrees ρ Eq (checkConnected label faces) (checkConnected label faces') := by
  unfold checkConnected
  rw [firstApart_renamed hρ h]
  cases firstApart faces with
  | none => exact .ok rfl
  | some offender => exact .error (.disconnectedBoundary label offender)

/-! ## 3. Minimality -/

/-- The first id that is listed twice is the same. -/
theorem firstRepeat_renamed (hρ : ρ.Injective) {seen seen' : CellSet} (ids : List CellId)
    (h : CellSet.Renamed ρ seen seen') :
    firstRepeat seen' (ids.map ρ) = (firstRepeat seen ids).map ρ := by
  induction ids generalizing seen seen' with
  | nil => rfl
  | cons id ids ih =>
    rw [List.map_cons, firstRepeat, firstRepeat, h.contains_eq]
    split
    · rfl
    · exact ih (h.insert hρ id)

/-- What lies below renamed cells is searched alike. -/
theorem partsOf_renamed (hlook : look.Renamed ρ look') {listed listed' : CellSet}
    (h : CellSet.Renamed ρ listed listed') (label : String) (floor : Nat) (container : CellId) :
    (partsOf look label listed floor container).Renamed ρ
      (partsOf look' label listed' floor (ρ container)) := by
  intro id
  unfold partsOf
  dsimp only
  rw [h.contains_eq]
  split
  · exact .error (.nonMinimalBoundary label id container)
  · rcases hlook.find_cases id with ⟨hc, hd⟩ | ⟨c, d, hc, hd, hcd⟩
    · rw [hc, hd]
      exact .error (.unknownCell id)
    · rw [hc, hd]
      refine .ok ?_
      rw [hcd.dimension, hcd.boundary]
      split
      · exact List.map_reverse.symm
      · rfl

/-- **The check of minimality fails at the same cell.** -/
theorem checkMinimal_renamed (hρ : ρ.Injective) (hlook : look.Renamed ρ look') {label : String}
    (h : List.Forall₂ (Cell.Renamed ρ) faces faces') :
    Outcome.Agrees ρ Eq (checkMinimal look label faces) (checkMinimal look' label faces') := by
  unfold checkMinimal
  dsimp only
  rw [renamed_ids h, lowest_renamed h, firstRepeat_renamed hρ _ CellSet.renamed_empty]
  cases firstRepeat ∅ (faces.map Cell.id) with
  | some id => exact .error (.nonMinimalBoundary label id id)
  | none =>
    have hstart : PaintedAlike ρ ∅ ∅ := fun x => by
      rw [Std.TreeMap.getElem?_emptyc, Std.TreeMap.getElem?_emptyc]
    refine (Outcome.Agrees.foldlM (zipIdx_renamed h 0) hstart ?_).bind fun _ _ _ => .ok rfl
    intro paint paint' placed placed' hpaint hplaced
    obtain ⟨hface, hplace⟩ := hplaced
    rw [hplace, hface.boundary, hface.id, ← List.map_reverse]
    exact Branching.paintFrom_renamed hρ
      (partsOf_renamed hlook (CellSet.renamed_ofList hρ _) label _ _) hpaint

/-! ## 4. The cell -/

section Make

variable {id : CellId} {label : String} {boundary : List CellId} {check : BoundaryCheck}

theorem point_renamed (hρ : ρ.Injective) :
    (Cell.point id label).Renamed ρ (Cell.point (ρ id) label) :=
  ⟨rfl, rfl, rfl, rfl, CellSet.renamed_empty.insert hρ id, rfl, rfl, rfl⟩

theorem over_renamed (h : List.Forall₂ (Cell.Renamed ρ) faces faces') :
    (Cell.over id label boundary faces).Renamed ρ
      (Cell.over (ρ id) label (boundary.map ρ) faces') :=
  ⟨rfl, congrArg (· + 1) (highest_renamed h), rfl, rfl, closureOf_renamed h, rfl, rfl, rfl⟩

theorem ofFaces_renamed (hρ : ρ.Bijective) (hlook : look.Renamed ρ look')
    (h : List.Forall₂ (Cell.Renamed ρ) faces faces') :
    Outcome.Agrees ρ (Cell.Renamed ρ) (Cell.ofFaces look id label boundary check faces)
      (Cell.ofFaces look' (ρ id) label (boundary.map ρ) check faces') := by
  unfold Cell.ofFaces
  dsimp only
  rw [highest_renamed h, List.length_map]
  have hmade : Outcome.Agrees ρ (Cell.Renamed ρ) (.ok (.over id label boundary faces))
      (.ok (.over (ρ id) label (boundary.map ρ) faces')) := .ok (over_renamed h)
  rw [Cell.over, Cell.over, highest_renamed h] at hmade
  split
  · split
    · exact .error (.tooManyEndpoints label boundary.length)
    · exact hmade
  · refine (checkConnected_renamed hρ.surjective h).bind fun _ _ _ => ?_
    split
    · exact (checkMinimal_renamed hρ.injective hlook h).bind fun _ _ _ => hmade
    · exact hmade

theorem build_renamed (hρ : ρ.Bijective) (hlook : look.Renamed ρ look') :
    Outcome.Agrees ρ (Cell.Renamed ρ) (Cell.build look id label boundary check)
      (Cell.build look' (ρ id) label (boundary.map ρ) check) := by
  have hlisted : List.Forall₂ (fun b b' => b' = ρ b) boundary (boundary.map ρ) :=
    List.forall₂_map_right_iff.mpr (List.forall₂_same.mpr fun _ _ => rfl)
  unfold Cell.build
  rw [List.isEmpty_map]
  split
  · exact .error (.emptyBoundary label)
  · refine (Outcome.Agrees.mapM hlisted ?_).bind fun _ _ h => ofFaces_renamed hρ hlook h
    rintro b _ rfl
    exact hlook.resolve b

/-- **A cell is made alike on both sides**: the same cell by another name, or the same law is
broken. -/
theorem make_renamed (hρ : ρ.Bijective) (hlook : look.Renamed ρ look') :
    Outcome.Agrees ρ (Cell.Renamed ρ) (Cell.make look id label boundary check)
      (Cell.make look' (ρ id) label (boundary.map ρ) check) := by
  unfold Cell.make
  rw [List.isEmpty_map]
  split
  · exact .ok (point_renamed hρ.injective)
  · exact build_renamed hρ hlook

end Make

end CellComplex
