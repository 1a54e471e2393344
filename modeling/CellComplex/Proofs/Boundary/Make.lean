import CellComplex.Proofs.Boundary.Connected
import CellComplex.Proofs.Boundary.Minimal

/-!
# Which boundaries make a cell, and what the cell records

The laws of a boundary, stated by what lies below it and by nothing that a cell records:

* `Lookup.Meets`, `Lookup.HangsTogether`: two faces have a point below them in common; chains of
  such faces lead from the first face to every other;
* `Lookup.Lawful`: the laws that a check asks for;
* **`make_isOk_iff`**: in a sound lookup a cell is made of exactly the lawful boundaries;
* **`make_records`**: the cell records the truth;
* `make_lower`, `make_dimension_points`: its faces were found and are lower, and over points it is an
  edge;
* `make_ends`: up to two points always make a cell; `make_edge`: two points do.
-/

namespace CellComplex

/-! ## 1. The laws -/

namespace Lookup

/-- The faces at two positions have a point below them in common. -/
def Meets (look : Lookup) (boundary : List CellId) (i j : Nat) : Prop :=
  ∃ a b p, boundary[i]? = some a ∧ boundary[j]? = some b ∧
    look.PointBelow a p ∧ look.PointBelow b p

/-- A chain of faces with common points leads from the first position to every other. -/
def HangsTogether (look : Lookup) (boundary : List CellId) : Prop :=
  ∀ j, j < boundary.length → Relation.ReflTransGen (look.Meets boundary) 0 j

/-- **The laws of a boundary**: at most two points, or faces that hang together and, under the full
check, are minimal. -/
def Lawful (look : Lookup) (boundary : List CellId) (check : BoundaryCheck) : Prop :=
  (∀ b ∈ boundary, ∃ c, look.find b = some c) ∧
    (((∀ b ∈ boundary, look.IsPoint b) ∧ boundary.length ≤ edgeEnds) ∨
      ((∃ b ∈ boundary, look.IsCompound b) ∧ look.HangsTogether boundary ∧
        (check = .full → look.Minimal boundary)))

theorem lawful_full {look : Lookup} {boundary : List CellId} :
    look.Lawful boundary .full ↔
      (∀ b ∈ boundary, ∃ c, look.find b = some c) ∧
        (((∀ b ∈ boundary, look.IsPoint b) ∧ boundary.length ≤ edgeEnds) ∨
          ((∃ b ∈ boundary, look.IsCompound b) ∧ look.HangsTogether boundary ∧
            look.Minimal boundary)) := by
  have hfull : (BoundaryCheck.full = .full → look.Minimal boundary) ↔ look.Minimal boundary :=
    ⟨fun h => h rfl, fun h _ => h⟩
  rw [Lawful, hfull]

theorem lawful_connectivity {look : Lookup} {boundary : List CellId} :
    look.Lawful boundary .connectivity ↔
      (∀ b ∈ boundary, ∃ c, look.find b = some c) ∧
        (((∀ b ∈ boundary, look.IsPoint b) ∧ boundary.length ≤ edgeEnds) ∨
          ((∃ b ∈ boundary, look.IsCompound b) ∧ look.HangsTogether boundary)) := by
  have hnone : look.HangsTogether boundary ∧
      (BoundaryCheck.connectivity = .full → look.Minimal boundary) ↔
        look.HangsTogether boundary :=
    and_iff_left fun h => by cases h
  rw [Lawful, hnone]

end Lookup

/-! ## 2. Steps of making -/

/-- The cell over some faces. -/
def Cell.over (id : CellId) (label : String) (boundary : List CellId) (faces : List Cell) : Cell :=
  { id, dimension := highest faces + 1, label, boundary, closure := closureOf faces,
    deleted := false, embedding := [], handler := none }

/-- The laws as the faces record them. -/
def Passes (look : Lookup) (label : String) (boundary : List CellId) (check : BoundaryCheck)
    (faces : List Cell) : Prop :=
  (highest faces = 0 ∧ boundary.length ≤ edgeEnds) ∨
    (highest faces ≠ 0 ∧ firstApart faces = none ∧
      (check = .full → checkMinimal look label faces = .ok ()))

section Make

variable {look : Lookup} {id : CellId} {label : String} {boundary : List CellId}
variable {check : BoundaryCheck} {faces : List Cell} {c : Cell}

theorem checkConnected_eq_ok_iff :
    checkConnected label faces = .ok () ↔ firstApart faces = none := by
  unfold checkConnected
  cases firstApart faces with
  | none => exact ⟨fun _ => rfl, fun _ => rfl⟩
  | some a => exact ⟨fun h => (by cases h), fun h => by cases h⟩

theorem over_eq_ok :
    (.ok (.over id label boundary faces) : Except StoreError Cell) = .ok c ↔
      c = .over id label boundary faces := by
  rw [Except.ok.injEq, eq_comm]

/-- Over points only the number counts. -/
theorem ofFaces_of_points (hzero : highest faces = 0) :
    Cell.ofFaces look id label boundary check faces =
      if edgeEnds < boundary.length then .error (.tooManyEndpoints label boundary.length)
      else .ok (.over id label boundary faces) := by
  unfold Cell.ofFaces
  dsimp only
  rw [if_pos (by omega)]
  split <;> rfl

/-- Over other faces the checks come one after the other. -/
theorem ofFaces_of_compound (hpos : highest faces ≠ 0) :
    Cell.ofFaces look id label boundary check faces =
      checkConnected label faces >>= fun _ =>
        if check = .full then
          checkMinimal look label faces >>= fun _ => .ok (.over id label boundary faces)
        else .ok (.over id label boundary faces) := by
  unfold Cell.ofFaces
  dsimp only
  rw [if_neg (by omega)]
  by_cases hfull : check = .full
  · simp only [if_pos hfull]
    rfl
  · simp only [if_neg hfull]
    rfl

theorem ofFaces_points (hzero : highest faces = 0) :
    Cell.ofFaces look id label boundary check faces = .ok c ↔
      boundary.length ≤ edgeEnds ∧ c = .over id label boundary faces := by
  rw [ofFaces_of_points hzero]
  by_cases hlen : edgeEnds < boundary.length
  · rw [if_pos hlen]
    exact iff_of_false (fun h => by cases h) fun h => Nat.not_le_of_lt hlen h.1
  · rw [if_neg hlen]
    exact over_eq_ok.trans (and_iff_right (Nat.le_of_not_lt hlen)).symm

theorem ofFaces_compound (hpos : highest faces ≠ 0) :
    Cell.ofFaces look id label boundary check faces = .ok c ↔
      (firstApart faces = none ∧ (check = .full → checkMinimal look label faces = .ok ())) ∧
        c = .over id label boundary faces := by
  have hconnected : firstApart faces = none ↔ checkConnected label faces = .ok () :=
    checkConnected_eq_ok_iff.symm
  rw [ofFaces_of_compound hpos, Outcome.bind_eq_ok, hconnected]
  by_cases hfull : check = .full
  · rw [if_pos hfull]
    refine ⟨fun h => ?_, fun h => ?_⟩
    · obtain ⟨_, hconn, hrest⟩ := h
      obtain ⟨_, hmin, hrest⟩ := Outcome.bind_eq_ok.mp hrest
      exact ⟨⟨hconn, fun _ => hmin⟩, over_eq_ok.mp hrest⟩
    · obtain ⟨⟨hconn, hmin⟩, hc⟩ := h
      exact ⟨(), hconn, Outcome.bind_eq_ok.mpr ⟨(), hmin hfull, over_eq_ok.mpr hc⟩⟩
  · rw [if_neg hfull]
    refine ⟨fun h => ?_, fun h => ?_⟩
    · obtain ⟨_, hconn, hrest⟩ := h
      exact ⟨⟨hconn, fun h => absurd h hfull⟩, over_eq_ok.mp hrest⟩
    · obtain ⟨⟨hconn, _⟩, hc⟩ := h
      exact ⟨(), hconn, over_eq_ok.mpr hc⟩

theorem ofFaces_eq_ok :
    Cell.ofFaces look id label boundary check faces = .ok c ↔
      Passes look label boundary check faces ∧ c = .over id label boundary faces := by
  unfold Passes
  by_cases hzero : highest faces = 0
  · have hlaws : ∀ p : Prop, ((highest faces = 0 ∧ boundary.length ≤ edgeEnds) ∨
        (highest faces ≠ 0 ∧ p)) ↔ boundary.length ≤ edgeEnds := by
      intro p
      exact ⟨fun h => (h.resolve_right fun h => h.1 hzero).2, fun h => Or.inl ⟨hzero, h⟩⟩
    rw [ofFaces_points hzero, hlaws]
  · have hlaws : ∀ p : Prop, ((highest faces = 0 ∧ boundary.length ≤ edgeEnds) ∨
        (highest faces ≠ 0 ∧ p)) ↔ p := by
      intro p
      exact ⟨fun h => (h.resolve_left fun h => hzero h.1).2, fun h => Or.inr ⟨hzero, h⟩⟩
    rw [ofFaces_compound hzero, hlaws]

theorem build_of_ne (hne : boundary ≠ []) :
    Cell.build look id label boundary check =
      boundary.mapM look.resolve >>= Cell.ofFaces look id label boundary check := by
  unfold Cell.build
  rw [List.isEmpty_eq_false_iff.mpr hne]
  rfl

theorem build_eq_ok :
    Cell.build look id label boundary check = .ok c ↔
      boundary ≠ [] ∧ ∃ faces, boundary.mapM look.resolve = .ok faces ∧
        Cell.ofFaces look id label boundary check faces = .ok c := by
  by_cases hne : boundary = []
  · subst hne
    exact iff_of_false (fun h => by cases h) fun h => h.1 rfl
  · rw [build_of_ne hne, Outcome.bind_eq_ok]
    exact (and_iff_right hne).symm

theorem make_of_ne (hne : boundary ≠ []) :
    Cell.make look id label boundary check = Cell.build look id label boundary check := by
  unfold Cell.make
  rw [List.isEmpty_eq_false_iff.mpr hne]
  rfl

/-- A cell is a point, where none is asked to list anything, or is built on its boundary. -/
theorem make_eq_ok :
    Cell.make look id label boundary check = .ok c ↔
      (boundary = [] ∧ check = .full ∧ c = .point id label) ∨
        Cell.build look id label boundary check = .ok c := by
  unfold Cell.make
  by_cases hpoint : boundary = [] ∧ check = .full
  · obtain ⟨rfl, rfl⟩ := hpoint
    rw [build_eq_ok]
    show (Except.ok (Cell.point id label) = Except.ok c) ↔ _
    rw [Except.ok.injEq, eq_comm]
    exact ⟨fun h => Or.inl ⟨rfl, rfl, h⟩, fun h => h.elim (·.2.2) fun h => absurd rfl h.1⟩
  · rw [if_neg (by simpa [List.isEmpty_iff] using hpoint)]
    exact ⟨Or.inr, fun h => h.resolve_left fun h => hpoint ⟨h.1, h.2.1⟩⟩

/-! ## 3. What a made cell is -/

theorem make_fields (h : Cell.make look id label boundary check = .ok c) :
    c.id = id ∧ c.label = label ∧ c.boundary = boundary ∧ c.deleted = false := by
  rcases make_eq_ok.mp h with ⟨rfl, _, rfl⟩ | h
  · exact ⟨rfl, rfl, rfl, rfl⟩
  · obtain ⟨_, faces, _, h⟩ := build_eq_ok.mp h
    obtain ⟨_, rfl⟩ := ofFaces_eq_ok.mp h
    exact ⟨rfl, rfl, rfl, rfl⟩

theorem point_records : (Cell.point id label).Records look := by
  refine ⟨iff_of_true rfl rfl, fun b hb => absurd hb List.not_mem_nil, fun hne => absurd rfl hne,
    fun p => ?_⟩
  show p ∈ (∅ : CellSet).insert id ↔ _
  rw [Std.TreeSet.mem_insert, Std.LawfulEqCmp.compare_eq_iff_eq]
  refine ⟨fun hp => Or.inl ⟨rfl, (hp.resolve_right Std.TreeSet.not_mem_emptyc).symm⟩, fun h => ?_⟩
  rcases h with ⟨_, rfl⟩ | ⟨b, hb, _⟩
  · exact Or.inl rfl
  · exact absurd hb List.not_mem_nil

/-- The cell over the faces of a boundary is higher than each of them. -/
theorem over_lower (hfaces : boundary.mapM look.resolve = .ok faces) :
    ∀ b ∈ boundary, ∃ f, look.find b = some f ∧
      f.dimension < (Cell.over id label boundary faces).dimension := by
  intro b hb
  obtain ⟨f, hf, hbf⟩ := Lookup.exists_face hfaces hb
  exact ⟨f, hbf, Nat.lt_succ_of_le (le_highest hf)⟩

/-- What the cell over the faces of a boundary records is right, if the faces' records are. -/
theorem over_records (hs : look.Sound) (hne : boundary ≠ [])
    (hfaces : boundary.mapM look.resolve = .ok faces) :
    (Cell.over id label boundary faces).Records look := by
  have hne' : faces ≠ [] := by
    rintro rfl
    exact hne (List.length_eq_zero_iff.mp (Outcome.mapM_length hfaces).symm)
  refine ⟨iff_of_false (Nat.succ_ne_zero _) hne, over_lower hfaces, fun _ => ?_, fun p => ?_⟩
  · obtain ⟨f, hf, hdim⟩ := exists_highest hne'
    obtain ⟨b, hb, hbf⟩ := Lookup.exists_listed hfaces hf
    exact ⟨b, hb, f, hbf, congrArg (· + 1) hdim.symm⟩
  · show p ∈ closureOf faces ↔ _
    rw [mem_closureOf]
    refine ⟨fun h => ?_, fun h => ?_⟩
    · obtain ⟨f, hf, hp⟩ := h
      obtain ⟨b, hb, hbf⟩ := Lookup.exists_listed hfaces hf
      exact Or.inr ⟨b, hb, (hs.closure b f hbf p).mp hp⟩
    · obtain ⟨b, hb, hp⟩ := h.resolve_left fun h => hne h.1
      obtain ⟨f, hf, hbf⟩ := Lookup.exists_face hfaces hb
      exact ⟨f, hf, (hs.closure b f hbf p).mpr hp⟩

/-- **A made cell records the truth.** -/
theorem make_records (hs : look.Sound) (h : Cell.make look id label boundary check = .ok c) :
    c.Records look := by
  rcases make_eq_ok.mp h with ⟨_, _, rfl⟩ | h
  · exact point_records
  · obtain ⟨hne, faces, hfaces, h⟩ := build_eq_ok.mp h
    obtain ⟨_, rfl⟩ := ofFaces_eq_ok.mp h
    exact over_records hs hne hfaces

/-! ## 4. Which boundaries make a cell -/

/-- In a sound lookup faces touch where their positions meet. -/
theorem touch_iff_meets (hs : look.Sound) (hfaces : boundary.mapM look.resolve = .ok faces)
    {i j : Nat} : Touch faces i j ↔ look.Meets boundary i j := by
  refine ⟨fun h => ?_, fun h => ?_⟩
  · obtain ⟨f, g, p, hf, hg, hpf, hpg⟩ := h
    obtain ⟨a, ha, haf⟩ := Lookup.listed_at hfaces hf
    obtain ⟨b, hb, hbg⟩ := Lookup.listed_at hfaces hg
    exact ⟨a, b, p, ha, hb, (hs.closure a f haf p).mp hpf, (hs.closure b g hbg p).mp hpg⟩
  · obtain ⟨a, b, p, ha, hb, hpa, hpb⟩ := h
    obtain ⟨f, hf, haf⟩ := Lookup.face_at hfaces ha
    obtain ⟨g, hg, hbg⟩ := Lookup.face_at hfaces hb
    exact ⟨f, g, p, hf, hg, (hs.closure a f haf p).mpr hpa, (hs.closure b g hbg p).mpr hpb⟩

theorem touch_eq_meets (hs : look.Sound) (hfaces : boundary.mapM look.resolve = .ok faces) :
    Touch faces = look.Meets boundary :=
  funext fun _ => funext fun _ => propext (touch_iff_meets hs hfaces)

theorem firstApart_eq_none_iff_hangsTogether (hs : look.Sound)
    (hfaces : boundary.mapM look.resolve = .ok faces) :
    firstApart faces = none ↔ look.HangsTogether boundary := by
  rw [firstApart_eq_none_iff, touch_eq_meets hs hfaces, Outcome.mapM_length hfaces]
  exact Iff.rfl

/-- What the faces record decides the laws. -/
theorem passes_iff_lawful (hs : look.Sound) (hfaces : boundary.mapM look.resolve = .ok faces) :
    Passes look label boundary check faces ↔ look.Lawful boundary check := by
  have hknown : ∀ b ∈ boundary, ∃ c, look.find b = some c := by
    intro b hb
    obtain ⟨f, _, hbf⟩ := Lookup.exists_face hfaces hb
    exact ⟨f, hbf⟩
  unfold Passes Lookup.Lawful
  rw [highest_eq_zero_iff hfaces, highest_ne_zero_iff hfaces,
    firstApart_eq_none_iff_hangsTogether hs hfaces, checkMinimal_eq_ok_iff hs hfaces]
  exact (and_iff_right hknown).symm

/-- **A cell is made of exactly the lawful boundaries.** -/
theorem make_isOk_iff (hs : look.Sound) (hne : boundary ≠ []) :
    (∃ c, Cell.make look id label boundary check = .ok c) ↔ look.Lawful boundary check := by
  refine ⟨fun h => ?_, fun h => ?_⟩
  · obtain ⟨c, hc⟩ := h
    have hbuild := (make_eq_ok.mp hc).resolve_left fun h => hne h.1
    obtain ⟨_, faces, hfaces, hc⟩ := build_eq_ok.mp hbuild
    exact (passes_iff_lawful hs hfaces).mp (ofFaces_eq_ok.mp hc).1
  · obtain ⟨faces, hfaces⟩ := Lookup.exists_faces h.1
    have hpasses : Passes look label boundary check faces := (passes_iff_lawful hs hfaces).mpr h
    have hc : Cell.ofFaces look id label boundary check faces =
        .ok (.over id label boundary faces) := ofFaces_eq_ok.mpr ⟨hpasses, rfl⟩
    exact ⟨_, make_eq_ok.mpr (Or.inr (build_eq_ok.mpr ⟨hne, faces, hfaces, hc⟩))⟩

/-- The faces of a cell that was made were found, and are lower than the cell. -/
theorem make_lower (h : Cell.make look id label boundary check = .ok c) :
    ∀ b ∈ c.boundary, ∃ f, look.find b = some f ∧ f.dimension < c.dimension := by
  rcases make_eq_ok.mp h with ⟨_, _, rfl⟩ | h
  · exact fun b hb => absurd hb List.not_mem_nil
  · obtain ⟨_, faces, hfaces, h⟩ := build_eq_ok.mp h
    obtain ⟨_, rfl⟩ := ofFaces_eq_ok.mp h
    exact over_lower hfaces

/-- A cell over points has dimension one. -/
theorem make_dimension_points (hne : boundary ≠ []) (hpoints : ∀ b ∈ boundary, look.IsPoint b)
    (h : Cell.make look id label boundary check = .ok c) : c.dimension = 1 := by
  have hbuild := (make_eq_ok.mp h).resolve_left fun h => hne h.1
  obtain ⟨_, faces, hfaces, h⟩ := build_eq_ok.mp hbuild
  obtain ⟨_, rfl⟩ := ofFaces_eq_ok.mp h
  exact congrArg (· + 1) ((highest_eq_zero_iff hfaces).mpr hpoints)

/-- **Up to two points make a cell of dimension one.** -/
theorem make_ends (hs : look.Sound) (hne : boundary ≠ []) (hlen : boundary.length ≤ edgeEnds)
    (hpoints : ∀ b ∈ boundary, look.IsPoint b) :
    ∃ c, Cell.make look id label boundary .full = .ok c ∧ c.dimension = 1 := by
  have hknown : ∀ b ∈ boundary, ∃ c, look.find b = some c := fun b hb => by
    obtain ⟨c, hc, _⟩ := hpoints b hb
    exact ⟨c, hc⟩
  obtain ⟨c, hc⟩ := (make_isOk_iff hs hne).mpr ⟨hknown, Or.inl ⟨hpoints, hlen⟩⟩
  exact ⟨c, hc, make_dimension_points hne hpoints hc⟩

theorem make_edge (id : CellId) (label : String) {x y : CellId} (hs : look.Sound)
    (hx : look.IsPoint x) (hy : look.IsPoint y) :
    ∃ c, Cell.make look id label [x, y] .full = .ok c ∧ c.dimension = 1 := by
  refine make_ends hs (List.cons_ne_nil _ _) (Nat.le_refl _) ?_
  simp only [List.forall_mem_cons]
  exact ⟨hx, hy, by simp⟩

end Make

end CellComplex
