import CellComplex.Proofs.Boundary.Culprit
import CellComplex.Proofs.Store.Operation

/-!
# Which boundaries a store accepts

A store decides by what its cells record, with classes of points and a search that is cut short. The
boundaries it accepts can be told by what lies below them alone:

* `applyTo_createChecked`: a new cell is made exactly if its boundary makes a cell;
* **`create_isOk_iff`**: in every reachable store, `create` and `createListing` accept exactly the
  lawful boundaries;
* **`create_names_culprit`**: the others are refused with an error that names a true culprit.
-/

namespace CellComplex

variable {s : Store} {label : String} {boundary : List CellId} {check : BoundaryCheck}

/-! ## 1. Boundaries that are accepted -/

theorem applyTo_createChecked_fst :
    ((Space.createChecked label boundary check).applyTo s).1 =
      (Cell.make s.lookup (s.nextId 0) label boundary check).map Cell.id := by
  rw [← Space.lookup_ofStore]
  exact Space.apply_createChecked_fst

/-- A store makes a cell exactly if the boundary makes one. -/
theorem applyTo_createChecked :
    (∃ id, ((Space.createChecked label boundary check).applyTo s).1 = .ok id) ↔
      ∃ c, Cell.make s.lookup (s.nextId 0) label boundary check = .ok c := by
  rw [applyTo_createChecked_fst]
  cases Cell.make s.lookup (s.nextId 0) label boundary check with
  | error e =>
    refine ⟨fun h => ?_, fun h => ?_⟩
    · obtain ⟨_, h⟩ := h
      cases h
    · obtain ⟨_, h⟩ := h
      cases h
  | ok c => exact ⟨fun _ => ⟨c, rfl⟩, fun _ => ⟨c.id, rfl⟩⟩

theorem known_iff_owned :
    (∀ b ∈ boundary, ∃ c, s.lookup.find b = some c) ↔ ∀ b ∈ boundary, s.owns b = true :=
  forall₂_congr fun _ _ => Store.owns_iff.symm

/-- **A store makes a cell of exactly the boundaries that it owns and that are lawful**: at most two
points, or faces of which one is no point, and which hang together; faces that are not a listing
must be minimal, and a listing must list something. -/
theorem create_isOk_iff (h : s.Reachable) (label : String) :
    (∀ boundary, boundary ≠ [] →
      ((∃ id, ((Space.create label boundary).applyTo s).1 = .ok id) ↔
        (∀ b ∈ boundary, s.owns b = true) ∧
          (((∀ b ∈ boundary, s.lookup.IsPoint b) ∧ boundary.length ≤ 2) ∨
            ((∃ b ∈ boundary, s.lookup.IsCompound b) ∧ s.lookup.HangsTogether boundary ∧
              s.lookup.Minimal boundary)))) ∧
    (∀ boundary, boundary ≠ [] →
      ((∃ id, ((Space.createListing label boundary).applyTo s).1 = .ok id) ↔
        (∀ b ∈ boundary, s.owns b = true) ∧
          (((∀ b ∈ boundary, s.lookup.IsPoint b) ∧ boundary.length ≤ 2) ∨
            ((∃ b ∈ boundary, s.lookup.IsCompound b) ∧ s.lookup.HangsTogether boundary)))) ∧
    ¬ ∃ id, ((Space.createListing label []).applyTo s).1 = .ok id := by
  have hs := h.consistent.sound
  refine ⟨fun boundary hne => ?_, fun boundary hne => ?_, ?_⟩
  · have hmake : (∃ c, Cell.make s.lookup (s.nextId 0) label boundary .full = .ok c) ↔
        s.lookup.Lawful boundary .full := make_isOk_iff hs hne
    rw [Space.create, applyTo_createChecked, hmake, Lookup.lawful_full, known_iff_owned]
    exact Iff.rfl
  · have hmake : (∃ c, Cell.make s.lookup (s.nextId 0) label boundary .connectivity = .ok c) ↔
        s.lookup.Lawful boundary .connectivity := make_isOk_iff hs hne
    rw [Space.createListing, applyTo_createChecked, hmake, Lookup.lawful_connectivity,
      known_iff_owned]
    exact Iff.rfl
  · intro h'
    obtain ⟨id, hid⟩ := h'
    obtain ⟨c, hc⟩ := applyTo_createChecked.mp ⟨id, hid⟩
    rcases make_eq_ok.mp hc with ⟨_, hfull, _⟩ | hbuild
    · cases hfull
    · exact (build_eq_ok.mp hbuild).1 rfl

/-- Two cells with a point below them in common hang together. -/
theorem Lookup.hangsTogether_pair {look : Lookup} {a b p : CellId} (ha : look.PointBelow a p)
    (hb : look.PointBelow b p) : look.HangsTogether [a, b] := by
  intro j hj
  have hj' : j < 2 := hj
  rcases Nat.lt_succ_iff_lt_or_eq.mp hj' with hzero | rfl
  · rw [Nat.lt_one_iff.mp hzero]
  · exact .single ⟨a, b, p, rfl, rfl, ha, hb⟩

/-- Three points, and two edges with a point in common. -/
def twoEdges : Store :=
  runAll (.empty 0) [.create "a" [], .create "b" [], .create "c" [],
    .create "ab" [⟨0, 0⟩, ⟨0, 1⟩], .create "bc" [⟨0, 1⟩, ⟨0, 2⟩]]

/-- The two edges bound a cell; the first edge twice makes a listing only. -/
theorem create_isOk_twoEdges :
    (∃ id, ((Space.create "abc" [⟨0, 3⟩, ⟨0, 4⟩]).applyTo twoEdges).1 = .ok id) ∧
      (¬ ∃ id, ((Space.create "abab" [⟨0, 3⟩, ⟨0, 3⟩]).applyTo twoEdges).1 = .ok id) ∧
      ∃ id, ((Space.createListing "abab" [⟨0, 3⟩, ⟨0, 3⟩]).applyTo twoEdges).1 = .ok id := by
  have hreach : twoEdges.Reachable := (Store.Reachable.empty 0).runAll _
  have hdim : ∀ x ∈ [(⟨0, 3⟩ : CellId), ⟨0, 4⟩],
      ∃ c, twoEdges.lookup.find x = some c ∧ c.dimension = 1 := by
    intro x hx
    rcases List.mem_pair.mp hx with rfl | rfl
    · exact ⟨_, rfl, rfl⟩
    · exact ⟨_, rfl, rfl⟩
  have hcompound : twoEdges.lookup.IsCompound ⟨0, 3⟩ := by
    obtain ⟨c, hc, h⟩ := hdim ⟨0, 3⟩ List.mem_cons_self
    exact ⟨c, hc, Nat.le_of_eq h.symm⟩
  -- the point in common lies below both edges
  have hbelow : ∀ x ∈ [(⟨0, 3⟩ : CellId), ⟨0, 4⟩], twoEdges.lookup.PointBelow x ⟨0, 1⟩ := by
    intro x hx
    refine ⟨.single ?_, _, rfl, rfl⟩
    rcases List.mem_pair.mp hx with rfl | rfl
    · exact ⟨_, rfl, by decide⟩
    · exact ⟨_, rfl, by decide⟩
  have hfirst := hbelow ⟨0, 3⟩ List.mem_cons_self
  have hminimal : twoEdges.lookup.Minimal [⟨0, 3⟩, ⟨0, 4⟩] :=
    hreach.consistent.sound.minimal_of_dimension (by decide) hdim
  refine ⟨((create_isOk_iff hreach "abc").1 _ (List.cons_ne_nil _ _)).mpr ⟨by decide, Or.inr
      ⟨⟨_, List.mem_cons_self, hcompound⟩, ?_, hminimal⟩⟩, fun h => ?_,
    ((create_isOk_iff hreach "abab").2.1 _ (List.cons_ne_nil _ _)).mpr ⟨by decide, Or.inr
      ⟨⟨_, List.mem_cons_self, hcompound⟩, ?_⟩⟩⟩
  · exact Lookup.hangsTogether_pair hfirst (hbelow ⟨0, 4⟩ (by decide))
  · rcases (((create_isOk_iff hreach "abab").1 _ (List.cons_ne_nil _ _)).mp h).2 with
      ⟨hpoints, _⟩ | ⟨_, _, hmin⟩
    · obtain ⟨c, hc, hzero⟩ := hpoints ⟨0, 3⟩ List.mem_cons_self
      obtain ⟨d, hd, hpos⟩ := hcompound
      cases hc.symm.trans hd
      omega
    · exact absurd hmin.nodup (by decide)
  · exact Lookup.hangsTogether_pair hfirst hfirst

/-! ## 2. Boundaries that are refused -/

/-- A store refuses a boundary with the error that making a cell of it ends with. -/
theorem applyTo_createChecked_error {e : StoreError} :
    ((Space.createChecked label boundary check).applyTo s).1 = .error e ↔
      Cell.make s.lookup (s.nextId 0) label boundary check = .error e := by
  rw [applyTo_createChecked_fst]
  cases Cell.make s.lookup (s.nextId 0) label boundary check with
  | error e' => exact ⟨fun h => by cases h; rfl, fun h => by cases h; rfl⟩
  | ok c => exact ⟨fun h => (by cases h), fun h => by cases h⟩

/-- **A store that refuses a boundary names a true culprit**: the first id that it does not own;
else the number of the points, if there are only points; else the first cell that no chain of
adjoining cells ties to the first one; else a cell that is listed twice, or that lies below another
one that is listed. A culprit is always refused, with the error that names it, and the error is the
same for a listing, which may fail to be minimal. -/
theorem create_names_culprit (h : s.Reachable) (label : String) {boundary : List CellId}
    (hne : boundary ≠ []) :
    (∀ e, ((Space.create label boundary).applyTo s).1 = .error e →
      s.lookup.Culprit label boundary e) ∧
    (∀ e, (∀ l a b, e ≠ .nonMinimalBoundary l a b) → s.lookup.Culprit label boundary e →
      ((Space.create label boundary).applyTo s).1 = .error e) ∧
    (∀ a b, s.lookup.Culprit label boundary (.nonMinimalBoundary label a b) →
      ∃ a' b', ((Space.create label boundary).applyTo s).1 =
        .error (.nonMinimalBoundary label a' b')) ∧
    ∀ e, ((Space.createListing label boundary).applyTo s).1 = .error e ↔
      ((Space.create label boundary).applyTo s).1 = .error e ∧
        ∀ l a b, e ≠ .nonMinimalBoundary l a b := by
  have hs := h.consistent.sound
  unfold Space.create Space.createListing
  simp only [applyTo_createChecked_error]
  refine ⟨fun e he => (make_eq_error hs hne he).1, fun e hother he => make_culprit hs hne he hother,
    fun a b he => make_not_minimal hs hne he, fun e => ⟨fun he => ?_, fun he => ?_⟩⟩
  · obtain ⟨hculprit, hother⟩ := make_eq_error hs hne he
    exact ⟨make_culprit hs hne hculprit (hother rfl), hother rfl⟩
  · exact make_culprit hs hne (make_eq_error hs hne he.1).1 he.2

/-- Three points are too many for an edge, and an edge with one of its own points is not minimal. -/
theorem create_names_culprit_twoEdges :
    ((Space.create "abc" [⟨0, 0⟩, ⟨0, 1⟩, ⟨0, 2⟩]).applyTo twoEdges).1 =
        .error (.tooManyEndpoints "abc" 3) ∧
      ((Space.create "aba" [⟨0, 3⟩, ⟨0, 0⟩]).applyTo twoEdges).1 =
        .error (.nonMinimalBoundary "aba" ⟨0, 0⟩ ⟨0, 3⟩) := by
  have hreach : twoEdges.Reachable := (Store.Reachable.empty 0).runAll _
  have hs := hreach.consistent.sound
  have hedge : ∃ c, twoEdges.lookup.find ⟨0, 3⟩ = some c ∧ c.dimension = 1 ∧
      (⟨0, 0⟩ : CellId) ∈ c.boundary := ⟨_, rfl, rfl, by decide⟩
  have hpoint : ∃ c, twoEdges.lookup.find ⟨0, 0⟩ = some c ∧ c.dimension = 0 := ⟨_, rfl, rfl⟩
  obtain ⟨c, hc, hone, hlists⟩ := hedge
  obtain ⟨d, hd, hzero⟩ := hpoint
  have hlies : twoEdges.lookup.Contains ⟨0, 3⟩ ⟨0, 0⟩ := .single ⟨c, hc, hlists⟩
  have hcomp : twoEdges.lookup.Compound [⟨0, 3⟩, ⟨0, 0⟩] := by
    refine ⟨fun b hb => ?_, _, List.mem_cons_self, c, hc, Nat.le_of_eq hone.symm⟩
    rcases List.mem_pair.mp hb with rfl | rfl
    · exact ⟨c, hc⟩
    · exact ⟨d, hd⟩
  have htied : ∀ b ∈ [(⟨0, 3⟩ : CellId), ⟨0, 0⟩], twoEdges.lookup.Tied [⟨0, 3⟩, ⟨0, 0⟩] b := by
    intro b hb
    refine ⟨⟨0, 3⟩, rfl, ?_⟩
    rcases List.mem_pair.mp hb with rfl | rfl
    · exact .refl
    · have hbelow : twoEdges.lookup.PointBelow ⟨0, 0⟩ ⟨0, 0⟩ := ⟨.refl, d, hd, hzero⟩
      exact .single ⟨List.mem_cons_self, hb, c, d, ⟨0, 0⟩, hc, hd,
        (hs.closure _ c hc _).mpr ⟨hlies.to_reflTransGen, d, hd, hzero⟩,
        (hs.closure _ d hd _).mpr hbelow⟩
  have hlower : ∃ c d, twoEdges.lookup.find ⟨0, 3⟩ = some c ∧
      twoEdges.lookup.find ⟨0, 0⟩ = some d ∧ d.dimension < c.dimension :=
    ⟨c, d, hc, hd, by omega⟩
  refine ⟨(create_names_culprit hreach "abc" (List.cons_ne_nil _ _)).2.1 _
    (fun _ _ _ h => by cases h) (.ends (by decide) (by decide)), ?_⟩
  obtain ⟨hnames, _, hrefused, _⟩ :=
    create_names_culprit hreach "aba" (List.cons_ne_nil ⟨0, 3⟩ [⟨0, 0⟩])
  obtain ⟨x, y, hxy⟩ := hrefused _ _
    (.below hcomp htied (by decide) (by decide) hlies hlower)
  -- of the two cells, only the point lies below the other
  cases hnames _ hxy with
  | twice _ _ hdup => exact absurd (by decide) hdup.not_nodup
  | below _ _ hx hy _ hlow =>
    obtain ⟨c', d', hc', hd', hlt⟩ := hlow
    rcases List.mem_pair.mp hx with rfl | rfl <;> rcases List.mem_pair.mp hy with rfl | rfl
    · cases hc'.symm.trans hd'
      omega
    · cases hc'.symm.trans hd
      omega
    · exact hxy
    · cases hc'.symm.trans hd'
      omega

end CellComplex
