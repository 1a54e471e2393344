import CellComplex.Proofs.Boundary.Faces
import CellComplex.Proofs.Search.Reach

/-!
# When a boundary is minimal

The check searches below every face, paints what it visits, does not enter cells as low as the
lowest face, and fails when it meets a listed cell. In a sound lookup neither the paint of earlier
faces nor the cut loses anything, and the check says what its name says:

* `Lookup.Minimal`: no id is listed twice, and no listed cell is contained in another one;
* `contains_of_reached`, **`reached_of_contains`**: the search meets cells below the face, and all
  of them that are no lower than the lowest face;
* **`paintAll_eq_ok_iff`**: with all the paint, every face is searched as if on its own;
* **`checkMinimal_eq_ok_iff`**: the check succeeds exactly on the minimal boundaries.
-/

namespace CellComplex

/-- **No id is listed twice, and no listed cell can be reached from another one.** -/
structure Lookup.Minimal (look : Lookup) (boundary : List CellId) : Prop where
  nodup : boundary.Nodup
  apart : ∀ a ∈ boundary, ∀ b ∈ boundary, a ≠ b → ¬ look.Contains a b

/-- Faces of one dimension are minimal if none is listed twice. -/
theorem Lookup.Sound.minimal_of_dimension {look : Lookup} (hs : look.Sound)
    {boundary : List CellId} {n : Nat} (hnodup : boundary.Nodup)
    (hdim : ∀ b ∈ boundary, ∃ c, look.find b = some c ∧ c.dimension = n) :
    look.Minimal boundary := by
  refine ⟨hnodup, fun a ha b hb _ hab => ?_⟩
  obtain ⟨c, d, hc, hd, hlt⟩ := hs.contains_lt hab
  obtain ⟨c', hc', hcn⟩ := hdim a ha
  obtain ⟨d', hd', hdn⟩ := hdim b hb
  cases hc.symm.trans hc'
  cases hd.symm.trans hd'
  omega

/-! ## 1. Repetitions -/

theorem firstRepeat_eq_none_iff {seen : CellSet} {ids : List CellId} :
    firstRepeat seen ids = none ↔ ids.Nodup ∧ ∀ x ∈ ids, x ∉ seen := by
  induction ids generalizing seen with
  | nil => exact ⟨fun _ => ⟨.nil, fun x hx => absurd hx List.not_mem_nil⟩, fun _ => rfl⟩
  | cons id rest ih =>
    unfold firstRepeat
    rw [List.nodup_cons, List.forall_mem_cons]
    split
    · next hseen =>
      exact ⟨fun h => (by cases h), fun h => absurd hseen h.2.1⟩
    · next hseen =>
      rw [ih]
      have hmem : ∀ x, x ∈ seen.insert id ↔ id = x ∨ x ∈ seen := by
        intro x
        rw [Std.TreeSet.mem_insert, Std.LawfulEqCmp.compare_eq_iff_eq]
      refine ⟨fun h' => ?_, fun h' => ?_⟩
      · obtain ⟨hnodup, hnew⟩ := h'
        refine ⟨⟨fun hid => hnew id hid ((hmem id).mpr (Or.inl rfl)), hnodup⟩, hseen, ?_⟩
        exact fun x hx hold => hnew x hx ((hmem x).mpr (Or.inr hold))
      · obtain ⟨⟨hid, hnodup⟩, _, hnew⟩ := h'
        refine ⟨hnodup, fun x hx hin => ?_⟩
        rcases (hmem x).mp hin with rfl | hold
        · exact hid hx
        · exact hnew x hx hold

/-! ## 2. The search below a face -/

section Search

variable {look : Lookup} {label : String} {listed : CellSet} {floor : Nat} {container : CellId}

theorem partsOf_next_eq_ok {id : CellId} {ids : List CellId} :
    (partsOf look label listed floor container).next id = .ok ids ↔
      id ∉ listed ∧ ∃ c, look.find id = some c ∧
        ids = if floor < c.dimension then c.boundary.reverse else [] := by
  show (if listed.contains id then _ else _) = Except.ok ids ↔ _
  split
  · next h => exact ⟨fun h' => (by cases h'), fun h' => absurd h h'.1⟩
  · next h =>
    cases hc : look.find id with
    | none =>
      refine ⟨fun h' => (by cases h'), fun h' => ?_⟩
      obtain ⟨_, _, h', _⟩ := h'
      cases h'
    | some c =>
      refine ⟨fun h' => ?_, fun hx => ?_⟩
      · cases h'
        exact ⟨h, c, rfl, rfl⟩
      · obtain ⟨_, c', hc', rfl⟩ := hx
        cases hc'
        rfl

theorem partsOf_next_eq_error {id : CellId} {e : StoreError} :
    (partsOf look label listed floor container).next id = .error e ↔
      (id ∈ listed ∧ e = .nonMinimalBoundary label id container) ∨
        (id ∉ listed ∧ look.find id = none ∧ e = .unknownCell id) := by
  show (if listed.contains id then _ else _) = Except.error e ↔ _
  split
  · next h =>
    refine ⟨fun h' => Or.inl ⟨h, (Except.error.inj h').symm⟩, fun h' => ?_⟩
    obtain ⟨_, rfl⟩ | ⟨hnot, _⟩ := h'
    · rfl
    · exact absurd h hnot
  · next h =>
    cases hc : look.find id with
    | none =>
      refine ⟨fun h' => Or.inr ⟨h, rfl, (Except.error.inj h').symm⟩, fun h' => ?_⟩
      obtain ⟨hin, _⟩ | ⟨_, _, rfl⟩ := h'
      · exact absurd hin h
      · rfl
    | some c =>
      refine ⟨fun h' => (by cases h'), fun h' => ?_⟩
      obtain ⟨hin, _⟩ | ⟨_, hnone, _⟩ := h'
      · exact absurd hin h
      · cases hnone

/-- What the search meets lies below the face. -/
theorem contains_of_reached {a : CellId} {c : Cell} (ha : look.find a = some c) {x : CellId}
    (h : (partsOf look label listed floor container).Reached c.boundary.reverse x) :
    look.Contains a x := by
  obtain ⟨b, hb, hbx⟩ := h
  have hstart : look.Contains a b := .single ⟨c, ha, List.mem_reverse.mp hb⟩
  induction hbx with
  | refl => exact hstart
  | tail _ hstep ih =>
    obtain ⟨ids, hnext, hy⟩ := hstep
    obtain ⟨_, d, hd, rfl⟩ := partsOf_next_eq_ok.mp hnext
    split at hy
    · exact ih.tail ⟨d, hd, List.mem_reverse.mp hy⟩
    · exact absurd hy List.not_mem_nil

/-- **A search that does not fail meets every cell below the face, except those that are lower than
the lowest face.** -/
theorem reached_of_contains (hs : look.Sound) {a : CellId} {c : Cell}
    (ha : look.find a = some c)
    (hok : ∀ x, (partsOf look label listed floor container).Reached c.boundary.reverse x →
      ∃ ids, (partsOf look label listed floor container).next x = .ok ids)
    {x : CellId} (hx : look.Contains a x) :
    (partsOf look label listed floor container).Reached c.boundary.reverse x ∨
      ∃ d, look.find x = some d ∧ d.dimension < floor := by
  induction hx with
  | single hstep =>
    have hb := (Lookup.lists_iff ha).mp hstep
    exact Or.inl (Branching.reached_of_mem (List.mem_reverse.mpr hb))
  | tail _ hstep ih =>
    obtain ⟨d, hd, hb⟩ := hstep
    obtain ⟨e, he, hlt⟩ := hs.lower _ d hd _ hb
    rcases ih with hreach | ⟨d', hd', hfloor⟩
    · obtain ⟨ids, hnext⟩ := hok _ hreach
      obtain ⟨_, d', hd', hids⟩ := partsOf_next_eq_ok.mp hnext
      cases hd.symm.trans hd'
      -- the search enters this cell, or all that lies below it is too low
      by_cases hfloor : floor < d.dimension
      · rw [if_pos hfloor] at hids
        obtain ⟨y, hy, hyx⟩ := hreach
        exact Or.inl ⟨y, hy, hyx.tail ⟨ids, hnext, hids ▸ List.mem_reverse.mpr hb⟩⟩
      · exact Or.inr ⟨e, he, by omega⟩
    · cases hd.symm.trans hd'
      exact Or.inr ⟨e, he, by omega⟩

/-- The search below one face ends well exactly if it contains no listed cell. -/
theorem preorder_partsOf_isOk_iff (hs : look.Sound) {a : CellId} {c : Cell}
    (ha : look.find a = some c)
    (hfloor : ∀ x ∈ listed, ∃ d, look.find x = some d ∧ floor ≤ d.dimension) :
    (∃ order, (partsOf look label listed floor container).preorder c.boundary.reverse = .ok order) ↔
      ∀ x ∈ listed, ¬ look.Contains a x := by
  rw [Branching.preorder_isOk_iff]
  refine ⟨fun hok x hx hax => ?_, fun hapart x hreach => ?_⟩
  · rcases reached_of_contains hs ha hok hax with hreach | ⟨d, hd, hlt⟩
    · obtain ⟨ids, hnext⟩ := hok x hreach
      exact (partsOf_next_eq_ok.mp hnext).1 hx
    · obtain ⟨d', hd', hle⟩ := hfloor x hx
      cases hd.symm.trans hd'
      omega
  · have hax := contains_of_reached ha hreach
    obtain ⟨_, d, _, hd, _⟩ := hs.contains_lt hax
    exact ⟨_, partsOf_next_eq_ok.mpr ⟨fun hx => hapart x hx hax, d, hd, rfl⟩⟩

end Search

/-! ## 3. All faces -/

section Check

variable {look : Lookup} {label : String} {boundary : List CellId} {faces : List Cell}

theorem mem_ofList {x : CellId} : x ∈ Std.TreeSet.ofList boundary ↔ x ∈ boundary := by
  rw [Std.TreeSet.mem_ofList, List.contains_iff_mem]

theorem exists_face_id (hs : look.Sound) (hfaces : boundary.mapM look.resolve = .ok faces)
    {x : CellId} (hx : x ∈ boundary) : ∃ f ∈ faces, f.id = x ∧ look.find x = some f := by
  obtain ⟨f, hf, hfind⟩ := Lookup.exists_face hfaces hx
  exact ⟨f, hf, hs.id_eq x f hfind, hfind⟩

/-- A search with the next color leaves no color beyond it. -/
theorem painted_lt {b : Branching StoreError} {k : Nat} {paint paint' : Std.TreeMap CellId Nat}
    {stack : List CellId} (hpaint : ∀ (x : CellId) (j : Nat), paint[x]? = some j → j < k)
    (h : b.paintFrom k paint stack = .ok paint') (x : CellId) (j : Nat)
    (hx : paint'[x]? = some j) : j < k + 1 := by
  rcases Branching.getElem?_paintFrom h x with hcolor | hold
  · rw [hcolor] at hx
    cases hx
    exact Nat.lt_succ_self k
  · rw [hold] at hx
    exact Nat.lt_succ_of_lt (hpaint x j hx)

theorem nothing_painted (x : CellId) (j : Nat) (hx : (∅ : Std.TreeMap CellId Nat)[x]? = some j) :
    j < 0 := by
  rw [Std.TreeMap.getElem?_emptyc] at hx
  cases hx

/-- **The paint of earlier faces does not matter**: the faces are searched each on its own. -/
theorem paintAll_eq_ok_iff {listed : CellSet} {floor k : Nat} {paint : Std.TreeMap CellId Nat}
    (hpaint : ∀ (x : CellId) (j : Nat), paint[x]? = some j → j < k) :
    (∃ paint', (faces.zipIdx k).foldlM (fun paint placed =>
        (partsOf look label listed floor placed.1.id).paintFrom placed.2 paint
          placed.1.boundary.reverse) paint = .ok paint') ↔
      ∀ f ∈ faces, ∃ order,
        (partsOf look label listed floor f.id).preorder f.boundary.reverse = .ok order := by
  induction faces generalizing k paint with
  | nil => exact iff_of_true ⟨paint, rfl⟩ fun f hf => absurd hf List.not_mem_nil
  | cons f rest ih =>
    rw [List.zipIdx_cons, List.foldlM_cons, List.forall_mem_cons]
    have hnew : ∀ x : CellId, paint[x]? ≠ some k :=
      fun x hx => Nat.lt_irrefl k (hpaint x k hx)
    have hown : (∃ paint', (partsOf look label listed floor f.id).paintFrom k paint
        f.boundary.reverse = .ok paint') ↔
        ∃ order, (partsOf look label listed floor f.id).preorder f.boundary.reverse = .ok order :=
      Outcome.isOk_congr (Branching.paintFrom_eq_preorder hnew)
    rw [← hown]
    refine ⟨fun h => ?_, fun h => ?_⟩
    · obtain ⟨last, h⟩ := h
      obtain ⟨paint', hfirst, hrest⟩ := Outcome.bind_eq_ok.mp h
      exact ⟨⟨paint', hfirst⟩, (ih (painted_lt hpaint hfirst)).mp ⟨last, hrest⟩⟩
    · obtain ⟨⟨paint', hfirst⟩, hrest⟩ := h
      obtain ⟨last, hlast⟩ := (ih (painted_lt hpaint hfirst)).mpr hrest
      exact ⟨last, Outcome.bind_eq_ok.mpr ⟨paint', hfirst, hlast⟩⟩

/-- The search below one face succeeds exactly if it contains nothing that is listed. -/
theorem searchBelow_isOk_iff (hs : look.Sound) (hfaces : boundary.mapM look.resolve = .ok faces)
    {f : Cell} (hf : f ∈ faces) :
    (∃ order, (partsOf look label (Std.TreeSet.ofList boundary) (lowest faces) f.id).preorder
        f.boundary.reverse = .ok order) ↔ ∀ x ∈ boundary, ¬ look.Contains f.id x := by
  have hfind : look.find f.id = some f := by
    obtain ⟨b, _, hb⟩ := Lookup.exists_listed hfaces hf
    rw [hs.id_eq b f hb, hb]
  have hfloor : ∀ x ∈ Std.TreeSet.ofList boundary,
      ∃ d, look.find x = some d ∧ lowest faces ≤ d.dimension := by
    intro x hx
    obtain ⟨d, hd, hdx⟩ := Lookup.exists_face hfaces (mem_ofList.mp hx)
    exact ⟨d, hdx, lowest_le hd⟩
  rw [preorder_partsOf_isOk_iff hs hfind hfloor]
  exact forall_congr' fun x => imp_congr_left mem_ofList

/-- **The check succeeds exactly on the minimal boundaries.** -/
theorem checkMinimal_eq_ok_iff (hs : look.Sound)
    (hfaces : boundary.mapM look.resolve = .ok faces) :
    checkMinimal look label faces = .ok () ↔ look.Minimal boundary := by
  unfold checkMinimal
  rw [Lookup.map_id_faces hfaces hs]
  dsimp only
  split
  · next id hrepeat =>
    refine iff_of_false (fun h => by cases h) fun hmin => ?_
    have hnone : firstRepeat ∅ boundary = none :=
      firstRepeat_eq_none_iff.mpr ⟨hmin.nodup, fun x _ => Std.TreeSet.not_mem_emptyc⟩
    rw [hnone] at hrepeat
    cases hrepeat
  · next hrepeat =>
    obtain ⟨hnodup, _⟩ := firstRepeat_eq_none_iff.mp hrepeat
    rw [Outcome.discard_eq_ok, paintAll_eq_ok_iff nothing_painted]
    refine ⟨fun h => ?_, fun hmin f hf => ?_⟩
    · refine ⟨hnodup, fun a ha b hb _ hab => ?_⟩
      obtain ⟨f, hf, rfl, _⟩ := exists_face_id hs hfaces ha
      exact (searchBelow_isOk_iff hs hfaces hf).mp (h f hf) b hb hab
    · refine (searchBelow_isOk_iff hs hfaces hf).mpr fun x hx hfx => ?_
      obtain ⟨b, hb, hfind⟩ := Lookup.exists_listed hfaces hf
      rw [hs.id_eq b f hfind] at hfx
      -- a cell does not contain itself
      have hne : b ≠ x := by
        rintro rfl
        exact hs.not_contains_self hfx
      exact hmin.apart b hb x hx hne hfx

end Check

end CellComplex
