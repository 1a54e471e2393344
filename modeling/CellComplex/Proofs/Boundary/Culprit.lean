import CellComplex.Proofs.Boundary.Make
import Mathlib.Data.List.Duplicate

/-!
# What a refused boundary is refused for

A boundary is refused with an error that names cells. The forest of classes and the search with
paint find these cells by their own ways; here it is said of each error, by the boundary alone, what
is true of the cells that it names:

* `FirstIn`: the first element of a list with a property;
* `Lookup.Adjoin`, `Lookup.Tied`: cells whose closures have a point in common; listed cells that a
  chain of such cells ties to the first one;
* **`Lookup.Culprit`**: the errors that a boundary can be refused with;
* `firstApart_tied`: the offender of a boundary in pieces is the first listed cell that is not tied;
* `checkMinimal_eq_error`: of the two cells of a boundary that is not minimal, one is listed twice
  or lies below the other -- the paint of earlier faces hides the cell where a search fails no more
  than it hides that the search fails (`paintAll_eq_error`);
* **`make_eq_error`**: a refusal names a culprit;
* **`make_culprit`**: a culprit is refused; `Lookup.Culprit.unique`: by one error only, unless the
  boundary is not minimal.
-/

namespace CellComplex

/-! ## 1. Culprits -/

section First

variable {α β : Type} {p : α → Prop} {l : List α} {x y : α}

/-- The first element of a list with a property. -/
def FirstIn (p : α → Prop) (l : List α) (x : α) : Prop :=
  ∃ before after, l = before ++ x :: after ∧ p x ∧ ∀ y ∈ before, ¬ p y

theorem FirstIn.mem (h : FirstIn p l x) : x ∈ l := by
  obtain ⟨before, after, rfl, _⟩ := h
  exact List.mem_append_right _ List.mem_cons_self

theorem FirstIn.holds (h : FirstIn p l x) : p x := by
  obtain ⟨_, _, _, hx, _⟩ := h
  exact hx

/-- There is one first element at most. -/
theorem FirstIn.unique (h : FirstIn p l x) (h' : FirstIn p l y) : x = y := by
  obtain ⟨before, after, rfl, hx, hbefore⟩ := h
  obtain ⟨before', after', hl, hy, hbefore'⟩ := h'
  rcases List.append_eq_append_iff.mp hl with ⟨mid, rfl, htail⟩ | ⟨mid, rfl, htail⟩
  · cases mid with
    | nil => exact (List.cons.inj htail).1
    | cons z mid =>
      cases (List.cons.inj htail).1
      exact absurd hx (hbefore' x (List.mem_append_right _ List.mem_cons_self))
  · cases mid with
    | nil => exact (List.cons.inj htail).1.symm
    | cons z mid =>
      cases (List.cons.inj htail).1
      exact absurd hy (hbefore y (List.mem_append_right _ List.mem_cons_self))

theorem FirstIn.cons {z : α} (hz : ¬ p z) (h : FirstIn p l x) : FirstIn p (z :: l) x := by
  obtain ⟨before, after, rfl, hx, hbefore⟩ := h
  exact ⟨z :: before, after, rfl, hx, List.forall_mem_cons.mpr ⟨hz, hbefore⟩⟩

theorem FirstIn.congr {q : α → Prop} (hpq : ∀ y ∈ l, q y ↔ p y) (h : FirstIn p l x) :
    FirstIn q l x := by
  have hx := (hpq x h.mem).mpr h.holds
  obtain ⟨before, after, rfl, _, hbefore⟩ := h
  exact ⟨before, after, rfl, hx,
    fun y hy hq => hbefore y hy ((hpq y (List.mem_append_left _ hy)).mp hq)⟩

/-- The image of the first element is the first element of the image. -/
theorem FirstIn.map {q : β → Prop} {g : α → β} (h : FirstIn (fun y => q (g y)) l x) :
    FirstIn q (l.map g) (g x) := by
  obtain ⟨before, after, rfl, hx, hbefore⟩ := h
  refine ⟨before.map g, after.map g, by rw [List.map_append, List.map_cons], hx, fun z hz => ?_⟩
  obtain ⟨y, hy, rfl⟩ := List.mem_map.mp hz
  exact hbefore y hy

end First

namespace Lookup

/-- Two cells whose closures have a point in common. -/
def Adjoin (look : Lookup) (a b : CellId) : Prop :=
  ∃ c d p, look.find a = some c ∧ look.find b = some d ∧ p ∈ c.closure ∧ p ∈ d.closure

/-- A chain of listed cells, each with a point in common with the next, leads from the first one to
this one. -/
def Tied (look : Lookup) (boundary : List CellId) (o : CellId) : Prop :=
  ∃ first, boundary.head? = some first ∧
    Relation.ReflTransGen (fun a b => a ∈ boundary ∧ b ∈ boundary ∧ look.Adjoin a b) first o

/-- The faces of a boundary are known, and one of them is no point. -/
def Compound (look : Lookup) (boundary : List CellId) : Prop :=
  (∀ b ∈ boundary, ∃ c, look.find b = some c) ∧ ∃ b ∈ boundary, look.IsCompound b

/-- **The errors that a boundary can be refused with**, and what is true of the cells they name. A
cause comes after all that is asked before it. -/
inductive Culprit (look : Lookup) (label : String) (boundary : List CellId) :
    StoreError → Prop where
  /-- The first listed id that is not known. -/
  | unknown {i : CellId} (first : FirstIn (fun b => look.find b = none) boundary i) :
    Culprit look label boundary (.unknownCell i)
  /-- More points than an edge has ends. -/
  | ends (points : ∀ b ∈ boundary, look.IsPoint b) (many : 2 < boundary.length) :
    Culprit look label boundary (.tooManyEndpoints label boundary.length)
  /-- The first listed cell that no chain ties to the first one. -/
  | apart {o : CellId} (compound : look.Compound boundary)
      (first : FirstIn (fun b => ¬ look.Tied boundary b) boundary o) :
    Culprit look label boundary (.disconnectedBoundary label o)
  /-- A cell that is listed twice. -/
  | twice {x : CellId} (compound : look.Compound boundary)
      (tied : ∀ b ∈ boundary, look.Tied boundary b) (duplicate : List.Duplicate x boundary) :
    Culprit look label boundary (.nonMinimalBoundary label x x)
  /-- A listed cell that lies below another listed cell. -/
  | below {x y : CellId} (compound : look.Compound boundary)
      (tied : ∀ b ∈ boundary, look.Tied boundary b) (contained : x ∈ boundary)
      (container : y ∈ boundary) (lies : look.Contains y x)
      (lower : ∃ c d, look.find y = some c ∧ look.find x = some d ∧ d.dimension < c.dimension) :
    Culprit look label boundary (.nonMinimalBoundary label x y)

end Lookup

section Culprits

variable {look : Lookup} {id : CellId} {label : String} {boundary : List CellId}
variable {check : BoundaryCheck} {faces : List Cell} {e e' : StoreError}

/-- A compound boundary does not consist of points. -/
theorem Lookup.Compound.not_points (h : look.Compound boundary) :
    ¬ ∀ b ∈ boundary, look.IsPoint b := by
  intro hpoints
  obtain ⟨b, hb, c, hc, hpos⟩ := h.2
  obtain ⟨c', hc', hzero⟩ := hpoints b hb
  cases hc.symm.trans hc'
  omega

/-- **There is one culprit at most**, unless it is a pair of cells that are not minimal. -/
theorem Lookup.Culprit.unique (h : look.Culprit label boundary e)
    (h' : look.Culprit label boundary e')
    (hother : ∀ l a b, e ≠ .nonMinimalBoundary l a b) : e = e' := by
  -- the causes exclude each other: known or not, points or not, tied or not
  have unknown_known : ∀ {i}, FirstIn (fun b => look.find b = none) boundary i →
      (∀ b ∈ boundary, ∃ c, look.find b = some c) → False := by
    intro i hfirst hknown
    obtain ⟨c, hc⟩ := hknown i hfirst.mem
    cases hfirst.holds.symm.trans hc
  have points_known : (∀ b ∈ boundary, look.IsPoint b) →
      ∀ b ∈ boundary, ∃ c, look.find b = some c := by
    intro hpoints b hb
    obtain ⟨c, hc, _⟩ := hpoints b hb
    exact ⟨c, hc⟩
  cases h with
  | unknown hfirst =>
    cases h' with
    | unknown hfirst' => rw [hfirst.unique hfirst']
    | ends hpoints _ => exact (unknown_known hfirst (points_known hpoints)).elim
    | apart hcomp _ | twice hcomp _ _ | below hcomp _ _ _ _ _ =>
      exact (unknown_known hfirst hcomp.1).elim
  | ends hpoints _ =>
    cases h' with
    | unknown hfirst' => exact (unknown_known hfirst' (points_known hpoints)).elim
    | ends _ _ => rfl
    | apart hcomp _ | twice hcomp _ _ | below hcomp _ _ _ _ _ =>
      exact (hcomp.not_points hpoints).elim
  | apart hcomp hfirst =>
    cases h' with
    | unknown hfirst' => exact (unknown_known hfirst' hcomp.1).elim
    | ends hpoints _ => exact (hcomp.not_points hpoints).elim
    | apart _ hfirst' => rw [hfirst.unique hfirst']
    | twice _ htied _ | below _ htied _ _ _ _ =>
      exact (hfirst.holds (htied _ hfirst.mem)).elim
  | twice _ _ _ | below _ _ _ _ _ _ => exact absurd rfl (hother _ _ _)

end Culprits

/-! ## 2. Boundaries in pieces -/

section Apart

variable {look : Lookup} {boundary : List CellId} {faces : List Cell} {o : CellId} {j : Nat}

/-- Where the loop over the faces stops. -/
theorem firstOutside_eq_some {d : DisjointSets Vertex} {placed : List (Cell × Nat)}
    (h : firstOutside d placed = some o) :
    ∃ f k, FirstIn (fun q => ¬ d.Same (.face 0) (.face q.2)) placed (f, k) ∧ f.id = o := by
  induction placed generalizing d with
  | nil => cases h
  | cons head rest ih =>
    obtain ⟨f, k⟩ := head
    rw [firstOutside_cons] at h
    by_cases hc : (d.connected (.face 0) (.face k)).1 = true
    · rw [if_pos hc] at h
      obtain ⟨g, j, hfirst, hg⟩ := ih h
      simp only [DisjointSets.same_connected] at hfirst
      exact ⟨g, j, hfirst.cons (not_not.mpr (DisjointSets.connected_fst.mp hc)), hg⟩
    · rw [if_neg hc] at h
      exact ⟨f, k, ⟨[], rest, rfl, mt DisjointSets.connected_fst.mpr hc,
        fun y hy => absurd hy List.not_mem_nil⟩, Option.some.inj h⟩

/-- The face that is apart is the first one at whose place no chain ends. -/
theorem firstApart_eq_some (h : firstApart faces = some o) :
    ∃ f k, FirstIn (fun q : Cell × Nat => ¬ Relation.ReflTransGen (Touch faces) 0 q.2)
      faces.zipIdx (f, k) ∧ f.id = o := by
  have hchain : ∀ q ∈ faces.zipIdx, (¬ Relation.ReflTransGen (Touch faces) 0 q.2 ↔
      ¬ (joinFaces faces.zipIdx).Same (.face 0) (.face q.2)) :=
    fun q hq => not_congr (same_joinFaces_iff (List.mk_mem_zipIdx_iff_getElem?.mp hq)).symm
  obtain ⟨f, k, hfirst, hf⟩ := firstOutside_eq_some h
  cases faces with
  | nil => exact absurd hfirst.mem List.not_mem_nil
  | cons head rest =>
    have hzero : ¬ ¬ (joinFaces (head :: rest).zipIdx).Same (.face 0) (.face 0) :=
      not_not.mpr ((same_joinFaces_iff rfl).mpr .refl)
    have hwhole : FirstIn (fun q : Cell × Nat => ¬ (joinFaces (head :: rest).zipIdx).Same
        (.face 0) (.face q.2)) (head :: rest).zipIdx (f, k) :=
      FirstIn.cons (z := (head, 0)) hzero hfirst
    exact ⟨f, k, hwhole.congr hchain, hf⟩

variable (hs : look.Sound) (hfaces : boundary.mapM look.resolve = .ok faces)
include hs hfaces

/-- Chains of places are chains of the ids at these places. -/
theorem tied_iff_chain (ho : boundary[j]? = some o) :
    look.Tied boundary o ↔ Relation.ReflTransGen (Touch faces) 0 j := by
  refine ⟨fun h => ?_, fun h => ?_⟩
  · obtain ⟨first, hhead, hchain⟩ := h
    rw [List.head?_eq_getElem?] at hhead
    induction hchain generalizing j with
    | refl =>
      -- the first id may be listed again, and there its face touches itself
      obtain ⟨f, hf, hfind⟩ := Lookup.face_at hfaces hhead
      obtain ⟨g, hg, hfind'⟩ := Lookup.face_at hfaces ho
      cases hfind.symm.trans hfind'
      obtain ⟨p, hp⟩ := hs.closure_ne_empty hfind
      exact .single ⟨f, f, p, hf, hg, hp, hp⟩
    | tail _ hstep ih =>
      obtain ⟨ha, _, c, d, p, hc, hd, hpc, hpd⟩ := hstep
      obtain ⟨i, hi⟩ := List.mem_iff_getElem?.mp ha
      obtain ⟨f, hf, hfind⟩ := Lookup.face_at hfaces hi
      obtain ⟨g, hg, hfind'⟩ := Lookup.face_at hfaces ho
      cases hc.symm.trans hfind
      cases hd.symm.trans hfind'
      exact (ih hi).tail ⟨c, d, p, hf, hg, hpc, hpd⟩
  · induction h generalizing o with
    | refl =>
      refine ⟨o, ?_, .refl⟩
      rw [List.head?_eq_getElem?, ho]
    | tail _ hstep ih =>
      obtain ⟨f, g, p, hf, hg, hpf, hpg⟩ := hstep
      obtain ⟨a, ha, hfind⟩ := Lookup.listed_at hfaces hf
      obtain ⟨b, hb, hfind'⟩ := Lookup.listed_at hfaces hg
      cases ho.symm.trans hb
      obtain ⟨first, hhead, hchain⟩ := ih ha
      exact ⟨first, hhead, hchain.tail ⟨List.mem_of_getElem? ha, List.mem_of_getElem? ho,
        f, g, p, hfind, hfind', hpf, hpg⟩⟩

theorem hangsTogether_iff_tied :
    look.HangsTogether boundary ↔ ∀ b ∈ boundary, look.Tied boundary b := by
  refine ⟨fun h b hb => ?_, fun h j hj => ?_⟩
  · obtain ⟨j, hj⟩ := List.mem_iff_getElem?.mp hb
    rw [tied_iff_chain hs hfaces hj, touch_eq_meets hs hfaces]
    exact h j (List.getElem?_eq_some_iff.mp hj).1
  · rw [← touch_eq_meets hs hfaces]
    exact (tied_iff_chain hs hfaces (List.getElem?_eq_getElem hj)).mp
      (h _ (List.getElem_mem hj))

/-- **The offender of a boundary in pieces** is the first listed cell that is not tied. -/
theorem firstApart_tied (h : firstApart faces = some o) :
    FirstIn (fun b => ¬ look.Tied boundary b) boundary o := by
  obtain ⟨f, k, hfirst, rfl⟩ := firstApart_eq_some h
  have hids : faces.zipIdx.map (fun q => q.1.id) = boundary := by
    rw [← Lookup.map_id_faces hfaces hs]
    conv_rhs => rw [← List.zipIdx_map_fst 0 faces, List.map_map]
    rfl
  have hnot : ∀ q ∈ faces.zipIdx, (¬ look.Tied boundary q.1.id ↔
      ¬ Relation.ReflTransGen (Touch faces) 0 q.2) := by
    intro q hq
    have hget : faces[q.2]? = some q.1 := List.mk_mem_zipIdx_iff_getElem?.mp hq
    refine not_congr (tied_iff_chain hs hfaces ?_)
    rw [← Lookup.map_id_faces hfaces hs, List.getElem?_map, hget]
    rfl
  have hmap := (hfirst.congr hnot).map (q := fun b => ¬ look.Tied boundary b)
  rwa [hids] at hmap

end Apart

/-! ## 3. Boundaries that are not minimal -/

section Minimal

variable {look : Lookup} {label : String} {boundary : List CellId} {faces : List Cell}
variable {listed : CellSet} {floor : Nat} {container x : CellId} {e : StoreError}

/-- The id that is found again is listed twice, or was seen before. -/
theorem firstRepeat_eq_some {seen : CellSet} {ids : List CellId}
    (h : firstRepeat seen ids = some x) : List.Duplicate x ids ∨ (x ∈ ids ∧ x ∈ seen) := by
  induction ids generalizing seen with
  | nil => cases h
  | cons id rest ih =>
    unfold firstRepeat at h
    split at h
    · next hseen =>
      cases h
      exact Or.inr ⟨List.mem_cons_self, hseen⟩
    · rcases ih h with hdup | ⟨hmem, hseen⟩
      · exact Or.inl (hdup.duplicate_cons id)
      · rw [Std.TreeSet.mem_insert, Std.LawfulEqCmp.compare_eq_iff_eq] at hseen
        rcases hseen with rfl | hseen
        · exact Or.inl (.cons_mem hmem)
        · exact Or.inr ⟨List.mem_cons_of_mem _ hmem, hseen⟩

/-- **The paint of earlier faces does not matter** to where a search fails either. -/
theorem paintAll_eq_error {k : Nat} {paint : Std.TreeMap CellId Nat}
    (hpaint : ∀ (x : CellId) (j : Nat), paint[x]? = some j → j < k)
    (h : (faces.zipIdx k).foldlM (fun paint placed =>
      (partsOf look label listed floor placed.1.id).paintFrom placed.2 paint
        placed.1.boundary.reverse) paint = .error e) :
    ∃ f ∈ faces,
      (partsOf look label listed floor f.id).preorder f.boundary.reverse = .error e := by
  induction faces generalizing k paint with
  | nil => cases h
  | cons f rest ih =>
    rw [List.zipIdx_cons, List.foldlM_cons] at h
    have hnew : ∀ x : CellId, paint[x]? ≠ some k :=
      fun x hx => Nat.lt_irrefl k (hpaint x k hx)
    cases hfirst : (partsOf look label listed floor f.id).paintFrom k paint f.boundary.reverse with
    | error e' =>
      rw [hfirst] at h
      cases h
      exact ⟨f, List.mem_cons_self,
        Outcome.error_congr (Branching.paintFrom_eq_preorder hnew) hfirst⟩
    | ok paint' =>
      rw [hfirst] at h
      obtain ⟨g, hg, hsearch⟩ := ih (painted_lt hpaint hfirst) h
      exact ⟨g, List.mem_cons_of_mem _ hg, hsearch⟩

variable (hs : look.Sound) (hfaces : boundary.mapM look.resolve = .ok faces)
include hs hfaces

/-- **The two cells of a boundary that is not minimal**: one is listed twice, or lies below the
other. -/
theorem checkMinimal_eq_error (h : checkMinimal look label faces = .error e) :
    ∃ x y, e = .nonMinimalBoundary label x y ∧
      ((x = y ∧ List.Duplicate x boundary) ∨
        (x ∈ boundary ∧ y ∈ boundary ∧ look.Contains y x)) := by
  unfold checkMinimal at h
  rw [Lookup.map_id_faces hfaces hs] at h
  dsimp only at h
  split at h
  · next x hrepeat =>
    cases h
    refine ⟨x, x, rfl, Or.inl ⟨rfl, (firstRepeat_eq_some hrepeat).resolve_right fun h' => ?_⟩⟩
    exact Std.TreeSet.not_mem_emptyc h'.2
  · have hpaint := (Outcome.bind_eq_error.mp h).resolve_right fun h' => by
      obtain ⟨_, _, h'⟩ := h'
      cases h'
    obtain ⟨f, hf, hsearch⟩ := paintAll_eq_error nothing_painted hpaint
    obtain ⟨b, hb, hfind⟩ := Lookup.exists_listed hfaces hf
    have hid : f.id = b := hs.id_eq b f hfind
    obtain ⟨x, hreached, hnext⟩ := Branching.preorder_eq_error hsearch
    have hcontains : look.Contains f.id x := contains_of_reached (hid ▸ hfind) hreached
    obtain ⟨_, d, _, hd, _⟩ := hs.contains_lt hcontains
    rcases partsOf_next_eq_error.mp hnext with ⟨hlisted, rfl⟩ | ⟨_, hnone, _⟩
    · exact ⟨x, f.id, rfl, Or.inr ⟨mem_ofList.mp hlisted, hid ▸ hb, hcontains⟩⟩
    · cases hd.symm.trans hnone

end Minimal

/-! ## 4. What a refusal names -/

section Make

variable {look : Lookup} {id : CellId} {label : String} {boundary : List CellId}
variable {check : BoundaryCheck} {faces : List Cell} {e : StoreError}

/-- A boundary that cannot be made out has a first id that is not known. -/
theorem resolve_eq_error (h : boundary.mapM look.resolve = .error e) :
    ∃ i, e = .unknownCell i ∧ FirstIn (fun b => look.find b = none) boundary i := by
  obtain ⟨before, i, after, rfl, hi, hbefore⟩ := Outcome.mapM_eq_error h
  obtain ⟨hnone, rfl⟩ := Lookup.resolve_eq_error.mp hi
  refine ⟨i, rfl, before, after, rfl, hnone, fun y hy hfind => ?_⟩
  obtain ⟨c, hc⟩ := hbefore y hy
  cases (Lookup.resolve_eq_ok.mp hc).symm.trans hfind

theorem ofFaces_points_error (hzero : highest faces = 0)
    (h : Cell.ofFaces look id label boundary check faces = .error e) :
    edgeEnds < boundary.length ∧ e = .tooManyEndpoints label boundary.length := by
  rw [ofFaces_of_points hzero] at h
  split at h
  · next hmany =>
    cases h
    exact ⟨hmany, rfl⟩
  · cases h

theorem ofFaces_compound_error (hpos : highest faces ≠ 0)
    (h : Cell.ofFaces look id label boundary check faces = .error e) :
    (∃ o, firstApart faces = some o ∧ e = .disconnectedBoundary label o) ∨
      (firstApart faces = none ∧ check = .full ∧ checkMinimal look label faces = .error e) := by
  rw [ofFaces_of_compound hpos] at h
  rcases Outcome.bind_eq_error.mp h with hapart | ⟨_, hconn, h⟩
  · unfold checkConnected at hapart
    split at hapart
    · next o ho =>
      cases hapart
      exact Or.inl ⟨o, ho, rfl⟩
    · cases hapart
  · by_cases hfull : check = .full
    · rw [if_pos hfull] at h
      rcases Outcome.bind_eq_error.mp h with hmin | ⟨_, _, h⟩
      · exact Or.inr ⟨checkConnected_eq_ok_iff.mp hconn, hfull, hmin⟩
      · cases h
    · rw [if_neg hfull] at h
      cases h

variable (hs : look.Sound)
include hs

/-- Faces of which no cell is made have a culprit. Only the full check finds them not minimal. -/
theorem ofFaces_eq_error (hfaces : boundary.mapM look.resolve = .ok faces)
    (h : Cell.ofFaces look id label boundary check faces = .error e) :
    look.Culprit label boundary e ∧
      (check = .connectivity → ∀ l a b, e ≠ .nonMinimalBoundary l a b) := by
  by_cases hzero : highest faces = 0
  · obtain ⟨hmany, rfl⟩ := ofFaces_points_error hzero h
    exact ⟨.ends ((highest_eq_zero_iff hfaces).mp hzero) hmany, fun _ _ _ _ h' => by cases h'⟩
  · have hcomp : look.Compound boundary := by
      refine ⟨fun b hb => ?_, (highest_ne_zero_iff hfaces).mp hzero⟩
      obtain ⟨f, _, hbf⟩ := Lookup.exists_face hfaces hb
      exact ⟨f, hbf⟩
    rcases ofFaces_compound_error hzero h with ⟨o, ho, rfl⟩ | ⟨hconn, hfull, hmin⟩
    · exact ⟨.apart hcomp (firstApart_tied hs hfaces ho), fun _ _ _ _ h' => by cases h'⟩
    · have htied := (hangsTogether_iff_tied hs hfaces).mp
        ((firstApart_eq_none_iff_hangsTogether hs hfaces).mp hconn)
      refine ⟨?_, fun hcheck => by cases hfull.symm.trans hcheck⟩
      obtain ⟨x, y, rfl, ⟨rfl, hdup⟩ | ⟨hx, hy, hlies⟩⟩ := checkMinimal_eq_error hs hfaces hmin
      · exact .twice hcomp htied hdup
      · exact .below hcomp htied hx hy hlies (hs.contains_lt hlies)

/-- **A refusal names a culprit.** -/
theorem make_eq_error (hne : boundary ≠ [])
    (h : Cell.make look id label boundary check = .error e) :
    look.Culprit label boundary e ∧
      (check = .connectivity → ∀ l a b, e ≠ .nonMinimalBoundary l a b) := by
  rw [make_of_ne hne, build_of_ne hne] at h
  rcases Outcome.bind_eq_error.mp h with hresolve | ⟨faces, hfaces, h⟩
  · obtain ⟨i, rfl, hfirst⟩ := resolve_eq_error hresolve
    exact ⟨.unknown hfirst, fun _ _ _ _ h' => by cases h'⟩
  · exact ofFaces_eq_error hs hfaces h

/-- What has a culprit breaks a law. -/
theorem Lookup.Culprit.not_lawful (h : look.Culprit label boundary e)
    (hcheck : check = .connectivity → ∀ l a b, e ≠ .nonMinimalBoundary l a b) :
    ¬ look.Lawful boundary check := by
  intro hlawful
  obtain ⟨hknown, hlaws⟩ := hlawful
  obtain ⟨faces, hfaces⟩ := Lookup.exists_faces hknown
  -- a compound boundary is held to the laws that are not about points
  have hcompound : look.Compound boundary →
      look.HangsTogether boundary ∧ (check = .full → look.Minimal boundary) :=
    fun hcomp => (hlaws.resolve_left fun h' => hcomp.not_points h'.1).2
  cases h with
  | unknown hfirst =>
    obtain ⟨c, hc⟩ := hknown _ hfirst.mem
    cases hfirst.holds.symm.trans hc
  | ends hpoints hmany =>
    rcases hlaws with ⟨_, hfew⟩ | ⟨hcomp, _⟩
    · exact Nat.not_lt_of_le hfew hmany
    · exact Lookup.Compound.not_points ⟨hknown, hcomp⟩ hpoints
  | apart hcomp hfirst =>
    exact hfirst.holds ((hangsTogether_iff_tied hs hfaces).mp (hcompound hcomp).1 _ hfirst.mem)
  | twice hcomp _ hdup =>
    cases check with
    | full => exact hdup.not_nodup ((hcompound hcomp).2 rfl).nodup
    | connectivity => exact hcheck rfl _ _ _ rfl
  | below hcomp _ hx hy hlies _ =>
    cases check with
    | full =>
      refine ((hcompound hcomp).2 rfl).apart _ hy _ hx ?_ hlies
      rintro rfl
      exact hs.not_contains_self hlies
    | connectivity => exact hcheck rfl _ _ _ rfl

/-- **A culprit is refused** with the error that names it, unless the boundary is not minimal. -/
theorem make_culprit (hne : boundary ≠ []) (h : look.Culprit label boundary e)
    (hother : ∀ l a b, e ≠ .nonMinimalBoundary l a b) :
    Cell.make look id label boundary check = .error e := by
  cases hmake : Cell.make look id label boundary check with
  | error e' => rw [h.unique (make_eq_error hs hne hmake).1 hother]
  | ok c =>
    exact absurd ((make_isOk_iff hs hne).mp ⟨c, hmake⟩) (h.not_lawful hs fun _ => hother)

/-- A boundary that is not minimal is refused with some pair of cells that shows it. -/
theorem make_not_minimal (hne : boundary ≠ []) {x y : CellId}
    (h : look.Culprit label boundary (.nonMinimalBoundary label x y)) :
    ∃ x' y', Cell.make look id label boundary .full = .error (.nonMinimalBoundary label x' y') := by
  cases hmake : Cell.make look id label boundary .full with
  | ok c =>
    exact absurd ((make_isOk_iff hs hne).mp ⟨c, hmake⟩) (h.not_lawful hs fun h' => by cases h')
  | error e' =>
    have hculprit := (make_eq_error hs hne hmake).1
    by_cases hother : ∀ l a b, e' ≠ .nonMinimalBoundary l a b
    · cases hculprit.unique h hother
      exact absurd rfl (hother _ _ _)
    · cases hculprit with
      | unknown _ | ends _ _ | apart _ _ => exact absurd (fun _ _ _ h' => by cases h') hother
      | twice _ _ _ | below _ _ _ _ _ _ => exact ⟨_, _, rfl⟩

end Make

end CellComplex
