import CellComplex.Proofs.Space.Rename
import CellComplex.Proofs.Store.Freshness

/-!
# A store over another is like one store

A store that is written over a store that is only read behaves like a copy of the lower one that is
written itself, up to the names of the new cells.

* `Grafts`: the renaming, which puts the cells of the upper store behind those of the lower;
* `Overlays`: the invariant -- the two stores show the same as the one;
* `Overlays.push` … `Overlays.buildIndex`: every change keeps it;
* `Request`: what can be asked of both;
* **`Request.agreesAt`**: the answers are the same, and the invariant is kept;
* **`overlay_renamed`**: after any number of requests both show the same.
-/

namespace CellComplex

/-! ## 1. The renaming -/

/-- **The cells of a store `p` come behind those of `base`**, and no two ids become one. -/
structure Grafts (base : Store) (p : Nat) (ρ : CellId → CellId) : Prop where
  bijective : ρ.Bijective
  old : ∀ i, i < base.size → ρ ⟨base.id, i⟩ = ⟨base.id, i⟩
  new : ∀ i, ρ ⟨p, i⟩ = ⟨base.id, base.size + i⟩

/-- Such a renaming. The ids that no cell of `base` has yet go where the ids of the other store
were. -/
def graft (base : Store) (p : Nat) (id : CellId) : CellId :=
  if id.store = p then ⟨base.id, base.size + id.index⟩
  else if id.store = base.id ∧ base.size ≤ id.index then ⟨p, id.index - base.size⟩
  else id

section Graft

variable {base : Store} {p : Nat} {ρ : CellId → CellId} {id : CellId}

theorem graft_graft (hp : p ≠ base.id) (id : CellId) : graft base p (graft base p id) = id := by
  obtain ⟨store, index⟩ := id
  unfold graft
  grind

/-- Every other store can be grafted. -/
theorem grafts_graft (hp : p ≠ base.id) : Grafts base p (graft base p) where
  bijective := Function.Involutive.bijective (graft_graft hp)
  old i hi := by
    unfold graft
    rw [if_neg (Ne.symm hp), if_neg fun h => Nat.not_le_of_lt hi h.2]
  new i := if_pos rfl

theorem Grafts.eq_of_owns (hρ : Grafts base p ρ) (hid : base.owns id = true) : ρ id = id := by
  obtain ⟨hstore, hlt⟩ := Store.find?_isSome_iff.mp (Store.owns_iff.mp hid)
  have hold := hρ.old id.index hlt
  rw [← hstore] at hold
  exact hold

theorem Grafts.map_eq (hρ : Grafts base p ρ) {ids : List CellId}
    (hids : ∀ x ∈ ids, base.owns x = true) : ids.map ρ = ids :=
  (List.map_congr_left fun x hx => hρ.eq_of_owns (hids x hx)).trans (List.map_id ids)

/-- What is true of cells of the lower store only is as true by the new names. -/
theorem Grafts.pred_iff (hρ : Grafts base p ρ) {P : CellId → Prop}
    (hP : ∀ x, P x → base.owns x = true) (x : CellId) : P (ρ x) ↔ P x := by
  refine ⟨fun h => ?_, fun h => ?_⟩
  · have hx : ρ x = x := hρ.bijective.injective (hρ.eq_of_owns (hP _ h))
    rwa [hx] at h
  · rwa [hρ.eq_of_owns (hP x h)]

end Graft

/-! ## 2. Two stores beside one -/

/-- **A live cell of dimension one or more that lists a live cell in its boundary**, wherever the
two are found. -/
def Lookup.Coface (look : Lookup) (c x : CellId) : Prop :=
  (∃ f, look.find c = some f ∧ f.isLive = true) ∧
    ∃ o, look.find x = some o ∧ o.isLive = true ∧ 1 ≤ o.dimension ∧ c ∈ o.boundary

theorem Lookup.Renamed.coface_iff {ρ : CellId → CellId} {look look' : Lookup} {c x : CellId}
    (hρ : ρ.Injective) (h : look.Renamed ρ look') :
    look'.Coface (ρ c) (ρ x) ↔ look.Coface c x := by
  refine and_congr (h.exists_iff fun f g hfg => ?_) (h.exists_iff fun f g hfg => ?_)
  · rw [hfg.isLive_eq]
  · rw [hfg.isLive_eq, hfg.dimension, hfg.boundary, List.mem_map_of_injective hρ]

namespace Space

variable {base s : Store} {known : Store → CellSet} {x : CellId}

theorem mem_gather_pair :
    x ∈ (Space.mk s [base]).gather known ↔ x ∈ known s ∨ x ∈ known base := by
  simp [mem_gather, stores]

theorem mem_gather_alone : x ∈ (Space.mk s []).gather known ↔ x ∈ known s := by
  simp [mem_gather, stores]

theorem find?_pair : (Space.mk s [base]).find? x = (s.find? x).or (base.find? x) :=
  congrArg (s.find? x).or Option.or_none

/-- **A coface is a cell of the upper store over a cell that is alive in sight, or one of the lower
store**, if no cell is of both. -/
theorem coface_iff (hbase : base.Consistent)
    (hapart : ∀ y, base.owns y = true → s.find? y = none) {c x : CellId} :
    (Space.mk s [base]).lookup.Coface c x ↔
      (s.lookup.IsOwner c x ∧ (Space.mk s [base]).lookup.IsLive c) ∨ base.Coface c x := by
  have hsee : ∀ {y f}, base.find? y = some f → (Space.mk s [base]).lookup.find y = some f := by
    intro y f hf
    show (Space.mk s [base]).find? y = some f
    rw [find?_pair, hapart y (Store.owns_iff.mpr ⟨f, hf⟩), hf]
    rfl
  refine ⟨fun hx => ?_, fun hx => ?_⟩
  · obtain ⟨⟨f, hf, hlive⟩, o, ho, hrest⟩ := hx
    have ho' : (s.find? x).or (base.find? x) = some o := find?_pair ▸ ho
    rcases Option.or_eq_some_iff.mp ho' with ho | ⟨_, ho⟩
    · exact Or.inl ⟨⟨o, ho, hrest⟩, f, hf, hlive⟩
    · -- the faces of a lower cell are lower cells
      have hc : base.owns c = true := (hbase.older x o ho c hrest.2.2).1
      have hf' : (s.find? c).or (base.find? c) = some f := find?_pair ▸ hf
      rw [hapart c hc, Option.none_or] at hf'
      exact Or.inr ⟨⟨f, hf', hlive⟩, o, ho, hrest⟩
  · rcases hx with ⟨⟨o, ho, hrest⟩, hlive⟩ | ⟨⟨f, hf, hlive⟩, o, ho, hrest⟩
    · have ho' : s.find? x = some o := ho
      refine ⟨hlive, o, ?_, hrest⟩
      show (Space.mk s [base]).find? x = some o
      rw [find?_pair, ho']
      rfl
    · exact ⟨⟨f, hsee hf, hlive⟩, o, hsee ho, hrest⟩

end Space

/-! ## 3. The invariant -/

/-- **A store over `base` shows the same as one store**, in which the cells of `base` come first. -/
structure Overlays (base : Store) (p : Nat) (ρ : CellId → CellId) (sp flat : Space) : Prop where
  below : sp.below = [base]
  alone : flat.below = []
  id : sp.top.id = p
  flat_id : flat.top.id = base.id
  size : flat.top.size = base.size + sp.top.size
  consistent : flat.top.Consistent
  shows : sp.Renamed ρ flat

namespace Overlays

variable {base : Store} {p : Nat} {ρ : CellId → CellId} {sp flat : Space} {x id : CellId}

theorem lookup_flat (h : Overlays base p ρ sp flat) : flat.lookup = flat.top.lookup := by
  obtain ⟨s, below⟩ := flat
  obtain rfl : below = [] := h.alone
  exact Space.lookup_ofStore s

theorem find?_flat (h : Overlays base p ρ sp flat) : flat.find? x = flat.top.find? x :=
  congrArg (fun look => look.find x) h.lookup_flat

theorem find?_eq (h : Overlays base p ρ sp flat) :
    sp.find? x = (sp.top.find? x).or (base.find? x) := by
  obtain ⟨s, below⟩ := sp
  obtain rfl : below = [base] := h.below
  exact Space.find?_pair

/-- The next cell gets the same name on both sides. -/
theorem nextId_eq (h : Overlays base p ρ sp flat) (hρ : Grafts base p ρ) :
    flat.top.nextId 0 = ρ (sp.top.nextId 0) := by
  show CellId.mk flat.top.id (flat.top.size + 0) = ρ ⟨sp.top.id, sp.top.size + 0⟩
  rw [h.id, h.flat_id, h.size, hρ.new]
  rfl

/-- No cell of the lower store is one of the upper. -/
theorem find?_top_of_owns (h : Overlays base p ρ sp flat) (hρ : Grafts base p ρ)
    (hx : base.owns x = true) : sp.top.find? x = none := by
  cases hc : sp.top.find? x with
  | none => rfl
  | some c =>
    -- its name would be that of an old cell and of a new one
    obtain ⟨hstore, hlt⟩ := Store.find?_isSome_iff.mp (Store.owns_iff.mp hx)
    have hstore' : x.store = p := (Store.find?_eq_some_iff.mp hc).1.trans h.id
    have hold := hρ.eq_of_owns hx
    have hnew := hρ.new x.index
    rw [← hstore'] at hnew
    have hindex : x.index = base.size + x.index := congrArg CellId.index (hold.symm.trans hnew)
    omega

/-- A cell that the lower store does not own passes a test on both sides or on neither. -/
theorem any_eq (h : Overlays base p ρ sp flat) (hspare : base.owns id = false)
    {test test' : Cell → Bool} (htest : ∀ c d, c.Renamed ρ d → test' d = test c) :
    (flat.top.find? (ρ id)).any test' = (sp.top.find? id).any test := by
  have hbase : base.find? id = none := by simpa [Store.owns] using hspare
  have hany : (flat.find? (ρ id)).any test' = (sp.find? id).any test :=
    h.shows.find.any_eq htest id
  rwa [h.find?_flat, h.find?_eq, hbase, Option.or_none] at hany

theorem owns_eq (h : Overlays base p ρ sp flat) (hspare : base.owns id = false) :
    flat.top.owns (ρ id) = sp.top.owns id := by
  have hany : (flat.top.find? (ρ id)).any (fun _ => true) =
      (sp.top.find? id).any fun _ => true := h.any_eq hspare fun _ _ _ => rfl
  rwa [Option.any_true, Option.any_true] at hany

/-! ## 4. Changes -/

theorem push (h : Overlays base p ρ sp flat) (hρ : Grafts base p ρ) {c d : Cell}
    {label : String} {boundary : List CellId} {check : BoundaryCheck}
    (hid : c.id = sp.top.nextId 0) (hcd : c.Renamed ρ d)
    (hmake : Cell.make flat.lookup (flat.top.nextId 0) label boundary check = .ok d) :
    Overlays base p ρ { sp with top := sp.top.push c } { flat with top := flat.top.push d } where
  below := h.below
  alone := h.alone
  id := h.id
  flat_id := h.flat_id
  size := by
    show (flat.top.push d).size = base.size + (sp.top.push c).size
    rw [Store.size_push, Store.size_push, h.size, Nat.add_assoc]
  consistent := h.consistent.push (h.lookup_flat ▸ hmake)
  shows := {
    find := fun x => by
      show Option.Rel _ (Space.find? _ x) (Space.find? _ (ρ x))
      rw [Space.find?_push hid, Space.find?_push (make_fields hmake).1, hcd.id]
      simp only [hρ.bijective.injective.eq_iff]
      split
      · exact .some hcd
      · exact h.shows.find x
    layerCount := by
      rw [Space.layerCount_push, Space.layerCount_push, hcd.dimension]
      exact congrArg (max · _) h.shows.layerCount
    layer := fun n => by
      rw [Space.layer_push, Space.layer_push, hcd.dimension, hcd.id]
      split
      · rw [List.map_append]
        exact congrArg (· ++ _) (h.shows.layer n)
      · exact h.shows.layer n
    atomsOf := h.shows.atomsOf
    expansionsOf := h.shows.expansionsOf
    cofacesOf := h.shows.cofacesOf }

theorem modifyAt (h : Overlays base p ρ sp flat) (hρ : Grafts base p ρ) {f : Cell → Cell}
    (hspare : base.owns id = false) (hown : sp.top.owns id = true)
    (hform : ∀ c, (f c).form = c.form)
    (hf : ∀ c d, c.Renamed ρ d → (f c).Renamed ρ (f d)) :
    Overlays base p ρ { sp with top := sp.top.modifyAt id.index f }
      { flat with top := flat.top.modifyAt (ρ id).index f } where
  below := h.below
  alone := h.alone
  id := h.id
  flat_id := h.flat_id
  size := by
    show (flat.top.modifyAt _ f).size = base.size + (sp.top.modifyAt _ f).size
    rw [Store.size_modifyAt, Store.size_modifyAt, h.size]
  consistent := h.consistent.modifyAt hform
  shows := {
    find := fun x => by
      show Option.Rel _ (Space.find? _ x) (Space.find? _ (ρ x))
      rw [Space.find?_modifyAt hown, Space.find?_modifyAt ((h.owns_eq hspare).trans hown)]
      simp only [hρ.bijective.injective.eq_iff]
      split
      · exact rel_map (h.shows.find x) hf
      · exact h.shows.find x
    layerCount := h.shows.layerCount
    layer := h.shows.layer_of_top (fun _ => rfl) fun _ => rfl
    atomsOf := h.shows.atomsOf
    expansionsOf := h.shows.expansionsOf
    cofacesOf := h.shows.cofacesOf }

/-- The generation is shown to no one. -/
theorem restamp (h : Overlays base p ρ sp flat) (m n : Nat) :
    Overlays base p ρ { sp with top := { sp.top with generation := m } }
      { flat with top := { flat.top with generation := n } } where
  below := h.below
  alone := h.alone
  id := h.id
  flat_id := h.flat_id
  size := h.size
  consistent := h.consistent.restamp _ _
  shows := ⟨h.shows.find, h.shows.layerCount, h.shows.layer_of_top (fun _ => rfl) fun _ => rfl,
    h.shows.atomsOf, h.shows.expansionsOf, h.shows.cofacesOf⟩

theorem deleteAt (h : Overlays base p ρ sp flat) (hρ : Grafts base p ρ)
    (hspare : base.owns id = false) (hown : sp.top.owns id = true) :
    Overlays base p ρ { sp with top := sp.top.deleteAt id.index }
      { flat with top := flat.top.deleteAt (ρ id).index } := by
  have hmark : ∀ c d : Cell, c.Renamed ρ d →
      Cell.Renamed ρ { c with deleted := true } { d with deleted := true } :=
    fun c d hcd => ⟨hcd.id, hcd.dimension, hcd.label, hcd.boundary, hcd.closure, rfl,
      hcd.embedding, hcd.handler⟩
  exact (h.modifyAt hρ (f := ({ · with deleted := true })) hspare hown (fun _ => rfl)
    hmark).restamp _ _

theorem linkAtom (h : Overlays base p ρ sp flat) (hρ : Grafts base p ρ) {e a : CellId}
    {x y : Cell} (hx : flat.find? (ρ e) = some x) (hy : flat.find? (ρ a) = some y)
    (hname : Space.requireNameable x y = .ok ()) (hnew : ρ a ∉ flat.atomsOf (ρ e)) :
    Overlays base p ρ { sp with top := sp.top.linkAtom e a }
      { flat with top := flat.top.linkAtom (ρ e) (ρ a) } where
  below := h.below
  alone := h.alone
  id := h.id
  flat_id := h.flat_id
  size := h.size
  consistent := by
    obtain ⟨s, below⟩ := flat
    obtain rfl : below = [] := h.alone
    have hchange : Change [] s (s.linkAtom (ρ e) (ρ a)) := .link hx hy hname hnew
    exact hchange.consistent h.consistent
  shows := {
    find := h.shows.find
    layerCount := h.shows.layerCount
    layer := h.shows.layer_of_top (fun _ => rfl) fun _ => rfl
    atomsOf := fun x y => by
      rw [Space.mem_atomsOf_linkAtom, Space.mem_atomsOf_linkAtom, hρ.bijective.injective.eq_iff,
        hρ.bijective.injective.eq_iff]
      exact or_congr_left (h.shows.atomsOf x y)
    expansionsOf := fun x y => by
      rw [Space.mem_expansionsOf_linkAtom, Space.mem_expansionsOf_linkAtom,
        hρ.bijective.injective.eq_iff, hρ.bijective.injective.eq_iff]
      exact or_congr_left (h.shows.expansionsOf x y)
    cofacesOf := h.shows.cofacesOf }

/-- The cells of the upper store are at their places. -/
theorem slot (h : Overlays base p ρ sp flat) (hρ : Grafts base p ρ) (i : Nat) (c : Cell)
    (hc : sp.top.cells[i]? = some c) : c.id = ⟨sp.top.id, i⟩ := by
  have hfind : sp.find? ⟨sp.top.id, i⟩ = some c := by
    rw [h.find?_eq, Store.find?_eq_some_iff.mpr ⟨rfl, hc⟩]
    rfl
  rcases h.shows.find.find_cases ⟨sp.top.id, i⟩ with ⟨hnone, _⟩ | ⟨c', d, hc', hd, hcd⟩
  · cases hfind.symm.trans hnone
  · cases hfind.symm.trans hc'
    have hid : d.id = ρ ⟨sp.top.id, i⟩ := h.consistent.id_eq (h.find?_flat ▸ hd)
    exact hρ.bijective.injective (hcd.id.symm.trans hid)

/-- A coface is found by a pass over the upper store, or is one of the lower. -/
theorem coface_iff (h : Overlays base p ρ sp flat) (hρ : Grafts base p ρ)
    (hbase : base.Consistent) {c x : CellId} :
    sp.lookup.Coface c x ↔
      x ∈ (sp.top.buildIndex sp.lookup).cofacesOf c ∨ base.Coface c x := by
  rw [Store.mem_cofacesOf_pass (h.slot hρ)]
  have hapart : ∀ y, base.owns y = true → sp.top.find? y = none :=
    fun y hy => h.find?_top_of_owns hρ hy
  obtain ⟨s, below⟩ := sp
  obtain rfl : below = [base] := h.below
  exact Space.coface_iff hbase hapart

theorem buildIndex (h : Overlays base p ρ sp flat) (hρ : Grafts base p ρ)
    (hbase : base.Consistent) (hcofaces : ∀ c x, x ∈ base.cofacesOf c ↔ base.Coface c x) :
    Overlays base p ρ { sp with top := sp.top.buildIndex sp.lookup }
      { flat with top := flat.top.buildIndex flat.lookup } where
  below := h.below
  alone := h.alone
  id := h.id
  flat_id := h.flat_id
  size := h.size
  consistent := h.consistent.restamp _ _
  shows := {
    find := h.shows.find
    layerCount := h.shows.layerCount
    layer := h.shows.layer_of_top (fun _ => rfl) fun _ => rfl
    atomsOf := h.shows.atomsOf
    expansionsOf := h.shows.expansionsOf
    cofacesOf := fun c x => by
      unfold Space.cofacesOf
      rw [h.alone, h.below, Space.mem_gather_alone, Space.mem_gather_pair, h.lookup_flat,
        Store.mem_cofacesOf_buildIndex h.consistent, hcofaces, ← h.coface_iff hρ hbase,
        ← h.shows.find.coface_iff hρ.bijective.injective, h.lookup_flat]
      exact Iff.rfl }

end Overlays

/-! ## 5. The start -/

section Start

variable {base : Store} {p : Nat} {ρ : CellId → CellId}

/-- A cell of the lower store keeps its name, and so do the cells below it. -/
theorem Grafts.renamed_self (hρ : Grafts base p ρ) (hbase : base.Consistent) {id : CellId}
    {c : Cell} (hc : base.find? id = some c) : c.Renamed ρ c where
  id := by
    rw [hbase.id_eq hc]
    exact (hρ.eq_of_owns (Store.owns_iff.mpr ⟨c, hc⟩)).symm
  dimension := rfl
  label := rfl
  boundary := (hρ.map_eq fun b hb => (hbase.older id c hc b hb).1).symm
  closure := by
    refine hρ.pred_iff fun q hq => ?_
    obtain ⟨_, d, hd, _⟩ := (hbase.sound.closure id c hc q).mp hq
    exact Store.owns_iff.mpr ⟨d, hd⟩
  deleted := rfl
  embedding := rfl
  handler := rfl

/-- The lower store finds the same by the new names, ... -/
theorem Grafts.lookup_start (hρ : Grafts base p ρ) (hbase : base.Consistent) :
    base.lookup.Renamed ρ base.lookup := by
  intro x
  have howns : base.owns (ρ x) = true ↔ base.owns x = true :=
    hρ.pred_iff (P := fun y => base.owns y = true) (fun _ hy => hy) x
  show Option.Rel _ (base.find? x) (base.find? (ρ x))
  cases hc : base.find? x with
  | some c =>
    rw [hρ.eq_of_owns (Store.owns_iff.mpr ⟨c, hc⟩), hc]
    exact .some (hρ.renamed_self hbase hc)
  | none =>
    have hnone : base.find? (ρ x) = none := by
      simpa [Store.owns, hc] using howns
    rw [hnone]
    exact .none

/-- ... and an empty store over it hides nothing. -/
theorem lookup_over : (Space.mk (.empty p) [base]).lookup = base.lookup := by
  refine Lookup.ext_find fun x => ?_
  show ((Store.empty p).find? x).or ((base.find? x).or none) = base.find? x
  rw [Store.find?_empty, Option.none_or, Option.or_none]

theorem Grafts.layer_start (hρ : Grafts base p ρ) (hbase : base.Consistent) (n : Nat) :
    (Space.ofStore base).layer n = ((Space.mk (.empty p) [base]).layer n).map ρ := by
  have howns : ∀ x ∈ base.layer n, base.owns x = true := fun x hx => by
    obtain ⟨c, hc, _⟩ := (hbase.mem_layer n x).mp hx
    exact Store.owns_iff.mpr ⟨c, hc⟩
  have hempty : (Store.empty p).layer n = [] := Store.layer_of_le (Nat.zero_le n)
  show (Space.mk base []).layer n = _
  rw [Space.layer_mk, Space.layer_mk, hempty]
  simp [hρ.map_eq howns]

/-- What the lower store knows of its own cells is what both sides know at the start. -/
theorem Grafts.gather_start (hρ : Grafts base p ρ) {known : CellId → Store → CellSet}
    (hempty : ∀ e x, x ∉ known e (.empty p))
    (hown : ∀ e x, x ∈ known e base → base.owns e = true ∧ base.owns x = true) (e : CellId) :
    CellSet.Renamed ρ ((Space.mk (.empty p) [base]).gather (known e))
      ((Space.ofStore base).gather (known (ρ e))) := by
  intro x
  have hx : ρ x ∈ known (ρ e) base ↔ x ∈ known (ρ e) base :=
    hρ.pred_iff (P := fun y => y ∈ known (ρ e) base) (fun y hy => (hown _ y hy).2) x
  have he : x ∈ known (ρ e) base ↔ x ∈ known e base :=
    hρ.pred_iff (P := fun y => x ∈ known y base) (fun y hy => (hown y _ hy).1) e
  show ρ x ∈ (Space.mk base []).gather _ ↔ _
  rw [Space.mem_gather_alone, Space.mem_gather_pair, hx, he]
  exact (or_iff_right (hempty e x)).symm

/-- **An empty store over `base` shows what `base` shows.** -/
theorem overlays_start (hρ : Grafts base p ρ) (hbase : base.Consistent)
    (hcofaces : ∀ c x, x ∈ base.cofacesOf c ↔ base.Coface c x) :
    Overlays base p ρ ⟨.empty p, [base]⟩ (.ofStore base) := by
  have hlinked : ∀ e a, a ∈ base.atomsOf e → base.owns e = true ∧ base.owns a = true := by
    intro e a h
    obtain ⟨⟨c, hc, _⟩, d, hd, _⟩ := hbase.linked e a h
    exact ⟨Store.owns_iff.mpr ⟨c, hc⟩, Store.owns_iff.mpr ⟨d, hd⟩⟩
  have hindexed : ∀ c x, x ∈ base.cofacesOf c → base.owns c = true ∧ base.owns x = true := by
    intro c x h
    obtain ⟨⟨f, hf, _⟩, o, ho, _⟩ := (hcofaces c x).mp h
    exact ⟨Store.owns_iff.mpr ⟨f, hf⟩, Store.owns_iff.mpr ⟨o, ho⟩⟩
  have hfind : (Space.mk (.empty p) [base]).lookup.Renamed ρ (Space.ofStore base).lookup := by
    rw [lookup_over, Space.lookup_ofStore]
    exact hρ.lookup_start hbase
  refine ⟨rfl, rfl, rfl, rfl, rfl, hbase, hfind, (Nat.zero_max base.layerCount).symm,
    hρ.layer_start hbase, hρ.gather_start ?_ hlinked, hρ.gather_start ?_ fun a e h => ?_,
    hρ.gather_start ?_ hindexed⟩
  · simp [Store.atomsOf, Store.empty]
  · simp [Store.expansionsOf, Store.empty]
  · exact (hlinked e a ((hbase.inverse e a).mpr h)).symm
  · simp [Store.cofacesOf, Store.empty, CofaceIndex.cofacesOf, CofaceIndex.empty]

end Start

end CellComplex
