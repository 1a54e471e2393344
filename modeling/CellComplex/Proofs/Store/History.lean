import CellComplex.Proofs.Space.Change
import CellComplex.Proofs.Store.Consistent

/-!
# What changes never take back

Cells stay, marks of deletion stay and links stay. The generation says whether anything happened
that matters to the coface index.

* `Store.Extends`: what a later store of one history keeps of an earlier one;
* `Grows`: any number of changes, each over stores of its own;
* **`Grows.extends`**: a history only extends;
* `Store.Quiet`: between two stores no cell was made and no live cell was deleted;
* **`Grows.generation_eq_iff`**: the generation is the same exactly if nothing happened.
-/

namespace CellComplex

namespace Store

/-! ## 1. Histories -/

/-- **The later store keeps what the earlier one has.** -/
structure Extends (s t : Store) : Prop where
  id_eq : t.id = s.id
  size_le : s.size ≤ t.size
  /-- A cell keeps its form, and its mark if it is deleted. -/
  find : ∀ id c, s.find? id = some c →
    ∃ d, t.find? id = some d ∧ d.form = c.form ∧ (c.deleted = true → d.deleted = true)
  links : ∀ e a, a ∈ s.atomsOf e → a ∈ t.atomsOf e

variable {s t u : Store} {id : CellId} {c d : Cell}

theorem Extends.refl (s : Store) : s.Extends s where
  id_eq := rfl
  size_le := Nat.le_refl _
  find _ c hc := ⟨c, hc, rfl, fun h => h⟩
  links _ _ h := h

theorem Extends.trans (h : s.Extends t) (h' : t.Extends u) : s.Extends u where
  id_eq := h'.id_eq.trans h.id_eq
  size_le := Nat.le_trans h.size_le h'.size_le
  find id c hc := by
    obtain ⟨d, hd, hform, hmark⟩ := h.find id c hc
    obtain ⟨e, he, hform', hmark'⟩ := h'.find id d hd
    exact ⟨e, he, hform'.trans hform, fun hc => hmark' (hmark hc)⟩
  links e a ha := h'.links e a (h.links e a ha)

theorem Extends.owns (h : s.Extends t) (hid : s.owns id = true) : t.owns id = true := by
  obtain ⟨c, hc⟩ := owns_iff.mp hid
  obtain ⟨d, hd, _⟩ := h.find id c hc
  exact owns_iff.mpr ⟨d, hd⟩

/-- Without new cells, a cell that is there was there. -/
theorem Extends.find_back (h : s.Extends t) (hsize : t.size = s.size) (hd : t.find? id = some d) :
    ∃ c, s.find? id = some c ∧ d.form = c.form ∧ (c.deleted = true → d.deleted = true) := by
  obtain ⟨hstore, hlt⟩ := find?_isSome_iff.mp ⟨d, hd⟩
  rw [h.id_eq] at hstore
  rw [hsize] at hlt
  obtain ⟨c, hc⟩ := find?_isSome_iff.mpr ⟨hstore, hlt⟩
  obtain ⟨d', hd', hform, hmark⟩ := h.find id c hc
  cases hd.symm.trans hd'
  exact ⟨c, hc, hform, hmark⟩

theorem isLive_iff : c.isLive = true ↔ c.deleted = false := by
  unfold Cell.isLive
  cases c.deleted <;> decide

/-- What is alive was alive. -/
theorem Extends.isLive_back (h : s.Extends t) (hc : s.find? id = some c) (hd : t.find? id = some d)
    (hlive : d.isLive = true) : c.isLive = true := by
  obtain ⟨d', hd', _, hmark⟩ := h.find id c hc
  cases hd.symm.trans hd'
  rw [isLive_iff] at hlive ⊢
  refine Bool.eq_false_iff.mpr fun hdel => ?_
  rw [hmark hdel] at hlive
  cases hlive

/-- A change of one cell that keeps its form and takes no mark away. -/
theorem extends_modifyAt {i : Nat} {f : Cell → Cell} (hform : ∀ c, (f c).form = c.form)
    (hmark : ∀ c : Cell, c.deleted = true → (f c).deleted = true) : s.Extends (s.modifyAt i f) where
  id_eq := rfl
  size_le := Nat.le_of_eq size_modifyAt.symm
  find id c hc := by
    rw [find?_modifyAt, hc]
    split
    · exact ⟨f c, rfl, hform c, hmark c⟩
    · exact ⟨c, rfl, rfl, fun h => h⟩
  links _ _ h := h

/-! ## 2. Quiet histories -/

/-- **No cell was made, and no live cell was deleted.** -/
structure Quiet (s t : Store) : Prop where
  size_eq : t.size = s.size
  live : ∀ id c, s.find? id = some c → c.isLive = true → ∃ d, t.find? id = some d ∧ d.isLive = true

/-- **In a quiet history the live cells are the same**, and so are their forms. -/
theorem Quiet.live_iff (hquiet : s.Quiet t) (h : s.Extends t) {P : Form → Prop} :
    (∃ d, t.find? id = some d ∧ d.isLive = true ∧ P d.form) ↔
      ∃ c, s.find? id = some c ∧ c.isLive = true ∧ P c.form := by
  refine ⟨fun h' => ?_, fun h' => ?_⟩
  · obtain ⟨d, hd, hlive, hP⟩ := h'
    obtain ⟨c, hc, hform, _⟩ := h.find_back hquiet.size_eq hd
    exact ⟨c, hc, h.isLive_back hc hd hlive, hform ▸ hP⟩
  · obtain ⟨c, hc, hlive, hP⟩ := h'
    obtain ⟨d, hd, hlive'⟩ := hquiet.live id c hc hlive
    obtain ⟨d', hd', hform, _⟩ := h.find id c hc
    cases hd.symm.trans hd'
    exact ⟨d, hd, hlive', hform ▸ hP⟩

end Store

/-! ## 3. What changes do -/

/-- **Any number of changes, each over stores of its own.** -/
def Grows : Store → Store → Prop :=
  Relation.ReflTransGen fun s t => ∃ below, Change below s t

section Steps

variable {below : List Store} {s t : Store}

/-- The stores below may stay the same. -/
theorem Changes.grows (h : Changes below s t) : Grows s t :=
  h.lift id fun _ _ hstep => ⟨below, hstep⟩

theorem Change.extends (h : Change below s t) : s.Extends t := by
  cases h with
  | @push c label boundary check hmake =>
    have hid : c.id = s.nextId 0 := (make_fields hmake).1
    refine ⟨rfl, by rw [Store.size_push]; omega, fun id d hd => ?_, fun _ _ h => h⟩
    exact ⟨d, (Store.adds_push hid).find hd, rfl, fun h => h⟩
  | @delete id c hc hlive =>
    have hmod : s.Extends (s.modifyAt id.index ({ · with deleted := true })) :=
      Store.extends_modifyAt (fun _ => rfl) fun _ _ => rfl
    exact ⟨hmod.id_eq, hmod.size_le, hmod.find, hmod.links⟩
  | modify hc hform hmark => exact Store.extends_modifyAt hform fun c h => (hmark c).trans h
  | link hx hy hname hnew =>
    refine ⟨rfl, Nat.le_refl _, fun id c hc => ⟨c, hc, rfl, fun h => h⟩, fun e a ha => ?_⟩
    exact Store.mem_atomsOf_linkAtom.mpr (Or.inl ha)

/-- A history only extends. -/
theorem Grows.extends (h : Grows s t) : s.Extends t := by
  induction h with
  | refl => exact .refl s
  | tail _ hstep ih =>
    obtain ⟨_, hstep⟩ := hstep
    exact ih.trans hstep.extends

theorem Changes.extends (h : Changes below s t) : s.Extends t := h.grows.extends

/-- **A cell had its form before the change, or its faces were in sight**, and lower than the cell. -/
theorem Change.find_cases {x : CellId} {d : Cell} (h : Change below s t)
    (hd : t.find? x = some d) :
    (∃ c, s.find? x = some c ∧ d.form = c.form) ∨
      ∀ b ∈ d.boundary, ∃ f, (Space.mk s below).find? b = some f ∧ f.dimension < d.dimension := by
  cases h with
  | push hmake =>
    rcases (Store.adds_push (make_fields hmake).1).find_cases hd with ⟨_, rfl⟩ | hd
    · exact Or.inr (make_lower hmake)
    · exact Or.inl ⟨d, hd, rfl⟩
  | @delete id c hc hlive =>
    have halike : Lookup.Alike s.lookup
        (s.modifyAt id.index ({ · with deleted := true })).lookup :=
      Store.alike_modifyAt fun _ => rfl
    obtain ⟨c, hc, hform⟩ := halike.symm.find hd
    exact Or.inl ⟨c, hc, hform.symm⟩
  | modify hc hform hmark =>
    obtain ⟨c, hc, hform⟩ := (Store.alike_modifyAt hform).symm.find hd
    exact Or.inl ⟨c, hc, hform.symm⟩
  | link hx hy hname hnew => exact Or.inl ⟨d, hd, rfl⟩

/-- No change touches the index. -/
theorem Change.index_eq (h : Change below s t) : t.index = s.index := by
  cases h <;> rfl

theorem Grows.index_eq (h : Grows s t) : t.index = s.index := by
  induction h with
  | refl => rfl
  | tail _ hstep ih =>
    obtain ⟨_, hstep⟩ := hstep
    exact hstep.index_eq.trans ih

theorem Changes.index_eq (h : Changes below s t) : t.index = s.index := h.grows.index_eq

/-- No change moves a cell from its place or its layer. -/
theorem Change.filed (hs : s.Filed) (h : Change below s t) : t.Filed := by
  cases h with
  | push hmake => exact hs.push (make_fields hmake).1
  | @delete id c hc hlive =>
    have hmark : (s.modifyAt id.index ({ · with deleted := true })).Filed :=
      hs.modifyAt fun _ => rfl
    exact ⟨hmark.slot, hmark.mem_layer⟩
  | modify hc hform hmark => exact hs.modifyAt hform
  | link hx hy hname hnew => exact ⟨hs.slot, hs.mem_layer⟩

theorem Grows.filed (hs : s.Filed) (h : Grows s t) : t.Filed := by
  induction h with
  | refl => exact hs
  | tail _ hstep ih =>
    obtain ⟨_, hstep⟩ := hstep
    exact hstep.filed ih

/-- **A change counts exactly if it makes a cell or deletes a live one.** -/
theorem Change.counts (h : Change below s t) :
    (t.generation = s.generation + 1 ∧ (t.size = s.size + 1 ∨ ∃ id c d, s.find? id = some c ∧
        c.isLive = true ∧ t.find? id = some d ∧ d.isLive = false)) ∨
      (t.generation = s.generation ∧ t.size = s.size ∧
        ∀ id c, s.find? id = some c → ∃ d, t.find? id = some d ∧ d.isLive = c.isLive) := by
  cases h with
  | push hmake => exact Or.inl ⟨rfl, Or.inl Store.size_push⟩
  | @delete id c hc hlive =>
    refine Or.inl ⟨rfl, Or.inr ⟨id, c, { c with deleted := true }, hc, hlive, ?_, rfl⟩⟩
    show (s.modifyAt id.index ({ · with deleted := true })).find? id = _
    rw [Store.find?_modifyAt, if_pos rfl, hc]
    rfl
  | @modify id c f hc hform hmark =>
    refine Or.inr ⟨rfl, Store.size_modifyAt, fun id d hd => ?_⟩
    rw [Store.find?_modifyAt, hd]
    split
    · exact ⟨f d, rfl, congrArg not (hmark d)⟩
    · exact ⟨d, rfl, rfl⟩
  | link hx hy hname hnew => exact Or.inr ⟨rfl, rfl, fun id c hc => ⟨c, hc, rfl⟩⟩

/-- **The generation is the same exactly if no cell was made and no live cell was deleted.** -/
theorem Grows.generation_eq_iff (h : Grows s t) :
    s.generation ≤ t.generation ∧ (t.generation = s.generation ↔ s.Quiet t) := by
  induction h with
  | refl => exact ⟨Nat.le_refl _, iff_of_true rfl ⟨rfl, fun _ c hc hlive => ⟨c, hc, hlive⟩⟩⟩
  | @tail m t hsm hstep ih =>
    obtain ⟨hle, hiff⟩ := ih
    have hext : s.Extends m := Grows.extends hsm
    obtain ⟨_, hstep⟩ := hstep
    rcases hstep.counts with ⟨hgen, hwhat⟩ | ⟨hgen, hsize, hlive⟩
    · refine ⟨by omega, iff_of_false (by omega) fun hquiet => ?_⟩
      have hsize_le := hext.size_le
      have hsize_le' := hstep.extends.size_le
      have hsize := hquiet.size_eq
      rcases hwhat with hmade | ⟨id, c, d, hc, hlive, hd, hdead⟩
      · omega
      · -- the cell was live from the start, and a quiet history would keep it so
        obtain ⟨c₀, hc₀, _, _⟩ := hext.find_back (by omega) hc
        obtain ⟨d', hd', hlive'⟩ := hquiet.live id c₀ hc₀ (hext.isLive_back hc₀ hc hlive)
        cases hd.symm.trans hd'
        rw [hdead] at hlive'
        cases hlive'
    · rw [hgen, hiff]
      refine ⟨hle, fun hquiet => ⟨hsize.trans hquiet.size_eq, fun id c hc hl => ?_⟩,
        fun hquiet => ⟨hsize.symm.trans hquiet.size_eq, fun id c hc hl => ?_⟩⟩
      · obtain ⟨d, hd, hl'⟩ := hquiet.live id c hc hl
        obtain ⟨e, he, hsame⟩ := hlive id d hd
        exact ⟨e, he, hsame.trans hl'⟩
      · obtain ⟨e, he, hl'⟩ := hquiet.live id c hc hl
        obtain ⟨d, hd, _, _⟩ := hext.find id c hc
        obtain ⟨e', he', hsame⟩ := hlive id d hd
        cases he.symm.trans he'
        exact ⟨d, hd, hsame.symm.trans hl'⟩

end Steps

end CellComplex
