import CellComplex.Cell.Lookup
import Mathlib.Logic.Relation

/-!
# What lies below a cell

A boundary lists ids, and the cells of these ids have boundaries of their own. What is found that
way is stated here as a relation, without a cell's own record of it:

* `Lookup.Lists`: one boundary step; `Lookup.Reaches`: any number; `Lookup.Contains`: at least one;
* `Lookup.PointBelow`: a point that any number of steps reach;
* `Lookup.Sound`: what every cell records of the cells below is right -- the dimension is one more
  than the largest in the boundary, and the closure is the set of points below;
* **`Sound.contains_lt`**: dimensions fall on the way down, so no cell contains itself;
* **`Sound.adds`**: a new cell that records the truth leaves every record true;
* **`Sound.alike`**: labels, payloads, handlers and marks do not matter.
-/

namespace CellComplex

namespace Lookup

variable {look look' : Lookup} {a b p id : CellId} {c d : Cell}

/-! ## 1. Steps down -/

/-- One boundary step. -/
def Lists (look : Lookup) (a b : CellId) : Prop := ∃ c, look.find a = some c ∧ b ∈ c.boundary

/-- Any number of boundary steps. -/
def Reaches (look : Lookup) : CellId → CellId → Prop := Relation.ReflTransGen look.Lists

/-- One boundary step or more. -/
def Contains (look : Lookup) : CellId → CellId → Prop := Relation.TransGen look.Lists

/-- A known cell of dimension zero. -/
def IsPoint (look : Lookup) (a : CellId) : Prop := ∃ c, look.find a = some c ∧ c.dimension = 0

instance (look : Lookup) (a : CellId) : Decidable (look.IsPoint a) :=
  decidable_of_iff ((look.find a).any fun c => c.dimension == 0) (by
    simp [IsPoint, Option.any_eq_true])

/-- A known cell of dimension one or more. -/
def IsCompound (look : Lookup) (a : CellId) : Prop := ∃ c, look.find a = some c ∧ 1 ≤ c.dimension

/-- A point that lies below a cell; a point lies below itself. -/
def PointBelow (look : Lookup) (a p : CellId) : Prop := look.Reaches a p ∧ look.IsPoint p

theorem lists_iff (hc : look.find a = some c) : look.Lists a b ↔ b ∈ c.boundary := by
  refine ⟨fun h => ?_, ?_⟩
  · obtain ⟨c', hc', hb⟩ := h
    cases hc.symm.trans hc'
    exact hb
  · exact fun hb => ⟨c, hc, hb⟩

theorem Reaches.mono (h : ∀ a b, look.Lists a b → look'.Lists a b) (hab : look.Reaches a b) :
    look'.Reaches a b := by
  induction hab with
  | refl => exact .refl
  | tail _ hstep ih => exact ih.tail (h _ _ hstep)

/-- A point below a cell is the cell itself, or lies below a cell of the boundary. -/
theorem pointBelow_iff (hc : look.find a = some c) :
    look.PointBelow a p ↔
      (c.dimension = 0 ∧ p = a) ∨ ∃ b ∈ c.boundary, look.PointBelow b p := by
  refine ⟨fun h => ?_, fun h => ?_⟩
  · obtain ⟨hreach, d, hd, hzero⟩ := h
    rcases Relation.ReflTransGen.cases_head hreach with rfl | ⟨b, hstep, hrest⟩
    · cases hc.symm.trans hd
      exact Or.inl ⟨hzero, rfl⟩
    · exact Or.inr ⟨b, (lists_iff hc).mp hstep, hrest, d, hd, hzero⟩
  · rcases h with ⟨hzero, rfl⟩ | ⟨b, hb, hreach, hp⟩
    · exact ⟨.refl, c, hc, hzero⟩
    · exact ⟨.head ⟨c, hc, hb⟩ hreach, hp⟩

/-! ## 2. Sound records -/

/-- **What the cells record of the cells below is right.** -/
structure Sound (look : Lookup) : Prop where
  /-- A cell is found under its own id. -/
  id_eq : ∀ id c, look.find id = some c → c.id = id
  /-- The cells without a boundary are the points. -/
  point_iff : ∀ id c, look.find id = some c → (c.dimension = 0 ↔ c.boundary = [])
  /-- Every face is known, and lower. -/
  lower : ∀ id c, look.find id = some c → ∀ b ∈ c.boundary,
    ∃ f, look.find b = some f ∧ f.dimension < c.dimension
  /-- Some face is lower by one only. -/
  attained : ∀ id c, look.find id = some c → c.boundary ≠ [] →
    ∃ b ∈ c.boundary, ∃ f, look.find b = some f ∧ c.dimension = f.dimension + 1
  /-- The closure is the set of the points below. -/
  closure : ∀ id c, look.find id = some c → ∀ p, p ∈ c.closure ↔ look.PointBelow id p

namespace Sound

variable (h : look.Sound)
include h

/-- **Dimensions fall on the way down.** -/
theorem contains_lt (hab : look.Contains a b) :
    ∃ c d, look.find a = some c ∧ look.find b = some d ∧ d.dimension < c.dimension := by
  induction hab with
  | single hstep =>
    obtain ⟨c, hc, hb⟩ := hstep
    obtain ⟨d, hd, hlt⟩ := h.lower _ c hc _ hb
    exact ⟨c, d, hc, hd, hlt⟩
  | tail _ hstep ih =>
    obtain ⟨c, d, hc, hd, hlt⟩ := ih
    obtain ⟨e, he, hlt'⟩ := h.lower _ d hd _ ((lists_iff hd).mp hstep)
    exact ⟨c, e, hc, he, Nat.lt_trans hlt' hlt⟩

/-- No cell contains itself. -/
theorem not_contains_self : ¬ look.Contains a a := by
  intro haa
  obtain ⟨c, d, hc, hd, hlt⟩ := h.contains_lt haa
  cases hc.symm.trans hd
  exact Nat.lt_irrefl _ hlt

/-- What a known cell reaches is known. -/
theorem reaches_known (hc : look.find a = some c) (hab : look.Reaches a b) :
    ∃ d, look.find b = some d ∧ d.dimension ≤ c.dimension := by
  rcases Relation.reflTransGen_iff_eq_or_transGen.mp hab with rfl | hab
  · exact ⟨c, hc, Nat.le_refl _⟩
  · obtain ⟨c', d, hc', hd, hlt⟩ := h.contains_lt hab
    cases hc.symm.trans hc'
    exact ⟨d, hd, Nat.le_of_lt hlt⟩

/-- **Below every cell there is a point.** -/
theorem exists_pointBelow (hc : look.find a = some c) : ∃ p, look.PointBelow a p := by
  induction hn : c.dimension using Nat.strongRecOn generalizing a c with
  | ind n ih =>
    subst hn
    by_cases hb : c.boundary = []
    · exact ⟨a, .refl, c, hc, (h.point_iff a c hc).mpr hb⟩
    · obtain ⟨b, hb, f, hf, hdim⟩ := h.attained a c hc hb
      obtain ⟨p, hp⟩ := ih f.dimension (by omega) hf rfl
      exact ⟨p, (pointBelow_iff hc).mpr (Or.inr ⟨b, hb, hp⟩)⟩

theorem closure_ne_empty (hc : look.find a = some c) : ∃ p, p ∈ c.closure := by
  obtain ⟨p, hp⟩ := h.exists_pointBelow hc
  exact ⟨p, (h.closure a c hc p).mpr hp⟩

end Sound

theorem sound_empty : Lookup.empty.Sound where
  id_eq _ _ hc := by cases hc
  point_iff _ _ hc := by cases hc
  lower _ _ hc := by cases hc
  attained _ _ hc := by cases hc
  closure _ _ hc := by cases hc

/-! ## 3. One cell more -/

/-- The second lookup knows one cell more than the first. -/
structure Adds (look look' : Lookup) (c : Cell) : Prop where
  fresh : look.find c.id = none
  new : look'.find c.id = some c
  old : ∀ id, id ≠ c.id → look'.find id = look.find id

theorem Adds.find (h : Adds look look' c) (hd : look.find id = some d) :
    look'.find id = some d := by
  have hne : id ≠ c.id := by
    rintro rfl
    rw [h.fresh] at hd
    cases hd
  rw [h.old id hne, hd]

/-- A cell of the second lookup is the new one, or was known. -/
theorem Adds.find_cases (h : Adds look look' c) (hd : look'.find id = some d) :
    (id = c.id ∧ d = c) ∨ look.find id = some d := by
  by_cases hid : id = c.id
  · have hnew : look'.find id = some c := hid ▸ h.new
    exact Or.inl ⟨hid, Option.some.inj (hd.symm.trans hnew)⟩
  · rw [h.old id hid] at hd
    exact Or.inr hd

theorem Adds.isPoint (h : Adds look look' c) (hp : look.IsPoint a) : look'.IsPoint a := by
  obtain ⟨d, hd, hzero⟩ := hp
  exact ⟨d, h.find hd, hzero⟩

theorem Adds.isCompound (h : Adds look look' c) (hp : look.IsCompound a) : look'.IsCompound a := by
  obtain ⟨d, hd, hpos⟩ := hp
  exact ⟨d, h.find hd, hpos⟩

theorem Adds.lists (h : Adds look look' c) (hab : look.Lists a b) : look'.Lists a b := by
  obtain ⟨d, hd, hb⟩ := hab
  exact ⟨d, h.find hd, hb⟩

/-- From a cell that was known, nothing new is reached. -/
theorem Adds.reaches_iff (h : Adds look look' c) (hs : look.Sound) (hd : look.find a = some d) :
    look'.Reaches a b ↔ look.Reaches a b := by
  refine ⟨fun hab => ?_, ?_⟩
  · induction hab with
    | refl => exact .refl
    | tail _ hstep ih =>
      obtain ⟨e, he, _⟩ := hs.reaches_known hd ih
      exact ih.tail ⟨e, he, (lists_iff (h.find he)).mp hstep⟩
  · exact fun hab => hab.mono fun _ _ => h.lists

theorem Adds.pointBelow_iff (h : Adds look look' c) (hs : look.Sound)
    (hd : look.find a = some d) : look'.PointBelow a p ↔ look.PointBelow a p := by
  unfold PointBelow IsPoint
  rw [h.reaches_iff hs hd]
  refine and_congr_right fun hreach => ?_
  obtain ⟨e, he, _⟩ := hs.reaches_known hd hreach
  rw [he, h.find he]

end Lookup

/-- A cell records the truth about the known cells below it. -/
structure Cell.Records (look : Lookup) (c : Cell) : Prop where
  point_iff : c.dimension = 0 ↔ c.boundary = []
  lower : ∀ b ∈ c.boundary, ∃ f, look.find b = some f ∧ f.dimension < c.dimension
  attained : c.boundary ≠ [] →
    ∃ b ∈ c.boundary, ∃ f, look.find b = some f ∧ c.dimension = f.dimension + 1
  closure : ∀ p, p ∈ c.closure ↔
    (c.boundary = [] ∧ p = c.id) ∨ ∃ b ∈ c.boundary, look.PointBelow b p

namespace Lookup

variable {look look' : Lookup} {a b p id : CellId} {c d : Cell}

/-- **A new cell that records the truth leaves every record true.** -/
theorem Sound.adds (h : look.Sound) (hadd : Adds look look' c) (hc : c.Records look) :
    look'.Sound := by
  refine ⟨fun id d hd => ?_, fun id d hd => ?_, fun id d hd b hb => ?_, fun id d hd hne => ?_,
    fun id d hd p => ?_⟩
  · rcases hadd.find_cases hd with ⟨rfl, rfl⟩ | hd
    · rfl
    · exact h.id_eq id d hd
  · rcases hadd.find_cases hd with ⟨rfl, rfl⟩ | hd
    · exact hc.point_iff
    · exact h.point_iff id d hd
  · have hface : ∃ f, look.find b = some f ∧ f.dimension < d.dimension := by
      rcases hadd.find_cases hd with ⟨rfl, rfl⟩ | hd
      · exact hc.lower b hb
      · exact h.lower id d hd b hb
    obtain ⟨f, hf, hlt⟩ := hface
    exact ⟨f, hadd.find hf, hlt⟩
  · have hface : ∃ b ∈ d.boundary, ∃ f, look.find b = some f ∧ d.dimension = f.dimension + 1 := by
      rcases hadd.find_cases hd with ⟨rfl, rfl⟩ | hd
      · exact hc.attained hne
      · exact h.attained id d hd hne
    obtain ⟨b, hb, f, hf, hdim⟩ := hface
    exact ⟨b, hb, f, hadd.find hf, hdim⟩
  · rcases hadd.find_cases hd with ⟨rfl, rfl⟩ | hd
    · rw [hc.closure, pointBelow_iff hd, hc.point_iff]
      refine or_congr_right (exists_congr fun b => and_congr_right fun hb => ?_)
      -- what lies below an old face is what lay below it
      obtain ⟨f, hf, _⟩ := hc.lower b hb
      exact (hadd.pointBelow_iff h hf).symm
    · rw [h.closure id d hd, hadd.pointBelow_iff h hd]

end Lookup

/-! ## 4. What does not matter -/

/-- What a cell is made of: everything that counts below other cells. -/
structure Form where
  id : CellId
  dimension : Nat
  boundary : List CellId
  closure : CellSet

/-- What a cell is made of. -/
def Cell.form (c : Cell) : Form := ⟨c.id, c.dimension, c.boundary, c.closure⟩

namespace Lookup

variable {look look' : Lookup} {a b p id : CellId} {c d : Cell}

/-- Two lookups know cells of the same form under the same ids. -/
def Alike (look look' : Lookup) : Prop :=
  ∀ id, (look'.find id).map Cell.form = (look.find id).map Cell.form

theorem Alike.symm (h : Alike look look') : Alike look' look := fun id => (h id).symm

theorem Alike.find (h : Alike look look') (hc : look.find id = some c) :
    ∃ c', look'.find id = some c' ∧ c'.form = c.form := by
  have hid := h id
  rw [hc] at hid
  exact Option.map_eq_some_iff.mp hid

theorem Alike.lists (h : Alike look look') (hab : look.Lists a b) : look'.Lists a b := by
  obtain ⟨c, hc, hb⟩ := hab
  obtain ⟨c', hc', hform⟩ := h.find hc
  have hboundary : c'.boundary = c.boundary := congrArg Form.boundary hform
  exact ⟨c', hc', hboundary ▸ hb⟩

theorem Alike.dimension (h : Alike look look') (hc : look.find id = some c) :
    ∃ c', look'.find id = some c' ∧ c'.dimension = c.dimension := by
  obtain ⟨c', hc', hform⟩ := h.find hc
  exact ⟨c', hc', congrArg Form.dimension hform⟩

theorem Alike.isPoint (h : Alike look look') (hp : look.IsPoint a) : look'.IsPoint a := by
  obtain ⟨c, hc, hzero⟩ := hp
  obtain ⟨c', hc', hdim⟩ := h.dimension hc
  exact ⟨c', hc', hdim.trans hzero⟩

theorem Alike.isCompound (h : Alike look look') (hp : look.IsCompound a) :
    look'.IsCompound a := by
  obtain ⟨c, hc, hpos⟩ := hp
  obtain ⟨c', hc', hdim⟩ := h.dimension hc
  exact ⟨c', hc', hdim.symm ▸ hpos⟩

theorem Alike.pointBelow (h : Alike look look') (hap : look.PointBelow a p) :
    look'.PointBelow a p :=
  ⟨hap.1.mono fun _ _ => h.lists, h.isPoint hap.2⟩

/-- **Labels, payloads, handlers and marks do not matter** to what the cells record. -/
theorem Sound.alike (h : look.Sound) (halike : Alike look look') : look'.Sound := by
  -- every cell of the second lookup has a cell of its form in the first
  have back : ∀ {id c}, look'.find id = some c → ∃ d, look.find id = some d ∧ d.id = c.id ∧
      d.dimension = c.dimension ∧ d.boundary = c.boundary ∧ d.closure = c.closure := by
    intro id c hc
    obtain ⟨d, hd, hform⟩ := halike.symm.find hc
    exact ⟨d, hd, congrArg Form.id hform, congrArg Form.dimension hform,
      congrArg Form.boundary hform, congrArg Form.closure hform⟩
  refine ⟨fun id c hc => ?_, fun id c hc => ?_, fun id c hc b hb => ?_, fun id c hc hne => ?_,
    fun id c hc p => ?_⟩ <;> obtain ⟨d, hd, eid, edim, ebd, ecl⟩ := back hc
  · rw [← eid]
    exact h.id_eq id d hd
  · rw [← edim, ← ebd]
    exact h.point_iff id d hd
  · obtain ⟨f, hf, hlt⟩ := h.lower id d hd b (ebd ▸ hb)
    obtain ⟨f', hf', edim'⟩ := halike.dimension hf
    exact ⟨f', hf', by omega⟩
  · obtain ⟨b, hb, f, hf, hdim⟩ := h.attained id d hd (ebd ▸ hne)
    obtain ⟨f', hf', edim'⟩ := halike.dimension hf
    exact ⟨b, ebd ▸ hb, f', hf', by omega⟩
  · rw [← ecl, h.closure id d hd p]
    exact ⟨halike.pointBelow, halike.symm.pointBelow⟩

end Lookup

end CellComplex
