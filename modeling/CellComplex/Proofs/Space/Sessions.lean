import CellComplex.Proofs.Space.Overlay

/-!
# A store over another that changes

A store is written over another, alone, and over it again, and the lower store changes in between.
Each store keeps an index of its own cells and says whether a cell of its own was made or deleted
since; together they are fresh when both say so. The index of the upper store depends on the lower
one too, and of that nobody keeps a record.

* `Layered`, `Move`: two stores, and one step of work on them; `Layered.after`: a run;
* `Layered.Stacked`: what every run keeps; **`Stacked.after`**: it is kept;
* `Move.Indexes`, `Move.sight`: the upper store is indexed, by the cells that are in sight then;
* **`fresh_overlay_index`**: what a fresh index holds, and where it is exact;
* **`fresh_overlay_index_wrong`**: it need not be, after a cell of the lower store was deleted, or
  after the upper store was indexed alone.
-/

namespace CellComplex

/-! ## 1. Work on two stores -/

/-- A store, and a store that is written over it. -/
structure Layered where
  patch : Store
  base : Store

/-- The upper store over the lower. -/
def Layered.space (d : Layered) : Space := ⟨d.patch, [d.base]⟩

/-- **One step of work on two stores.** -/
inductive Move where
  /-- The lower store is asked alone, ... -/
  | base (op : Operation)
  /-- ... or the upper store alone, ... -/
  | patch (op : Operation)
  /-- ... or the upper store over the lower. -/
  | overlay (op : Operation)

namespace Move

/-- What a step leaves behind, failing or not. -/
def run : Move → Layered → Layered
  | .base op, d => { d with base := op.run d.base }
  | .patch op, d => { d with patch := op.run d.patch }
  | .overlay op, d => { d with patch := (op.edit.apply d.space).2.top }

/-- **The upper store is indexed.** -/
def Indexes : Move → Prop
  | .base _ => False
  | .patch op | .overlay op => op = .buildIndex

/-- The cells that are in sight of a step. -/
def sight : Move → Layered → Lookup
  | .base _, d => d.base.lookup
  | .patch _, d => d.patch.lookup
  | .overlay _, d => d.space.lookup

/-- Indexing is one pass over the cells of the upper store. -/
theorem Indexes.run_eq {m : Move} (h : m.Indexes) (d : Layered) :
    m.run d = { d with patch := d.patch.buildIndex (m.sight d) } := by
  cases m with
  | base op => exact h.elim
  | patch op =>
    obtain rfl : op = .buildIndex := h
    show Layered.mk (Operation.buildIndex.run d.patch) d.base = _
    rw [Operation.run_buildIndex]
    rfl
  | overlay op =>
    obtain rfl : op = .buildIndex := h
    rfl

/-- A run splits at the last time that the upper store is indexed, if there is one. -/
theorem last_index (moves : List Move) :
    (∀ m ∈ moves, ¬ m.Indexes) ∨
      ∃ before build after, moves = before ++ build :: after ∧ build.Indexes ∧
        ∀ m ∈ after, ¬ m.Indexes := by
  induction moves with
  | nil => exact Or.inl fun m hm => absurd hm List.not_mem_nil
  | cons m moves ih =>
    rcases ih with hnone | ⟨before, build, after, rfl, hbuild, hafter⟩
    · by_cases hm : m.Indexes
      · exact Or.inr ⟨[], m, moves, rfl, hm, hnone⟩
      · exact Or.inl (List.forall_mem_cons.mpr ⟨hm, hnone⟩)
    · exact Or.inr ⟨m :: before, build, after, rfl, hbuild, hafter⟩

end Move

namespace Layered

/-- What a run leaves behind. -/
def after (d : Layered) (moves : List Move) : Layered := moves.foldl (fun d m => m.run d) d

/-- Two empty stores. -/
def start (p b : Nat) : Layered := ⟨.empty p, .empty b⟩

/-! ## 2. What every run keeps -/

/-- **The two stores have names of their own, and the faces of upper cells are in sight.** -/
structure Stacked (d : Layered) : Prop where
  apart : d.patch.id ≠ d.base.id
  reachable : d.base.Reachable
  filed : d.patch.Filed
  listed : ∀ x o, d.patch.find? x = some o → ∀ c ∈ o.boundary,
    d.patch.owns c = true ∨ d.base.owns c = true

variable {d : Layered} {c x : CellId}

theorem stacked_start {p b : Nat} (hne : p ≠ b) : (start p b).Stacked where
  apart := hne
  reachable := .empty b
  filed := Store.filed_empty p
  listed x o ho := by cases (Store.find?_empty p x).symm.trans ho

/-- One change of the upper store, alone or over the lower. -/
theorem Stacked.change (h : d.Stacked) {below : List Store} (hbelow : ∀ s ∈ below, s = d.base)
    {t : Store} (hstep : Change below d.patch t) : Stacked { d with patch := t } where
  apart := by
    show t.id ≠ d.base.id
    rw [hstep.extends.id_eq]
    exact h.apart
  reachable := h.reachable
  filed := hstep.filed h.filed
  listed x o ho c hc := by
    rcases hstep.find_cases ho with ⟨o', ho', hform⟩ | hseen
    · have hboundary : o.boundary = o'.boundary := congrArg Form.boundary hform
      exact (h.listed x o' ho' c (hboundary ▸ hc)).imp_left hstep.extends.owns
    · obtain ⟨f, hf, _⟩ := hseen c hc
      obtain ⟨s, hs, hf⟩ := Space.exists_store hf
      have hown : s.owns c = true := Store.owns_iff.mpr ⟨f, hf⟩
      rcases List.mem_cons.mp hs with rfl | hs
      · exact Or.inl (hstep.extends.owns hown)
      · exact Or.inr (hbelow s hs ▸ hown)

theorem Stacked.changes (h : d.Stacked) {below : List Store} (hbelow : ∀ s ∈ below, s = d.base)
    {t : Store} (hsteps : Changes below d.patch t) : Stacked { d with patch := t } := by
  induction hsteps with
  | refl => exact h
  | tail _ hstep ih => exact ih.change hbelow hstep

theorem Stacked.edit (h : d.Stacked) {below : List Store} (hbelow : ∀ s ∈ below, s = d.base)
    (op : Operation) : Stacked { d with patch := (op.edit.apply ⟨d.patch, below⟩).2.top } := by
  by_cases hop : op = .buildIndex
  · subst hop
    exact ⟨h.apart, h.reachable, ⟨h.filed.slot, h.filed.mem_layer⟩, h.listed⟩
  · exact h.changes hbelow (Operation.stepwise hop ⟨d.patch, below⟩).2

/-- **Every step keeps the invariant.** -/
theorem Stacked.move (h : d.Stacked) (m : Move) : (m.run d).Stacked := by
  cases m with
  | base op =>
    have hext : d.base.Extends (op.run d.base) := op.extends d.base
    refine ⟨?_, h.reachable.step op, h.filed, fun x o ho c hc => ?_⟩
    · show d.patch.id ≠ (op.run d.base).id
      rw [hext.id_eq]
      exact h.apart
    · exact (h.listed x o ho c hc).imp_right hext.owns
  | patch op => exact h.edit (fun s hs => absurd hs List.not_mem_nil) op
  | overlay op => exact h.edit (fun s hs => List.mem_singleton.mp hs) op

theorem Stacked.after (h : d.Stacked) (moves : List Move) : (d.after moves).Stacked := by
  induction moves generalizing d with
  | nil => exact h
  | cons m moves ih => exact ih (h.move m)

/-- **Until the upper store is indexed again it only grows**, and the lower only extends. -/
theorem grows_after (d : Layered) {moves : List Move} (h : ∀ m ∈ moves, ¬ m.Indexes) :
    Grows d.patch (d.after moves).patch ∧ d.base.Extends (d.after moves).base := by
  induction moves generalizing d with
  | nil => exact ⟨.refl, .refl _⟩
  | cons m moves ih =>
    obtain ⟨hm, hrest⟩ := List.forall_mem_cons.mp h
    obtain ⟨hgrows, hext⟩ := ih (m.run d) hrest
    have hone : Grows d.patch (m.run d).patch ∧ d.base.Extends (m.run d).base := by
      cases m with
      | base op => exact ⟨.refl, op.extends d.base⟩
      | patch op => exact ⟨(Operation.changes hm d.patch).grows, .refl _⟩
      | overlay op => exact ⟨(Operation.stepwise hm d.space).2.grows, .refl _⟩
    exact ⟨hone.1.trans hgrows, hone.2.trans hext⟩

end Layered

/-! ## 3. What a fresh index holds -/

namespace Layered

variable {d : Layered} {c x : CellId}

/-- No cell is of both stores. -/
theorem Stacked.find?_patch (h : d.Stacked) (hc : d.base.owns c = true) :
    d.patch.find? c = none := by
  obtain ⟨f, hf⟩ := Store.owns_iff.mp hc
  have hbase : c.store = d.base.id := (Store.find?_eq_some_iff.mp hf).1
  exact if_neg fun hpatch => h.apart (hpatch.symm.trans hbase)

theorem isLive_congr {look look' : Lookup} (h : look.find c = look'.find c) :
    look.IsLive c ↔ look'.IsLive c := by
  unfold Lookup.IsLive
  rw [h]

/-- What the upper store owns, it says alone whether it is alive; ... -/
theorem isLive_of_patch (hc : d.patch.owns c = true) :
    d.space.lookup.IsLive c ↔ d.patch.lookup.IsLive c := by
  obtain ⟨f, hf⟩ := Store.owns_iff.mp hc
  refine isLive_congr ?_
  show (Space.mk d.patch [d.base]).find? c = d.patch.find? c
  rw [Space.find?_pair, hf]
  rfl

/-- ... and so does the lower store of what it owns. -/
theorem Stacked.isLive_of_base (h : d.Stacked) (hc : d.base.owns c = true) :
    d.space.lookup.IsLive c ↔ d.base.lookup.IsLive c := by
  refine isLive_congr ?_
  show (Space.mk d.patch [d.base]).find? c = d.base.find? c
  rw [Space.find?_pair, h.find?_patch hc, Option.none_or]

/-- A cell of the upper store is in sight whenever that store is indexed. -/
theorem isLive_sight {build : Move} (hbuild : build.Indexes) (hc : d.patch.owns c = true) :
    (build.sight d).IsLive c ↔ d.patch.lookup.IsLive c := by
  cases build with
  | base op => exact hbuild.elim
  | patch op => exact Iff.rfl
  | overlay op => exact isLive_of_patch hc

section Fresh

variable {d₀ : Layered} {build : Move} {after : List Move}

/-- **A fresh index of the upper store holds its owners of the cells that were alive in sight when
it was built.** -/
theorem Stacked.fresh_patch (h : d₀.Stacked) (hbuild : build.Indexes)
    (hafter : ∀ m ∈ after, ¬ m.Indexes) (hd : d = (build.run d₀).after after)
    (hfresh : d.patch.isStale = false) :
    d₀.patch.Extends d.patch ∧ d₀.patch.Quiet d.patch ∧ d₀.base.Extends d.base ∧
      ∀ c x, x ∈ d.patch.cofacesOf c ↔
        d.patch.lookup.IsOwner c x ∧ (build.sight d₀).IsLive c := by
  obtain ⟨hgrows, hbase⟩ := grows_after (build.run d₀) hafter
  rw [← hd, hbuild.run_eq d₀] at hgrows hbase
  have hindex : d.patch.index = (d₀.patch.buildIndex (build.sight d₀)).index := hgrows.index_eq
  have hgen : d.patch.generation = d₀.patch.generation := by
    unfold Store.isStale CofaceIndex.isStale at hfresh
    rw [hindex, bne_eq_false_iff_eq] at hfresh
    exact (Option.some.inj hfresh).symm
  have hquiet := hgrows.generation_eq_iff.2.mp hgen
  -- building the index changed neither the cells nor the links
  have hext : d₀.patch.Extends d.patch :=
    ⟨hgrows.extends.id_eq, hgrows.extends.size_le, hgrows.extends.find, hgrows.extends.links⟩
  have hquiet : d₀.patch.Quiet d.patch := ⟨hquiet.size_eq, hquiet.live⟩
  refine ⟨hext, hquiet, hbase, fun c x => ?_⟩
  have hpass : x ∈ (d₀.patch.buildIndex (build.sight d₀)).cofacesOf c ↔
      d₀.patch.lookup.IsOwner c x ∧ (build.sight d₀).IsLive c :=
    Store.mem_cofacesOf_pass h.filed.slot
  rw [hquiet.isOwner_iff hext, ← hpass]
  unfold Store.cofacesOf
  rw [hindex]

/-- **Where the index is exact**: at the cells of the upper store, and at every cell that was in
sight when it was built and was not deleted since. -/
theorem Stacked.exact (h : d₀.Stacked) (hbuild : build.Indexes)
    (hafter : ∀ m ∈ after, ¬ m.Indexes) (hd : d = (build.run d₀).after after)
    (hfresh : d.patch.isStale = false)
    (hc : d.patch.owns c = true ∨ (build = .overlay .buildIndex ∧
      (d₀.space.lookup.IsLive c → d.space.lookup.IsLive c))) :
    x ∈ d.patch.cofacesOf c ↔ d.patch.lookup.IsOwner c x ∧ d.space.lookup.IsLive c := by
  have hstacked : d.Stacked := hd ▸ (h.move build).after after
  obtain ⟨hext, hquiet, hbase, hindex⟩ := h.fresh_patch hbuild hafter hd hfresh
  rw [hindex]
  refine and_congr_right fun howner => ?_
  have hpatch : d₀.patch.owns c = true →
      ((build.sight d₀).IsLive c ↔ d.space.lookup.IsLive c) := by
    intro hown
    rw [isLive_sight hbuild hown, isLive_of_patch (hext.owns hown), hquiet.isLive_iff hext]
  rcases hc with hown | ⟨rfl, hkept⟩
  · obtain ⟨f, hf⟩ := Store.owns_iff.mp hown
    obtain ⟨f₀, hf₀, _⟩ := hext.find_back hquiet.size_eq hf
    exact hpatch (Store.owns_iff.mpr ⟨f₀, hf₀⟩)
  · -- the owner was there when the index was built, and its faces were in sight
    obtain ⟨o, ho, _, _, hface⟩ := (hquiet.isOwner_iff hext).mp howner
    rcases h.listed x o ho c hface with hown | hown
    · exact hpatch hown
    · refine ⟨hkept, fun hlive => ?_⟩
      obtain ⟨f, hf, hl⟩ := (hstacked.isLive_of_base (hbase.owns hown)).mp hlive
      obtain ⟨f₀, hf₀⟩ := Store.owns_iff.mp hown
      exact (h.isLive_of_base hown).mpr ⟨f₀, hf₀, hbase.isLive_back hf₀ hf hl⟩

end Fresh

end Layered

/-- **What a fresh index of two stores holds.** Let two stores with names of their own be worked on
in any order, the lower alone, the upper alone and the upper over the lower. Where the index is said
to be fresh, the upper store was indexed at some time, for the last time. The index then holds the
cofaces in the lower store, and beside them each live cell of the upper store under those of its
faces that were alive and in sight at that time. So it is exact at every cell of the upper store;
and if the upper store was indexed over the lower, at every cell that was not deleted since. -/
theorem fresh_overlay_index {p b : Nat} (hne : p ≠ b) (moves : List Move) {d : Layered}
    (hd : d = (Layered.start p b).after moves) (hfresh : d.space.isStale = false) :
    ∃ before build after, moves = before ++ build :: after ∧ build.Indexes ∧
      (∀ m ∈ after, ¬ m.Indexes) ∧
      let d₀ := (Layered.start p b).after before
      (∀ c x, x ∈ d.space.cofacesOf c ↔
        (d.patch.lookup.IsOwner c x ∧ (build.sight d₀).IsLive c) ∨ d.base.Coface c x) ∧
      ∀ c, (d.patch.owns c = true ∨ (build = .overlay .buildIndex ∧
          (d₀.space.lookup.IsLive c → d.space.lookup.IsLive c))) →
        ∀ x, x ∈ d.space.cofacesOf c ↔ d.space.lookup.Coface c x := by
  have hfresh' : d.patch.isStale = false ∧ d.base.isStale = false := by
    simpa [Space.isStale, Space.stores, Layered.space] using hfresh
  obtain ⟨hpatch, hbase⟩ := hfresh'
  rcases Move.last_index moves with hnone | ⟨before, build, after, rfl, hbuild, hafter⟩
  · -- an index that was never built is stale
    have hindex : d.patch.index = .empty := by
      rw [hd]
      exact (Layered.grows_after (Layered.start p b) hnone).1.index_eq
    unfold Store.isStale at hpatch
    rw [hindex] at hpatch
    cases hpatch
  · have h₀ : ((Layered.start p b).after before).Stacked :=
      (Layered.stacked_start hne).after before
    have hsplit : d = (build.run ((Layered.start p b).after before)).after after :=
      hd.trans List.foldl_append
    have hstacked : d.Stacked := hsplit ▸ (h₀.move build).after after
    have hlower : ∀ c x, x ∈ d.base.cofacesOf c ↔ d.base.Coface c x :=
      fun c x => hstacked.reachable.mem_cofacesOf hbase
    refine ⟨before, build, after, rfl, hbuild, hafter, fun c x => ?_, fun c hc x => ?_⟩
    · obtain ⟨_, _, _, hindex⟩ := h₀.fresh_patch hbuild hafter hsplit hpatch
      exact Space.mem_gather_pair.trans (or_congr (hindex c x) (hlower c x))
    · have hexact := h₀.exact (x := x) hbuild hafter hsplit hpatch hc
      have hcoface := Space.coface_iff (s := d.patch) (c := c) (x := x)
        hstacked.reachable.consistent fun y hy => hstacked.find?_patch hy
      exact (Space.mem_gather_pair.trans (or_congr hexact (hlower c x))).trans hcoface.symm

/-- Two points below, and a point and an edge above them. -/
def toadMoves : List Move :=
  [.base (.create "frog" []), .base (.create "animal" []), .base .buildIndex,
    .overlay (.create "toad" []), .overlay (.create "is" [⟨1, 0⟩, ⟨0, 1⟩])]

/-- The edge is indexed, and then the animal is deleted below and the lower store indexed again. -/
def deletedBelow : Layered :=
  (Layered.start 1 0).after
    (toadMoves ++ [.overlay .buildIndex, .base (.delete ⟨0, 1⟩), .base .buildIndex])

/-- The upper store is indexed alone. -/
def indexedAlone : Layered := (Layered.start 1 0).after (toadMoves ++ [.patch .buildIndex])

/-- At the toad, a cell of the upper store, the fresh index is exact: it holds the edge. -/
theorem fresh_overlay_index_toad : ⟨1, 1⟩ ∈ deletedBelow.space.cofacesOf ⟨1, 0⟩ := by
  have hfresh : deletedBelow.space.isStale = false := by decide +kernel
  obtain ⟨_, _, _, _, _, _, _, hexact⟩ := fresh_overlay_index (p := 1) (b := 0) (by decide) _ rfl
    hfresh
  have hcoface : deletedBelow.space.lookup.Coface ⟨1, 0⟩ ⟨1, 1⟩ :=
    ⟨⟨_, rfl, rfl⟩, _, rfl, rfl, Nat.le_refl 1, by decide⟩
  exact (hexact ⟨1, 0⟩ (Or.inl (by decide +kernel)) ⟨1, 1⟩).mpr hcoface

/-- **A fresh index need not be exact.** The animal is deleted, and still the edge is among its
cofaces; and where the upper store was indexed alone, the animal is alive and the edge is missing. -/
theorem fresh_overlay_index_wrong :
    (deletedBelow.space.isStale = false ∧ ¬ deletedBelow.space.lookup.IsLive ⟨0, 1⟩ ∧
        ⟨1, 1⟩ ∈ deletedBelow.space.cofacesOf ⟨0, 1⟩) ∧
      indexedAlone.space.isStale = false ∧ indexedAlone.space.lookup.Coface ⟨0, 1⟩ ⟨1, 1⟩ ∧
        ⟨1, 1⟩ ∉ indexedAlone.space.cofacesOf ⟨0, 1⟩ := by
  refine ⟨⟨by decide +kernel, fun hlive => ?_, by decide +kernel⟩, by decide +kernel, ?_,
    by decide +kernel⟩
  · obtain ⟨f, hf, hl⟩ := hlive
    have hdead : (deletedBelow.space.lookup.find ⟨0, 1⟩).all Cell.deleted = true := by
      decide +kernel
    rw [hf] at hdead
    cases (Store.isLive_iff.mp hl).symm.trans hdead
  · exact ⟨⟨_, rfl, rfl⟩, _, rfl, rfl, Nat.le_refl 1, by decide⟩

end CellComplex
