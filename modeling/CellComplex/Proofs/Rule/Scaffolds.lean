import CellComplex.Proofs.Rule.Compile
import CellComplex.Proofs.Store.Freshness

/-!
# What is dropped from the front of a pattern

A pattern is listed after the scaffolds that tie the rule cell to its points. Its listing stays as
it was made, but what is dropped from its front is counted anew whenever the rule is read, as many
cells as there are live scaffolds by then. A scaffold that was deleted is not counted, and the last
scaffold that is listed takes its place in the pattern.

* `Space.readSlot_fields`, `readSlots_templates`: what a position that was read says of its cell;
* `Store.IsScaffold`: what a rule takes for a scaffold of its pattern, be it alive or deleted;
* `Faithful`: the listing is read as it was meant;
* `take_perm`: distinct elements of a list that are not behind as many places make up its front;
* `Dropped`: what is dropped from a listing, which is read as it was meant exactly if no scaffold is
  left (`Dropped.faithful_iff`);
* **`compile_scaffolding`**: what is read off a listing, and exactly when it was meant so;
  **`compile_scaffolding_wrong`**: a rule that is read otherwise.
-/

namespace CellComplex

/-! ## 1. Positions -/

namespace Space

variable {sp : Space} {x : CellId} {slot : PatternSlot} {ids : List CellId}
variable {slots : List PatternSlot}

/-- **A position that was read** has the dimension of its cell, and asks for its label. -/
theorem readSlot_fields (h : sp.readSlot x = .ok slot) :
    ∃ c, sp.find? x = some c ∧ slot.template = x ∧ slot.dimension = c.dimension ∧
      slot.label = .ofLabel c.label := by
  unfold readSlot at h
  split at h
  · cases h
  · next c hc =>
    obtain ⟨bindsTo, _, h⟩ := Outcome.bind_eq_ok.mp h
    cases h
    exact ⟨c, hc, rfl, rfl, rfl⟩

/-- Positions are read in order. -/
theorem readSlots_templates (h : ids.mapM sp.readSlot = .ok slots) :
    slots.map PatternSlot.template = ids := by
  have hall := Outcome.mapM_eq_ok.mp h
  clear h
  induction hall with
  | nil => rfl
  | cons hslot _ ih =>
    obtain ⟨_, _, htemplate, _⟩ := readSlot_fields hslot
    rw [List.map_cons, htemplate, ih]

end Space

/-! ## 2. Scaffolds -/

/-- **What a rule takes for a scaffold of its pattern**: a cell with that label that lists the rule
cell, be it alive or deleted. -/
def Store.IsScaffold (s : Store) (rule x : CellId) : Prop :=
  ∃ c, s.find? x = some c ∧ c.label = Label.patternScaffold ∧ rule ∈ c.boundary

instance (s : Store) (rule x : CellId) : Decidable (s.IsScaffold rule x) :=
  decidable_of_iff ((s.find? x).any fun c => c.label == Label.patternScaffold &&
    c.boundary.contains rule) (by
      rw [Option.any_eq_true]
      simp [Store.IsScaffold])

/-- **The listing is read as it was meant**: in front of the pattern stand the live scaffolds, each
once, as many as the rule has points, and no scaffold is read as a cell of the pattern. -/
structure Faithful (s : Store) (rule : CellId) (r : Rule) (listing : Cell)
    (front : List CellId) : Prop where
  boundary : listing.boundary = front ++ r.pattern.map PatternSlot.template
  nodup : front.Nodup
  mem_front : ∀ x, x ∈ front ↔ s.IsScaffold rule x ∧ s.lookup.IsLive x
  points : r.points = front.length
  apart : ∀ x ∈ r.pattern.map PatternSlot.template, ¬ s.IsScaffold rule x

/-- **Distinct elements of a list that are not behind as many places make up its front.** -/
theorem take_perm {ids all : List CellId} (hnodup : ids.Nodup) (hsub : ids ⊆ all)
    (hdrop : ∀ x ∈ all.drop ids.length, x ∉ ids) : (all.take ids.length).Perm ids := by
  have hfront : ids ⊆ all.take ids.length := fun x hx => by
    have hmem : x ∈ all.take ids.length ++ all.drop ids.length :=
      (List.take_append_drop _ _).symm ▸ hsub hx
    exact (List.mem_append.mp hmem).resolve_right fun h => hdrop x h hx
  exact ((List.subperm_of_subset hnodup hfront).perm_of_length_le (List.length_take_le _ _)).symm

section Scaffolding

variable {u : Store} {rule : CellId} {r : Rule} {listing : Cell} {links : List CellId}

/-- The live cofaces that a rule takes for scaffolds are its live scaffolds, if there are any. -/
theorem Store.Reachable.mem_scaffolds (hu : u.Reachable) (hfresh : u.isStale = false)
    (hsome : (Space.ofStore u).cofacesLabeled rule Label.patternScaffold ≠ []) (x : CellId) :
    x ∈ (Space.ofStore u).cofacesLabeled rule Label.patternScaffold ↔
      u.IsScaffold rule x ∧ u.lookup.IsLive x := by
  have hcoface : ∀ x, x ∈ (Space.ofStore u).cofacesLabeled rule Label.patternScaffold ↔
      u.Coface rule x ∧ ∃ c, u.find? x = some c ∧ c.isLive = true ∧
        c.label = Label.patternScaffold := fun x => by
    rw [Space.mem_cofacesLabeled, Store.find?_ofStore]
    exact and_congr_left' (hu.mem_cofacesOf hfresh)
  rw [hcoface]
  constructor
  · rintro ⟨⟨_, o, ho, _, _, hlists⟩, c, hc, hlive, hlabel⟩
    obtain rfl : c = o := Option.some.inj (hc.symm.trans ho)
    exact ⟨⟨c, hc, hlabel, hlists⟩, c, hc, hlive⟩
  · rintro ⟨⟨c, hc, hlabel, hlists⟩, d, hd, hlive⟩
    obtain rfl : c = d := Option.some.inj (hc.symm.trans hd)
    -- that the rule cell is there is known from the scaffold that was found
    obtain ⟨z, hz⟩ := List.exists_mem_of_ne_nil _ hsome
    obtain ⟨_, _, hlt⟩ := hu.consistent.sound.lower x c hc rule hlists
    exact ⟨⟨((hcoface z).mp hz).1.1, c, hc, hlive, by omega, hlists⟩, c, hc, hlive, hlabel⟩

/-- **What is dropped from a listing**: as many cells as there are live scaffolds, all of which are
somewhere on it. -/
structure Dropped (s : Store) (rule : CellId) (r : Rule) (listing : Cell)
    (links : List CellId) : Prop where
  nodup : links.Nodup
  mem_links : ∀ x, x ∈ links ↔ s.IsScaffold rule x ∧ s.lookup.IsLive x
  listed : links ⊆ listing.boundary
  points : r.points = links.length
  templates : r.pattern.map PatternSlot.template = listing.boundary.drop links.length

theorem exists_dropped (hu : u.Reachable) (hfresh : u.isStale = false)
    (hcompile : Rule.compile (.ofStore u) rule = .ok r) :
    ∃ listing links, u.find? listing.id = some listing ∧ listing.label = Label.pattern ∧
      (∀ x ∈ links, ∀ y, u.Coface x y ↔ y = listing.id) ∧ Dropped u rule r listing links := by
  obtain ⟨hpattern, _, _⟩ := compile_holds hcompile
  obtain ⟨links, listing, hlinks, hlisting, hpoints, hslots⟩ := readPattern_holds hpattern
  obtain ⟨owner, howner, hone⟩ := Space.listingOf_holds hlisting
  rw [Store.find?_ofStore] at howner
  obtain rfl : listing.id = owner := hu.consistent.id_eq howner
  have hcofaces : ∀ x ∈ links, ∀ y, u.Coface x y ↔ y = listing.id := fun x hx y =>
    (hu.mem_cofacesOf hfresh).symm.trans (hone x hx y)
  -- without a scaffold no listing would have been found
  have hsome : links ≠ [] := by
    rintro rfl
    cases hlisting
  refine ⟨listing, links, howner, Space.listingOf_label hlisting, hcofaces, ?_, fun x => ?_,
    fun x hx => ?_, hpoints, Space.readSlots_templates hslots⟩
  · exact hlinks ▸ Space.cofacesLabeled_nodup
  · rw [hlinks]
    exact hu.mem_scaffolds hfresh (hlinks ▸ hsome) x
  · obtain ⟨_, o, ho, _, _, hlists⟩ := (hcofaces x hx listing.id).mpr rfl
    obtain rfl : listing = o := Option.some.inj (howner.symm.trans ho)
    exact hlists

namespace Dropped

variable (h : Dropped u rule r listing links)
include h

theorem faithful_iff : (∃ front, Faithful u rule r listing front) ↔
    ∀ x ∈ r.pattern.map PatternSlot.template, ¬ u.IsScaffold rule x := by
  refine ⟨fun ⟨_, hfront⟩ => hfront.apart, fun hapart => ⟨listing.boundary.take links.length, ?_⟩⟩
  have hperm := take_perm h.nodup h.listed fun x hx hx' =>
    hapart x (h.templates ▸ hx) ((h.mem_links x).mp hx').1
  refine ⟨?_, hperm.nodup_iff.mpr h.nodup, fun x => ?_, ?_, hapart⟩
  · rw [h.templates, List.take_append_drop]
  · rw [hperm.mem_iff, h.mem_links]
  · rw [h.points, hperm.length_eq]

variable {scaffolds cells : List CellId} (hboundary : listing.boundary = scaffolds ++ cells)
variable (hcells : ∀ x ∈ cells, ¬ u.IsScaffold rule x)
include hboundary hcells

/-- Of scaffolds in front of other cells the live ones are counted. -/
theorem links_subperm : links.Subperm scaffolds :=
  List.subperm_of_subset h.nodup fun x hx =>
    (List.mem_append.mp (hboundary ▸ h.listed hx)).resolve_right fun hx' =>
      hcells x hx' ((h.mem_links x).mp hx).1

theorem templates_eq :
    r.pattern.map PatternSlot.template = scaffolds.drop r.points ++ cells := by
  rw [h.templates, hboundary, h.points,
    List.drop_append_of_le_length (h.links_subperm hboundary hcells).length_le]

theorem faithful_iff_live (hdistinct : scaffolds.Nodup)
    (hscaffolds : ∀ x ∈ scaffolds, u.IsScaffold rule x) :
    (∃ front, Faithful u rule r listing front) ↔ ∀ x ∈ scaffolds, u.lookup.IsLive x := by
  have hsubperm := h.links_subperm hboundary hcells
  rw [h.faithful_iff, h.templates_eq hboundary hcells]
  constructor
  · intro hapart x hx
    have hnone : scaffolds.drop r.points = [] := by
      refine List.eq_nil_iff_forall_not_mem.mpr fun y hy => ?_
      exact hapart y (List.mem_append_left _ hy) (hscaffolds y (List.mem_of_mem_drop hy))
    have hle : scaffolds.length ≤ links.length := h.points ▸ List.drop_eq_nil_iff.mp hnone
    exact ((h.mem_links x).mp ((hsubperm.perm_of_length_le hle).mem_iff.mpr hx)).2
  · intro hlive x hx
    have hall : scaffolds ⊆ links := fun y hy =>
      (h.mem_links y).mpr ⟨hscaffolds y hy, hlive y hy⟩
    have hle : scaffolds.length ≤ links.length :=
      (List.subperm_of_subset hdistinct hall).length_le
    rw [List.drop_eq_nil_iff.mpr (h.points ▸ hle), List.nil_append] at hx
    exact hcells x hx

end Dropped

/-- **What is read off a listing.** Each live scaffold of the rule is listed by one live cell, the
same for all, and as many cells as there are live scaffolds are dropped from its front. It is read
as it was meant exactly if no scaffold is among the rest, be it alive or deleted. So, if it lists
scaffolds and then other cells, those scaffolds that are beyond the number of the live ones are read
as cells of the pattern, and it is read as it was meant exactly if no scaffold in it is deleted. -/
theorem compile_scaffolding (hu : u.Reachable) (hfresh : u.isStale = false)
    (hcompile : Rule.compile (.ofStore u) rule = .ok r) :
    ∃ (listing : Cell) (links : List CellId), u.find? listing.id = some listing ∧
      listing.label = Label.pattern ∧ links.Nodup ∧
      (∀ x, x ∈ links ↔ u.IsScaffold rule x ∧ u.lookup.IsLive x) ∧
      (∀ x ∈ links, ∀ y, u.Coface x y ↔ y = listing.id) ∧
      r.points = links.length ∧
      r.pattern.map PatternSlot.template = listing.boundary.drop links.length ∧
      ((∃ front, Faithful u rule r listing front) ↔
        ∀ x ∈ r.pattern.map PatternSlot.template, ¬ u.IsScaffold rule x) ∧
      ∀ scaffolds cells, listing.boundary = scaffolds ++ cells → scaffolds.Nodup →
        (∀ x ∈ scaffolds, u.IsScaffold rule x) → (∀ x ∈ cells, ¬ u.IsScaffold rule x) →
        r.pattern.map PatternSlot.template = scaffolds.drop r.points ++ cells ∧
          ((∃ front, Faithful u rule r listing front) ↔ ∀ x ∈ scaffolds, u.lookup.IsLive x) := by
  obtain ⟨listing, links, hlisting, hlabel, hone, h⟩ := exists_dropped hu hfresh hcompile
  refine ⟨listing, links, hlisting, hlabel, h.nodup, h.mem_links, hone, h.points, h.templates,
    h.faithful_iff, fun scaffolds cells hboundary hdistinct hscaffolds hcells => ?_⟩
  exact ⟨h.templates_eq hboundary hcells,
    h.faithful_iff_live hboundary hcells hdistinct hscaffolds⟩

/-- "Two points", and some cells deleted before the index is built. -/
def pairStore (gone : List CellId) : Store :=
  runAll (.empty 0) (.writeRule "pair" [.patternPoint Label.wildcard, .patternPoint Label.wildcard]
    true :: gone.map .delete ++ [.buildIndex])

theorem pairStore_reachable (gone : List CellId) : (pairStore gone).Reachable :=
  (Store.Reachable.empty 0).runAll _

/-- As it was written the rule is read as it was meant. -/
theorem compile_scaffolding_pair : ∃ r listing front,
    Rule.compile (.ofStore (pairStore [])) ⟨0, 0⟩ = .ok r ∧
      r.pattern.map PatternSlot.template = [⟨0, 1⟩, ⟨0, 2⟩] ∧
      Faithful (pairStore []) ⟨0, 0⟩ r listing front := by
  obtain ⟨r, hcompile, _, hpattern, _⟩ := Space.exists_compile_ofStore ⟨0, 0⟩ 2
    [⟨⟨0, 1⟩, 0, .any, none⟩, ⟨⟨0, 2⟩, 0, .any, none⟩] [] (pairStore_reachable [])
    (by decide +kernel) (by decide +kernel) (by decide +kernel) (by decide +kernel)
  obtain ⟨listing, links, _, _, _, _, _, _, _, hiff, _⟩ :=
    compile_scaffolding (pairStore_reachable []) (by decide +kernel) hcompile
  have hcells : ∀ x ∈ [⟨0, 1⟩, (⟨0, 2⟩ : CellId)], ¬ (pairStore []).IsScaffold ⟨0, 0⟩ x := by
    decide +kernel
  have htemplates : r.pattern.map PatternSlot.template = [⟨0, 1⟩, ⟨0, 2⟩] := by
    rw [hpattern]
    rfl
  obtain ⟨front, hfront⟩ := hiff.mpr (htemplates ▸ hcells)
  exact ⟨r, listing, front, hcompile, htemplates, hfront⟩

/-- **A rule that is not read as it was meant.** One of its two scaffolds was deleted: it is left
with one point, and the other scaffold is read as the first cell of its pattern. -/
theorem compile_scaffolding_wrong :
    ∃ r, (pairStore [⟨0, 3⟩]).Reachable ∧ (pairStore [⟨0, 3⟩]).isStale = false ∧
      Rule.compile (.ofStore (pairStore [⟨0, 3⟩])) ⟨0, 0⟩ = .ok r ∧ r.points = 1 ∧
      r.pattern.map PatternSlot.template = [⟨0, 4⟩, ⟨0, 1⟩, ⟨0, 2⟩] ∧
      (pairStore [⟨0, 3⟩]).IsScaffold ⟨0, 0⟩ ⟨0, 4⟩ ∧
      (pairStore [⟨0, 3⟩]).lookup.IsLive ⟨0, 4⟩ ∧
      ∀ listing front, ¬ Faithful (pairStore [⟨0, 3⟩]) ⟨0, 0⟩ r listing front := by
  obtain ⟨r, hcompile, hpoints, hpattern, _⟩ := Space.exists_compile_ofStore ⟨0, 0⟩ 1
    [⟨⟨0, 4⟩, 1, .exact Label.patternScaffold, none⟩, ⟨⟨0, 1⟩, 0, .any, none⟩,
      ⟨⟨0, 2⟩, 0, .any, none⟩] [] (pairStore_reachable [⟨0, 3⟩])
    (by decide +kernel) (by decide +kernel) (by decide +kernel) (by decide +kernel)
  have htemplates : r.pattern.map PatternSlot.template = [⟨0, 4⟩, ⟨0, 1⟩, ⟨0, 2⟩] := by
    rw [hpattern]
    rfl
  have hscaffold : (pairStore [⟨0, 3⟩]).IsScaffold ⟨0, 0⟩ ⟨0, 4⟩ := by decide +kernel
  have hlive : ((pairStore [⟨0, 3⟩]).lookup.find ⟨0, 4⟩).any Cell.isLive = true := by
    decide +kernel
  refine ⟨r, pairStore_reachable _, by decide +kernel, hcompile, hpoints, htemplates, hscaffold,
    (Option.any_eq_true _ _).mp hlive, fun listing front h => ?_⟩
  exact h.apart ⟨0, 4⟩ (htemplates ▸ List.mem_cons_self) hscaffold

end Scaffolding

end CellComplex
