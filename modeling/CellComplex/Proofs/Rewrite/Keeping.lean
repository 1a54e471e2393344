import CellComplex.Proofs.Rewrite.Product
import CellComplex.Proofs.Rewrite.Transitive

/-!
# What a rewrite keeps

The two lists of a matching are gathered apart from each other: what is bound, and what is deleted
since it is unbound. A cell that is selected for two positions can be in both. Then it is deleted,
and what was made on top of it stays.

* `Rule.boundIn`: the selected cells at positions that are bound to something;
* `Space.matchRule_live`: whatever matches is alive;
* `Built.mem_boundary`: what is made lies on bound cells and on cells made;
* **`rewrite_keeps_bound`**: a bound cell is kept exactly if it stands at no unbound position too,
  and so are the boundaries of the cells made;
* **`rewrite_keeps_bound_wrong`**: a bound cell that is deleted under the cell made.
-/

namespace CellComplex

/-- **The selected cells at positions that are bound to something**, in order. -/
def Rule.boundIn (rule : Rule) (selection : List CellId) : List CellId :=
  ((rule.pattern.zip selection).filter fun p => p.1.bindsTo.isSome).map Prod.snd

/-! ## 1. What is bound -/

section Matched

variable {sp : Space} {rule : Rule} {selection : List CellId} {m : Matching} {id x : CellId}

theorem Rule.mem_boundIn : x ∈ rule.boundIn selection ↔
    ∃ slot : PatternSlot, (slot, x) ∈ rule.pattern.zip selection ∧ slot.bindsTo.isSome = true := by
  simp [boundIn]

theorem Rule.mem_unboundIn : x ∈ rule.unboundIn selection ↔
    ∃ slot : PatternSlot, (slot, x) ∈ rule.pattern.zip selection ∧ slot.bindsTo = none := by
  simp [unboundIn]

theorem Rule.mem_boundIn_of_boundBy (h : rule.boundBy selection id = some x) :
    x ∈ rule.boundIn selection := by
  obtain ⟨p, hfind, rfl⟩ := Option.map_eq_some_iff.mp h
  have hbinds : p.1.bindsTo = some id := by simpa using List.find?_some hfind
  exact mem_boundIn.mpr ⟨p.1, List.mem_reverse.mp (List.mem_of_find?_eq_some hfind),
    hbinds ▸ rfl⟩

/-- If no cell is selected twice, none is both bound and unbound. -/
theorem Rule.not_mem_unboundIn (hlen : selection.length = rule.pattern.length)
    (hnodup : selection.Nodup) (hx : x ∈ rule.boundIn selection) :
    x ∉ rule.unboundIn selection := by
  intro hx'
  obtain ⟨slot, hslot, hbound⟩ := mem_boundIn.mp hx
  obtain ⟨slot', hslot', hunbound⟩ := mem_unboundIn.mp hx'
  have hsnd : ((rule.pattern.zip selection).map Prod.snd).Nodup := by
    rwa [List.map_snd_zip hlen.le]
  obtain rfl : slot = slot' :=
    congrArg Prod.fst (List.inj_on_of_nodup_map hsnd hslot hslot' rfl)
  rw [hunbound] at hbound
  cases hbound

/-- **Whatever matches is alive.** -/
theorem Space.matchRule_live (h : sp.matchRule rule selection = .ok m) (hx : x ∈ selection) :
    sp.lookup.IsLive x := by
  obtain ⟨cells, hcells, hmatch⟩ := matchRule_eq_ok h
  obtain ⟨hlive, _⟩ := matchCells_eq_ok hmatch
  obtain ⟨c, hc, hfind⟩ := Outcome.mapM_mem hcells hx
  exact ⟨c, Lookup.resolve_eq_ok.mp hfind, Store.isLive_iff.mpr (hlive c hc)⟩

end Matched

/-- **What is made lies on bound cells and on cells made.** -/
theorem Built.mem_boundary {sp : Space} {rule : Rule} {selection plan : List CellId}
    {bindings : Std.TreeMap CellId CellId} {st : Staging} {cs : List Cell} {c : Cell} {x : CellId}
    (h : Built sp rule bindings st plan cs)
    (hbindings : ∀ id : CellId, bindings[id]? = rule.boundBy selection id) (hc : c ∈ cs)
    (hx : x ∈ c.boundary) : x ∈ rule.boundIn selection ∨ x ∈ cs.map Cell.id := by
  obtain ⟨_, _, shape, _, _, _, hboundary⟩ := Outcome.forall₂_mem_right h.cells hc
  obtain ⟨id, _, hid⟩ := List.mem_map.mp (hboundary ▸ List.mem_map_of_mem hx)
  rw [h.bindings, hbindings, Option.or_eq_some_iff] at hid
  rcases hid with hbound | ⟨_, hmade⟩
  · exact Or.inl (Rule.mem_boundIn_of_boundBy hbound)
  · obtain ⟨i, hi, rfl⟩ := Option.map_eq_some_iff.mp hmade
    have hlt : i < cs.length := h.cells.length_eq ▸ (List.idxOf?_eq_some_iff.mp hi).1
    refine Or.inr ?_
    rw [h.staged.lines.ids]
    exact List.mem_map_of_mem (List.mem_range.mpr hlt)

/-! ## 2. What is kept -/

section Keeping

variable {s t : Store} {rule : Rule} {selection ids : List CellId} {r : Rewrite} {x y : CellId}

/-- A cell is alive afterwards if it was, and is not marked. -/
theorem Store.Marks.isLive_iff (h : s.Marks ids t) :
    t.lookup.IsLive x ↔ s.lookup.IsLive x ∧ x ∉ ids := by
  show (∃ c, t.find? x = some c ∧ _) ↔ (∃ c, s.find? x = some c ∧ _) ∧ _
  rw [h.find]
  by_cases hx : x ∈ ids
  · simp [hx, Cell.marked, Cell.isLive]
  · simp [hx]

/-- **What a rewrite keeps.** A cell at a bound position is alive afterwards exactly if it stands at
no unbound position too. Every cell made is alive and lies on bound cells and cells made, and of
these exactly those are deleted that stand at an unbound position. If no cell is selected twice, no
bound cell does. -/
theorem rewrite_keeps_bound (hs : s.Reachable)
    (h : (Space.rewrite rule selection).applyTo s = (.ok r, t)) :
    (∀ x ∈ rule.boundIn selection, t.lookup.IsLive x ↔ x ∉ rule.unboundIn selection) ∧
      (∀ id ∈ r.created, ∃ c, t.find? id = some c ∧ c.isLive = true ∧ ∀ x ∈ c.boundary,
        (x ∈ rule.boundIn selection ∨ x ∈ r.created) ∧
          (t.lookup.IsLive x ↔ x ∉ rule.unboundIn selection)) ∧
      (selection.Nodup → ∀ x ∈ rule.boundIn selection, x ∉ rule.unboundIn selection) := by
  obtain ⟨st, hprepare, -, -⟩ := Space.apply_rewrite_prepared hs.consistent h
  obtain ⟨m, -, hmatch, -⟩ := prepare_eq_ok hprepare
  obtain ⟨_, plan, st, cs, hlen, hbindings, _, hbuilt, hcreated, hdeleted, howned, hmarks⟩ :=
    Space.exists_built hs.consistent h
  have hlines : Lines [] s cs := hbuilt.staged.lines
  have hids : r.created = cs.map Cell.id := hcreated.trans hbuilt.staged.created
  rw [hdeleted] at hmarks howned
  -- what was matched is still alive when the cells have entered
  have hbound : ∀ x ∈ rule.boundIn selection,
      t.lookup.IsLive x ↔ x ∉ rule.unboundIn selection := by
    intro x hx
    obtain ⟨slot, hslot, _⟩ := Rule.mem_boundIn.mp hx
    obtain ⟨c, hc, hlive⟩ := Space.matchRule_live hmatch (List.of_mem_zip hslot).2
    rw [Space.lookup_ofStore] at hc
    rw [hmarks.isLive_iff]
    exact and_iff_right ⟨c, hlines.find?_kept hc, hlive⟩
  -- and what was made is not deleted again
  have hnew : ∀ c ∈ cs, c.id ∉ rule.unboundIn selection := by
    intro c hc hmem
    obtain ⟨d, hd⟩ := Store.owns_iff.mp (howned _ hmem)
    rw [hlines.fresh hc] at hd
    cases hd
  refine ⟨hbound, fun id hid => ?_, fun hnodup x hx => Rule.not_mem_unboundIn hlen hnodup hx⟩
  rw [hids] at hid ⊢
  obtain ⟨c, hc, rfl⟩ := List.mem_map.mp hid
  refine ⟨c, ?_, hlines.isLive hc, fun x hx => ?_⟩
  · rw [hmarks.find, if_neg (hnew c hc)]
    exact hlines.find?_mem hc
  · have hcases := hbuilt.mem_boundary hbindings hc hx
    refine ⟨hcases, ?_⟩
    rcases hcases with hx | hx
    · exact hbound x hx
    · obtain ⟨d, hd, rfl⟩ := List.mem_map.mp hx
      rw [hmarks.isLive_iff]
      exact and_iff_right ⟨d, hlines.find?_mem hd, hlines.isLive hd⟩

/-! ## 3. A rule that keeps one point and deletes another -/

/-- "The first point stays and gets a tag, the second goes." -/
def tagClauses : List Clause :=
  [.patternPoint Label.wildcard, .patternPoint Label.wildcard, .replacementPoint "kept",
    .produce "tag" [⟨0, 5⟩], .bind ⟨0, 3⟩ ⟨0, 5⟩]

/-- Two points, and the rule. -/
def tagStore : Store :=
  runAll (.empty 0) [.create "x" [], .create "y" [], .writeRule "tag" tagClauses true, .buildIndex]

/-- The rule, with the templates read for it. -/
def tagRule (templates : Std.TreeMap CellId Template) : Rule :=
  ⟨⟨0, 2⟩, 2, [⟨⟨0, 3⟩, 0, .any, some ⟨0, 5⟩⟩, ⟨⟨0, 4⟩, 0, .any, none⟩], [⟨0, 6⟩], templates⟩

theorem tagStore_reachable : tagStore.Reachable := (Store.Reachable.empty 0).runAll _

/-- The rule is read back. -/
theorem compile_tagStore : ∃ templates,
    Rule.compile (.ofStore tagStore) ⟨0, 2⟩ = .ok (tagRule templates) ∧
      (tagRule templates).template? ⟨0, 6⟩ = some ⟨"tag", 1, [⟨0, 5⟩]⟩ := by
  have hsound : (Space.ofStore tagStore).lookup.Sound :=
    tagStore_reachable.consistent.sound_ofStore
  have hroot : ((Space.ofStore tagStore).find? ⟨0, 2⟩).isSome = true := by decide +kernel
  have htag : ((Space.ofStore tagStore).find? ⟨0, 6⟩).map Template.ofCell =
      some ⟨"tag", 1, [⟨0, 5⟩]⟩ := by decide +kernel
  have hpattern : Rule.readPattern (.ofStore tagStore) ⟨0, 2⟩ = .ok (2,
      [⟨⟨0, 3⟩, 0, .any, some ⟨0, 5⟩⟩, ⟨⟨0, 4⟩, 0, .any, none⟩]) := by decide +kernel
  have hproduct : Rule.readProduct (.ofStore tagStore) ⟨0, 2⟩ = .ok [⟨0, 6⟩] := by decide +kernel
  obtain ⟨root, hroot⟩ := Option.isSome_iff_exists.mp hroot
  obtain ⟨c, hc, hshape⟩ := Option.map_eq_some_iff.mp htag
  obtain ⟨templates, hcompile, hfound⟩ :=
    Space.exists_compile hsound hroot hpattern hproduct (by simpa using ⟨c, hc⟩)
  exact ⟨templates, hcompile, hshape ▸ hfound _ List.mem_cons_self c hc⟩

/-- The rule applies to any two points, be they one or two. -/
theorem rewrite_tagRule {templates : Std.TreeMap CellId Template}
    (ht : (tagRule templates).template? ⟨0, 6⟩ = some ⟨"tag", 1, [⟨0, 5⟩]⟩) (hs : s.Consistent)
    (hx : s.IsLivePoint x) (hy : s.IsLivePoint y) :
    ∃ t, ∃ c : Cell, (Space.rewrite (tagRule templates) [x, y]).applyTo s =
      (.ok ⟨[c.id], [y]⟩, t) ∧ c.boundary = [x] ∧ Lines [] s [c] ∧ (s.pushAll [c]).Marks [y] t := by
  obtain ⟨c, hc, _⟩ : ∃ c, Cell.make s.lookup (s.nextId 0) "tag" [x] .full = .ok c ∧
      c.dimension = 1 :=
    make_ends hs.sound (List.cons_ne_nil x []) (Nat.le_succ 1) (by simpa using hx.isPoint)
  rw [← Space.lookup_ofStore] at hc
  obtain ⟨a, ha, ha0, halive⟩ := hx
  obtain ⟨b, hb, hb0, hblive⟩ := hy
  have hcells : [x, y].mapM (Space.ofStore s).resolve = .ok [a, b] :=
    Outcome.mapM_eq_ok.mpr
      (.cons (Store.resolve_ofStore ha) (.cons (Store.resolve_ofStore hb) .nil))
  obtain ⟨m, hm⟩ : ∃ m, (tagRule templates).matchCells [a, b] = .ok m :=
    exists_matchCells (by simp [Store.isLive_iff.mp halive, Store.isLive_iff.mp hblive])
      (by simp [ha0, hb0, tagRule]) rfl
      (by simp [tagRule, PatternSlot.misfit?, ha0, hb0, LabelPattern.fits])
  obtain ⟨hbindings, hunbound⟩ := matchCells_holds hm
  rw [List.map_cons, List.map_singleton, hs.id_eq ha, hs.id_eq hb] at hunbound
  have hbound : m.bindings[(⟨0, 5⟩ : CellId)]? = some x := by
    rw [hbindings, List.map_cons, hs.id_eq ha]
    rfl
  have hfree : m.bindings[(⟨0, 6⟩ : CellId)]? = none := by
    rw [hbindings]
    rfl
  have hplan : (tagRule templates).plan m.bindings.contains = .ok [⟨0, 6⟩] := by
    refine Rule.plan_single rfl ht ?_ ?_
    · rw [Std.TreeMap.contains_eq_isSome_getElem?, hfree]
      rfl
    · intro z hz
      rw [List.mem_singleton.mp hz, Std.TreeMap.contains_eq_isSome_getElem?, hbound]
      rfl
  have hstand : [⟨0, 5⟩].mapM ((Staging.start m.bindings).standIn (tagRule templates)) = .ok [x] :=
    Outcome.mapM_eq_ok.mpr (.cons (Staging.standIn_eq_ok.mpr hbound) .nil)
  obtain ⟨st, hprepare, hcreated, hentering⟩ :=
    Space.prepare_single hcells hm hplan ht hstand hc
  have hlines := prepare_lines hprepare
  obtain ⟨t, _, hrun, hmarks⟩ := Space.apply_rewrite_marks hs hprepare
  rw [hcreated, hunbound] at hrun
  rw [hentering] at hlines hmarks
  rw [hunbound] at hmarks
  exact ⟨t, c, Edit.applyTo_eq hrun, (make_fields hc).2.2.1, hlines, hmarks⟩

theorem tagStore_points : ∀ x ∈ [⟨0, 0⟩, (⟨0, 1⟩ : CellId)], tagStore.IsLivePoint x := by
  have hall : [⟨0, 0⟩, ⟨0, 1⟩].all (fun x => (tagStore.find? x).any fun c =>
      c.dimension == 0 && c.isLive) = true := by decide +kernel
  intro x hx
  obtain ⟨c, hc, hpoint⟩ := (Option.any_eq_true _ _).mp (List.all_eq_true.mp hall x hx)
  obtain ⟨hzero, hlive⟩ := Bool.and_eq_true_iff.mp hpoint
  exact ⟨c, hc, beq_iff_eq.mp hzero, hlive⟩

/-- Of two points the first is kept under its tag. -/
theorem rewrite_keeps_bound_apart :
    ∃ rule r t, Rule.compile (.ofStore tagStore) ⟨0, 2⟩ = .ok rule ∧
      (Space.rewrite rule [⟨0, 0⟩, ⟨0, 1⟩]).applyTo tagStore = (.ok r, t) ∧
      t.lookup.IsLive ⟨0, 0⟩ ∧ r.deleted = [⟨0, 1⟩] := by
  obtain ⟨templates, hcompile, ht⟩ := compile_tagStore
  obtain ⟨t, c, hrun, _⟩ := rewrite_tagRule ht tagStore_reachable.consistent
    (tagStore_points ⟨0, 0⟩ (by simp)) (tagStore_points ⟨0, 1⟩ (by simp))
  obtain ⟨hkept, _, hnodup⟩ := rewrite_keeps_bound tagStore_reachable hrun
  have hbound : ⟨0, 0⟩ ∈ (tagRule templates).boundIn [⟨0, 0⟩, ⟨0, 1⟩] := List.mem_cons_self
  exact ⟨_, _, t, hcompile, hrun, (hkept _ hbound).mpr (hnodup (by decide) _ hbound), rfl⟩

/-- **A bound cell that is deleted.** The point is selected for both positions; the tag made is
alive and lies on it. -/
theorem rewrite_keeps_bound_wrong :
    ∃ rule r t, ∃ c : Cell, tagStore.Reachable ∧
      Rule.compile (.ofStore tagStore) ⟨0, 2⟩ = .ok rule ∧
      (Space.rewrite rule [⟨0, 0⟩, ⟨0, 0⟩]).applyTo tagStore = (.ok r, t) ∧
      ⟨0, 0⟩ ∈ rule.boundIn [⟨0, 0⟩, ⟨0, 0⟩] ∧ ¬ t.lookup.IsLive ⟨0, 0⟩ ∧
      c.id ∈ r.created ∧ t.find? c.id = some c ∧ c.isLive = true ∧ c.boundary = [⟨0, 0⟩] := by
  obtain ⟨templates, hcompile, ht⟩ := compile_tagStore
  have hpoint := tagStore_points ⟨0, 0⟩ (by simp)
  obtain ⟨t, c, hrun, hboundary, hlines, hmarks⟩ :=
    rewrite_tagRule ht tagStore_reachable.consistent hpoint hpoint
  have hnew : c.id ∉ [(⟨0, 0⟩ : CellId)] := by
    rw [hlines.id_eq (k := 0) rfl]
    decide +kernel
  refine ⟨_, _, t, c, tagStore_reachable, hcompile, hrun, List.mem_cons_self,
    fun hlive => (hmarks.isLive_iff.mp hlive).2 List.mem_cons_self, List.mem_cons_self, ?_,
    hlines.isLive List.mem_cons_self, hboundary⟩
  rw [hmarks.find, if_neg hnew]
  exact hlines.find?_mem List.mem_cons_self

end Keeping

end CellComplex
