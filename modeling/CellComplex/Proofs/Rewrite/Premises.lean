import CellComplex.Proofs.Rewrite.Transitive
import CellComplex.Proofs.Rule.Later

/-!
# What the transitive rule asks for

A selection is matched position by position: by dimension, by label and by the mark of deletion. The
boundaries of the selected cells are not looked at. So the transitive rule asks for three points and
two premises, and not for a row: what lies where in the selection is for the caller to see to.

* `Written.compile_transitive_later`: what is read of the transitive rule, at any later time;
* `IsTransitive.matchCells_premises`: what matches;
* **`IsTransitive.rewrite_isOk_iff`**: applying the rule succeeds exactly for live points and
  premises;
* **`transitiveRule_premises`**: the rule from its writing over any run to its application, and
  what it then makes; `transitiveRule_premises_apart` is a selection that is no row.
-/

namespace CellComplex

open Edit

/-! ## 1. The rule, read later -/

/-- **The transitive rule that is read later** is the one that was written: every position is
bound. -/
theorem Written.compile_transitive_later {s : Store} {root : Cell}
    {entries : List (Clause × Cell)} {listings : List Listing} {label : String} {sp' : Space}
    {rule : Rule} (h : Written s root entries listings) (hs : s.Consistent)
    (hnamed : named entries = transitiveSaid label (fun k => s.nextId (k + 1)))
    (hdims : entries.map (·.2.dimension) = transitiveDimensions)
    (hkeeps : (Space.indexed (ruleStore s root entries listings)).Keeps sp'
      (ruleCells root entries listings)) (hsound : sp'.lookup.Sound)
    (hrule : Rule.compile sp' root.id = .ok rule) :
    rule.IsTransitive label (fun k => s.nextId (k + 1)) := by
  have hbound : ∀ x ∈ idsWhere (·.isListedOn .pattern) (named entries), ∃ y id,
      (Clause.bind x y, id) ∈ named entries := by
    rw [hnamed]
    intro x hx
    have hrow : ∃ k < 5, s.nextId (k + 1) = x := by
      simp only [Clause.isListedOn_pattern] at hx
      change x ∈ idsOf .pattern _ at hx
      rw [idsOf_transitiveSaid] at hx
      obtain ⟨k, hk, hid⟩ := List.mem_iff_getElem.mp hx
      refine ⟨k, hk, ?_⟩
      rw [← hid]
      have hk' : k < 5 := hk
      interval_cases k <;> rfl
    obtain ⟨k, hk, rfl⟩ := hrow
    exact ⟨_, _, (bind_transitiveSaid label _).mpr ⟨k, hk, rfl, rfl, rfl⟩⟩
  have hsome : idsWhere (·.isPointOf .product) (named entries) ≠ [] := by
    rw [hnamed, idsWhere_transitiveSaid]
    exact List.cons_ne_nil _ _
  obtain ⟨r, hr, hpoints, hpattern, hproduct, htemplate⟩ :=
    h.compile_later (h.closed_transitive hnamed) hs hkeeps hsound hbound hsome hrule
  have hbind : label ≠ Label.bind := fun hword =>
    h.compile_ne_of_bind hnamed hs s.nextId_succ_injective hword hr
  have hnobind : label ≠ Label.nobind := fun hword => h.compile_ne_of_nobind hnamed hs hword hr
  obtain ⟨r', hr', htransitive⟩ := h.compile_transitive hs hnamed hdims hbind hnobind
  obtain rfl : r = r' := Except.ok.inj (hr.symm.trans hr')
  refine ⟨htransitive.injective, hpoints.trans htransitive.points,
    hpattern.trans htransitive.pattern, hproduct.trans htransitive.product, ?_⟩
  rw [htemplate _ (by rw [hproduct, htransitive.product]; exact List.mem_singleton_self _)]
  exact htransitive.template

/-! ## 2. What matches -/

namespace Rule.IsTransitive

variable {rule : Rule} {label : String} {n : Nat → CellId} (h : rule.IsTransitive label n)
include h

/-- **What matches is three live points and two live cells of dimension one** with labels that
fit. -/
theorem matchCells_premises {a b c e f : Cell} {m : Matching}
    (hm : rule.matchCells [a, b, c, e, f] = .ok m) :
    (∀ x ∈ [a, b, c], x.isLive = true ∧ x.dimension = 0) ∧
      ∀ x ∈ [e, f], x.isLive = true ∧ x.dimension = 1 ∧
        (LabelPattern.ofLabel label).fits x.label = true := by
  obtain ⟨hlive, _, hslots⟩ := matchCells_eq_ok hm
  have hfit := matchSlots_fits hslots
  rw [h.pattern] at hfit
  simp only [List.zip_cons_cons, List.zip_nil_right, List.forall_mem_cons,
    PatternSlot.misfit?_eq_none] at hfit hlive ⊢
  obtain ⟨ha, hb, hc, he, hf, _⟩ := hfit
  obtain ⟨la, lb, lc, le, lf, _⟩ := hlive
  refine ⟨⟨⟨?_, ha.1.symm⟩, ⟨?_, hb.1.symm⟩, ⟨?_, hc.1.symm⟩, by simp⟩,
    ⟨?_, he.1.symm, he.2⟩, ⟨?_, hf.1.symm, hf.2⟩, by simp⟩ <;>
    exact Store.isLive_iff.mpr ‹_›

variable {s : Store} {x y z u v : CellId}

/-- **Applying the transitive rule succeeds exactly for three live points and two premises.** -/
theorem rewrite_isOk_iff (hs : s.Consistent) :
    (∃ made t, (Space.rewrite rule [x, y, z, u, v]).applyTo s = (.ok made, t)) ↔
      s.IsLivePoint x ∧ s.IsLivePoint y ∧ s.IsLivePoint z ∧ s.IsPremise label u ∧
        s.IsPremise label v := by
  refine ⟨fun h' => ?_, fun h' => ?_⟩
  · obtain ⟨made, t, hrun⟩ := h'
    unfold applyTo at hrun
    cases hprepare : (Space.ofStore s).prepare rule [x, y, z, u, v] with
    | error err =>
      rw [Space.apply_rewrite_error hprepare] at hrun
      cases hrun
    | ok prepared =>
      obtain ⟨m, hmatched, _⟩ := Outcome.bind_eq_ok.mp hprepare
      obtain ⟨cells, hcells, hm⟩ := Space.matchRule_eq_ok hmatched
      have hall := Outcome.mapM_eq_ok.mp hcells
      simp only [List.forall₂_cons_left_iff, List.forall₂_nil_left_iff, Lookup.resolve_eq_ok,
        Space.lookup_ofStore] at hall
      obtain ⟨a, _, ha, ⟨b, _, hb, ⟨c, _, hc, ⟨e, _, he, ⟨f, _, hf, rfl, rfl⟩, rfl⟩, rfl⟩, rfl⟩,
        rfl⟩ := hall
      obtain ⟨hpoints, hpremises⟩ := h.matchCells_premises hm
      simp only [List.forall_mem_cons] at hpoints hpremises
      obtain ⟨hpa, hpb, hpc, _⟩ := hpoints
      obtain ⟨hpe, hpf, _⟩ := hpremises
      exact ⟨⟨a, ha, hpa.2, hpa.1⟩, ⟨b, hb, hpb.2, hpb.1⟩, ⟨c, hc, hpc.2, hpc.1⟩, ⟨e, he, hpe⟩,
        ⟨f, hf, hpf⟩⟩
  · obtain ⟨hx, hy, hz, hu, hv⟩ := h'
    obtain ⟨t, c, hrewrite, _⟩ := h.rewrite_of_premises hs hx hy hz hu hv
    exact ⟨_, t, applyTo_eq hrewrite⟩

end Rule.IsTransitive

/-! ## 3. From writing to applying -/

section Applying

variable {s t v : Store} {label : String} {root : CellId} {ops : List Operation} {rule : Rule}

/-- Building the index makes it fresh, and keeps the cells. -/
theorem runAll_buildIndex (t : Store) : (runAll t [.buildIndex]).isStale = false ∧
    ∀ id, (runAll t [.buildIndex]).find? id = t.find? id := by
  rw [show runAll t [.buildIndex] = t.buildIndex t.lookup from Operation.run_buildIndex t]
  exact ⟨Store.isStale_buildIndex, fun _ => rfl⟩

/-- The rule is written, and read as soon as the index is built. -/
theorem transitiveRule_read (hs : s.Reachable) (hbind : label ≠ Label.bind)
    (hnobind : label ≠ Label.nobind) :
    ∃ root t rule n, (transitiveRule label).applyTo s = (.ok root, t) ∧ t.Reachable ∧
      (∀ id c, s.find? id = some c → (runAll t [.buildIndex]).find? id = some c) ∧
      Rule.compile (.ofStore (runAll t [.buildIndex])) root = .ok rule ∧
      rule.IsTransitive label n := by
  obtain ⟨root, entries, listings, hwritten, hrun, hnamed, hdims, hreach⟩ :=
    transitiveRule_reachable hs label
  obtain ⟨rule, hcompile, htransitive⟩ :=
    hwritten.compile_transitive hs.consistent hnamed hdims hbind hnobind
  have hindexed : Space.ofStore (runAll (ruleStore s root entries listings) [.buildIndex]) =
      .indexed (ruleStore s root entries listings) :=
    congrArg Space.ofStore (Operation.run_buildIndex _)
  refine ⟨root.id, _, rule, _, hrun, hreach, fun id c hc => ?_, ?_, htransitive⟩
  · rw [(runAll_buildIndex _).2]
    exact hwritten.lines.find?_kept hc
  · rw [hindexed]
    exact hcompile

/-- **What the transitive rule asks for and what it makes.** Let the rule be written, then any
operations follow that neither relabel nor delete a cell of it, and the rule be read with a fresh
index. Applied to any store, it succeeds exactly for three live points and two premises, and then it
makes one cell, the edge from the first point to the last, and changes nothing else. -/
theorem transitiveRule_premises (hs : s.Reachable)
    (hwrite : (transitiveRule label).applyTo s = (.ok root, t))
    (hfresh : (runAll t ops).isStale = false)
    (hkept : ∀ id c, s.find? id = none → t.find? id = some c →
      ∃ d, (runAll t ops).find? id = some d ∧ d.label = c.label ∧ d.deleted = c.deleted)
    (hcompile : Rule.compile (.ofStore (runAll t ops)) root = .ok rule) (hv : v.Reachable)
    (x y z e f : CellId) :
    ((∃ made w, (Space.rewrite rule [x, y, z, e, f]).applyTo v = (.ok made, w)) ↔
        v.IsLivePoint x ∧ v.IsLivePoint y ∧ v.IsLivePoint z ∧ v.IsPremise label e ∧
          v.IsPremise label f) ∧
      ∀ made w, (Space.rewrite rule [x, y, z, e, f]).applyTo v = (.ok made, w) →
        ∃ c, made = ⟨[c.id], []⟩ ∧ c.Says label x z ∧ v.find? c.id = none ∧
          ∀ id, w.find? id = if id = c.id then some c else v.find? id := by
  obtain ⟨r, entries, listings, hwritten, hrun, hnamed, hdims, hreach⟩ :=
    transitiveRule_reachable hs label
  rw [hrun] at hwrite
  cases hwrite
  have hu : (runAll (ruleStore s r entries listings) ops).Reachable := hreach.runAll ops
  have hkeeps := hwritten.lines.keeps hs.consistent
    (hwritten.ruleCells_closed (hwritten.closed_transitive hnamed)) hu hfresh
    (runAll_extends _ ops) fun c hc =>
      hkept c.id c (hwritten.lines.fresh hc) (hwritten.lines.find?_mem hc)
  have hsound : (Space.ofStore (runAll (ruleStore s r entries listings) ops)).lookup.Sound :=
    hu.consistent.sound_ofStore
  have htransitive := hwritten.compile_transitive_later hs.consistent hnamed hdims hkeeps hsound
    hcompile
  have hiff := htransitive.rewrite_isOk_iff (x := x) (y := y) (z := z) (u := e) (v := f)
    hv.consistent
  refine ⟨hiff, fun made w hmade => ?_⟩
  obtain ⟨hx, hy, hz, he, hf⟩ := hiff.mp ⟨made, w, hmade⟩
  obtain ⟨w', c, hrewrite, hlines, hmarks, hsay⟩ :=
    htransitive.rewrite_of_premises hv.consistent hx hy hz he hf
  rw [applyTo_eq hrewrite] at hmade
  cases hmade
  exact ⟨c, rfl, hsay, hlines.fresh List.mem_cons_self, hlines.find?_single hmarks⟩

/-- In a row of three points the edge from the first to the last is made. -/
theorem transitiveRule_premises_wildRow :
    ∃ root t rule w, ∃ c : Cell, (transitiveRule Label.wildcard).applyTo wildRow = (.ok root, t) ∧
      Rule.compile (.ofStore (runAll t [.buildIndex])) root = .ok rule ∧
      (Space.rewrite rule [⟨0, 0⟩, ⟨0, 1⟩, ⟨0, 2⟩, ⟨0, 3⟩, ⟨0, 4⟩]).applyTo
          (runAll t [.buildIndex]) = (.ok ⟨[c.id], []⟩, w) ∧
      c.boundary = [⟨0, 0⟩, ⟨0, 2⟩] ∧ w.find? c.id = some c := by
  have hs : wildRow.Reachable := (Store.Reachable.empty 0).runAll _
  obtain ⟨root, t, rule, _, hwrite, hreach, hold, hcompile, _⟩ :=
    transitiveRule_read hs (by decide : Label.wildcard ≠ Label.bind) (by decide)
  obtain ⟨hfresh, hfind⟩ := runAll_buildIndex t
  obtain ⟨hiff, hmakes⟩ := transitiveRule_premises hs hwrite hfresh
    (fun id c _ hc => ⟨c, (hfind id).trans hc, rfl, rfl⟩) hcompile (hreach.runAll [.buildIndex])
    ⟨0, 0⟩ ⟨0, 1⟩ ⟨0, 2⟩ ⟨0, 3⟩ ⟨0, 4⟩
  obtain ⟨made, w, hrun⟩ := hiff.mpr ⟨⟨_, hold _ _ rfl, rfl, rfl⟩, ⟨_, hold _ _ rfl, rfl, rfl⟩,
    ⟨_, hold _ _ rfl, rfl, rfl⟩, ⟨_, hold _ _ rfl, rfl, rfl, rfl⟩, ⟨_, hold _ _ rfl, rfl, rfl, rfl⟩⟩
  obtain ⟨c, rfl, hsay, _, hafter⟩ := hmakes made w hrun
  exact ⟨root, t, rule, w, c, hwrite, hcompile, hrun, hsay.boundary,
    (hafter c.id).trans (if_pos rfl)⟩

/-- A robin is a bird, and an animal is a bird. -/
def flock : Store :=
  runAll (.empty 0) [.create "robin" [], .create "bird" [], .create "animal" [],
    .create "is" [⟨0, 0⟩, ⟨0, 1⟩], .create "is" [⟨0, 2⟩, ⟨0, 1⟩]]

/-- **The premises need not be a row.** The second edge leads from the animal to the bird, and still
it follows that a robin is an animal. -/
theorem transitiveRule_premises_apart :
    ∃ root t rule w, ∃ c : Cell, (transitiveRule "is").applyTo flock = (.ok root, t) ∧
      (runAll t [.buildIndex]).isStale = false ∧
      Rule.compile (.ofStore (runAll t [.buildIndex])) root = .ok rule ∧
      (Space.rewrite rule [⟨0, 0⟩, ⟨0, 1⟩, ⟨0, 2⟩, ⟨0, 3⟩, ⟨0, 4⟩]).applyTo
          (runAll t [.buildIndex]) = (.ok ⟨[c.id], []⟩, w) ∧
      c.boundary = [⟨0, 0⟩, ⟨0, 2⟩] ∧
      ((runAll t [.buildIndex]).find? ⟨0, 4⟩).map Cell.boundary = some [⟨0, 2⟩, ⟨0, 1⟩] := by
  have hs : flock.Reachable := (Store.Reachable.empty 0).runAll _
  obtain ⟨root, t, rule, _, hwrite, hreach, hold, hcompile, htransitive⟩ :=
    transitiveRule_read hs (by decide : "is" ≠ Label.bind) (by decide)
  obtain ⟨w, c, hrewrite, _, _, hsay⟩ := htransitive.rewrite_of_premises
    (hreach.runAll [.buildIndex]).consistent (x := ⟨0, 0⟩) (y := ⟨0, 1⟩) (z := ⟨0, 2⟩)
    (u := ⟨0, 3⟩) (v := ⟨0, 4⟩) ⟨_, hold _ _ rfl, rfl, rfl⟩ ⟨_, hold _ _ rfl, rfl, rfl⟩
    ⟨_, hold _ _ rfl, rfl, rfl⟩ ⟨_, hold _ _ rfl, rfl, rfl, by decide⟩
    ⟨_, hold _ _ rfl, rfl, rfl, by decide⟩
  refine ⟨root, t, rule, w, c, hwrite, (runAll_buildIndex t).1, hcompile, applyTo_eq hrewrite,
    hsay.boundary, ?_⟩
  rw [hold ⟨0, 4⟩ _ rfl]
  rfl

end Applying

end CellComplex
