import CellComplex.Proofs.Evidence.Inference

/-!
# Walks that run into deleted points

Deleting a point leaves the edges over it alive. A walk goes along such an edge and ends there: it
holds the deleted point, and leads nowhere from it.

* `Store.FollowsLive`: a step that leads to a live point;
* `Store.Dangles`: a step that leads to a deleted one;
* **`Traverses.live_iff`**: a walk holds the live points that steps over live points reach;
* **`Traverses.deleted_iff`**: and the deleted points that such a step ends at, and no others;
* `liveIn_eq_length_iff`: a walk is alive throughout exactly if none of its edges dangles;
* **`walk_deleted_iff`**: both for every walk, and what evidence counts;
* `walk_deleted_severed`: a walk that holds a deleted point, which is counted.
-/

namespace CellComplex

open Relation (ReflTransGen)

namespace Store

variable {s : Store} {direction : Direction} {start u v x : CellId} {order ids : List CellId}

/-! ## 1. Live points and deleted ones -/

/-- A point of the store that is deleted. -/
def IsDeletedPoint (s : Store) (x : CellId) : Prop :=
  ∃ c, s.find? x = some c ∧ c.dimension = 0 ∧ c.isLive = false

/-- **A step that leads to a live point.** -/
def FollowsLive (s : Store) (direction : Direction) (u v : CellId) : Prop :=
  s.Follows direction u v ∧ s.IsLivePoint v

/-- **A step that leads to a deleted point**: the edge is alive and so is the cell it leads from. -/
def Dangles (s : Store) (direction : Direction) (u v : CellId) : Prop :=
  s.Follows direction u v ∧ s.IsDeletedPoint v

theorem live_or_deleted (hx : s.lookup.IsPoint x) : s.IsLivePoint x ∨ s.IsDeletedPoint x := by
  obtain ⟨c, hc, hpoint⟩ := hx
  cases hlive : c.isLive with
  | true => exact Or.inl ⟨c, hc, hpoint, hlive⟩
  | false => exact Or.inr ⟨c, hc, hpoint, hlive⟩

theorem IsLivePoint.not_deleted (hx : s.IsLivePoint x) : ¬ s.IsDeletedPoint x := by
  obtain ⟨c, hc, _, hlive⟩ := hx
  rintro ⟨d, hd, _, hdead⟩
  cases hc.symm.trans hd
  rw [hlive] at hdead
  cases hdead

theorem Follows.isLive (h : s.Follows direction u v) (hu : s.lookup.IsPoint u) :
    s.IsLivePoint u := by
  obtain ⟨⟨c, hc, hlive⟩, _⟩ := h
  obtain ⟨d, hd, hpoint⟩ := hu
  cases hc.symm.trans hd
  exact ⟨c, hc, hpoint, hlive⟩

/-! ## 2. Walks from live points -/

section Traverses

variable (hs : s.lookup.Sound) (h : s.Traverses direction start order)
  (hstart : s.IsLivePoint start)
include hs h hstart

/-- A walk holds points. -/
theorem Traverses.isPoint (hx : x ∈ order) : s.lookup.IsPoint x :=
  isPoint_of_follows hs hstart.isPoint ((h.mem_iff x).mp hx)

/-- **Live points are reached over live points**: no chain passes through a deleted one. -/
theorem Traverses.live_iff :
    (x ∈ order ∧ s.IsLivePoint x) ↔ ReflTransGen (s.FollowsLive direction) start x := by
  rw [h.mem_iff]
  refine ⟨fun hx => ?_, fun hchain => ?_⟩
  · obtain ⟨hchain, hx⟩ := hx
    induction hchain with
    | refl => exact .refl
    | @tail z y hchain hstep ih =>
      have hz : s.IsLivePoint z := hstep.isLive (isPoint_of_follows hs hstart.isPoint hchain)
      exact (ih hz).tail ⟨hstep, hx⟩
  · have hforget : s.FollowsLive direction ≤ s.Follows direction := fun _ _ hstep => hstep.1
    refine ⟨ReflTransGen.mono hforget _ _ hchain, ?_⟩
    rcases ReflTransGen.cases_tail hchain with rfl | ⟨z, _, hstep⟩
    · exact hstart
    · exact hstep.2

omit hs in
/-- **A deleted point is held exactly if a live edge leads there from the walk.** -/
theorem Traverses.deleted_iff :
    (x ∈ order ∧ s.IsDeletedPoint x) ↔ ∃ u ∈ order, s.Dangles direction u x := by
  refine ⟨fun hx => ?_, fun hdangles => ?_⟩
  · obtain ⟨hmem, hdead⟩ := hx
    rcases ReflTransGen.cases_tail ((h.mem_iff x).mp hmem) with rfl | ⟨u, hchain, hstep⟩
    · exact absurd hdead hstart.not_deleted
    · exact ⟨u, (h.mem_iff u).mpr hchain, hstep, hdead⟩
  · obtain ⟨u, hu, hstep, hdead⟩ := hdangles
    exact ⟨(h.mem_iff x).mpr (((h.mem_iff u).mp hu).tail hstep), hdead⟩

/-- A walk is alive throughout exactly if none of its edges dangles. -/
theorem Traverses.all_live_iff :
    (∀ x ∈ order, s.IsLivePoint x) ↔ ∀ u ∈ order, ∀ v, ¬ s.Dangles direction u v := by
  refine ⟨fun hall u hu v hdangles => ?_, fun hnone x hx => ?_⟩
  · obtain ⟨hv, hdead⟩ := (h.deleted_iff hstart).mpr ⟨u, hu, hdangles⟩
    exact (hall v hv).not_deleted hdead
  · refine (live_or_deleted (h.isPoint hs hstart hx)).resolve_right fun hdead => ?_
    obtain ⟨u, hu, hdangles⟩ := (h.deleted_iff hstart).mp ⟨hx, hdead⟩
    exact hnone u hu x hdangles

end Traverses

/-! ## 3. Counting live terms -/

/-- The number of live cells among some. -/
def liveIn (s : Store) (ids : List CellId) : Nat :=
  ids.countP fun id => (s.find? id).any Cell.isLive

theorem liveIn_le : s.liveIn ids ≤ ids.length := List.countP_le_length

theorem isLivePoint_iff (hx : s.lookup.IsPoint x) :
    s.IsLivePoint x ↔ (s.find? x).any Cell.isLive = true := by
  obtain ⟨c, hc, hpoint⟩ := hx
  rw [Option.any_eq_true]
  refine exists_congr fun d => and_congr_right fun hd => ?_
  cases hc.symm.trans hd
  exact and_iff_right hpoint

/-- All members of a walk count as alive exactly if none of its edges dangles. -/
theorem Traverses.liveIn_eq_length_iff (h : s.Traverses direction start order)
    (hs : s.lookup.Sound) (hstart : s.IsLivePoint start) :
    s.liveIn order = order.length ↔ ∀ u ∈ order, ∀ v, ¬ s.Dangles direction u v := by
  rw [← h.all_live_iff hs hstart, liveIn, List.countP_eq_length]
  exact forall₂_congr fun x hx => (isLivePoint_iff (h.isPoint hs hstart hx)).symm

/-- **Evidence counts live terms only exactly if no edge of a walk that counts dangles.** -/
theorem Terms.total_live_iff {subject predicate : CellId} {t : TermSets}
    (h : s.Terms subject predicate t) (hs : s.lookup.Sound) (hsubject : s.IsLivePoint subject)
    (hpredicate : s.IsLivePoint predicate) :
    t.total = s.liveIn t.subjectExtension + s.liveIn t.predicateIntension ↔
      (∀ u ∈ t.subjectExtension, ∀ v, ¬ s.Dangles .extension u v) ∧
        ∀ u ∈ t.predicateIntension, ∀ v, ¬ s.Dangles .intension u v := by
  rw [← h.subjectExtension.liveIn_eq_length_iff hs hsubject,
    ← h.predicateIntension.liveIn_eq_length_iff hs hpredicate]
  have hle : s.liveIn t.subjectExtension ≤ t.subjectExtension.length := liveIn_le
  have hle' : s.liveIn t.predicateIntension ≤ t.predicateIntension.length := liveIn_le
  unfold TermSets.total
  omega

end Store

/-! ## 4. Walks and evidence -/

/-- **Which deleted points walks visit.** In a reachable store with a fresh index a walk from a live
point holds points; the live ones are those that steps over live points reach, and the deleted ones
those that a live edge leads to from a member of the walk. Inference from live terms counts members
of two walks, the deleted ones among them: it counts live terms only exactly if neither walk has a
live edge to a deleted point. -/
theorem walk_deleted_iff {s : Store} (hs : s.Reachable) (hfresh : s.isStale = false) :
    (∀ start direction, s.IsLivePoint start →
      ∃ order, (Space.ofStore s).walk direction start = .ok order ∧
        (∀ x ∈ order, s.IsLivePoint x ∨ s.IsDeletedPoint x) ∧
        (∀ x, (x ∈ order ∧ s.IsLivePoint x) ↔ ReflTransGen (s.FollowsLive direction) start x) ∧
        ∀ x, (x ∈ order ∧ s.IsDeletedPoint x) ↔ ∃ u ∈ order, s.Dangles direction u x) ∧
    ∀ subject predicate horizon, s.IsLivePoint subject → s.IsLivePoint predicate →
      isHorizon horizon = true →
      ∃ (evidence : EvidenceSummary) (t : TermSets),
        (Space.ofStore s).inferTruth subject predicate horizon = .ok evidence ∧
        (Space.ofStore s).extension subject = .ok t.subjectExtension ∧
        (Space.ofStore s).intension subject = .ok t.subjectIntension ∧
        (Space.ofStore s).extension predicate = .ok t.predicateExtension ∧
        (Space.ofStore s).intension predicate = .ok t.predicateIntension ∧
        ((¬ ∃ x, t.Share x) → evidence.total = 0) ∧
        ((∃ x, t.Share x) →
          (evidence.total = s.liveIn t.subjectExtension + s.liveIn t.predicateIntension ↔
            (∀ u ∈ t.subjectExtension, ∀ v, ¬ s.Dangles .extension u v) ∧
              ∀ u ∈ t.predicateIntension, ∀ v, ¬ s.Dangles .intension u v)) := by
  have hsound : s.lookup.Sound := hs.consistent.sound
  refine ⟨fun start direction hstart => ?_, fun subject predicate horizon hsubject hpredicate
    hhorizon => ?_⟩
  · obtain ⟨order, horder, htrav⟩ := hs.walk_eq_ok hfresh direction hstart.isPoint
    exact ⟨order, horder, fun x hx => Store.live_or_deleted (htrav.isPoint hsound hstart hx),
      fun x => htrav.live_iff hsound hstart, fun x => htrav.deleted_iff hstart⟩
  · obtain ⟨t, hse, hsi, hpe, hpi, hterms, htrav⟩ :=
      hs.exists_terms hfresh hsubject.isPoint hpredicate.isPoint
    refine ⟨t.summary horizon, t, Store.inferTruth_eq_ok hhorizon hterms, hse, hsi, hpe, hpi,
      fun hapart => (TermSets.summary_of_not_related horizon hapart).2, fun hshare => ?_⟩
    have hrel : t.related = true := TermSets.related_iff.mpr hshare
    rw [(TermSets.summary_of_related horizon hrel htrav.total_ne_zero).2]
    exact htrav.total_live_iff hsound hsubject hpredicate

/-- An edge from one point to another that was deleted before the index was built. -/
def severed : Store :=
  runAll (.empty 0) [.create "a" [], .create "b" [], .create "is" [⟨0, 0⟩, ⟨0, 1⟩],
    .delete ⟨0, 1⟩, .buildIndex]

/-- The walk along the edge holds the deleted point, to which the edge dangles. -/
theorem walk_deleted_severed :
    ∃ order, (Space.ofStore severed).intension ⟨0, 0⟩ = .ok order ∧ ⟨0, 1⟩ ∈ order ∧
      severed.IsDeletedPoint ⟨0, 1⟩ := by
  have hreach : severed.Reachable := (Store.Reachable.empty 0).runAll _
  have hfresh : severed.isStale = false := by decide +kernel
  have ha : severed.IsLivePoint ⟨0, 0⟩ := ⟨_, rfl, rfl, rfl⟩
  have hb : severed.IsDeletedPoint ⟨0, 1⟩ := ⟨_, rfl, rfl, rfl⟩
  obtain ⟨order, horder, _, hlive, hdeleted⟩ :=
    (walk_deleted_iff hreach hfresh).1 ⟨0, 0⟩ .intension ha
  have hstep : severed.Follows .intension ⟨0, 0⟩ ⟨0, 1⟩ :=
    ⟨ha.isLive, ⟨0, 2⟩, _, rfl, rfl, rfl, rfl⟩
  have hstart : ⟨0, 0⟩ ∈ order := ((hlive ⟨0, 0⟩).mpr .refl).1
  exact ⟨order, horder, (hdeleted ⟨0, 1⟩).mpr ⟨⟨0, 0⟩, hstart, hstep, hb⟩⟩

/-- What the walks from the edge's live end hold. -/
def severedTerms : TermSets where
  subjectExtension := [⟨0, 0⟩]
  subjectIntension := [⟨0, 0⟩, ⟨0, 1⟩]
  predicateExtension := [⟨0, 0⟩]
  predicateIntension := [⟨0, 0⟩, ⟨0, 1⟩]

/-- **Deleted points are visited, and counted**: from the live point the deleted one is reached, and
"a is a" has three cases, of which one is the deleted point. -/
theorem walk_visits_deleted :
    severed.Reachable ∧ severed.isStale = false ∧ severed.IsLivePoint ⟨0, 0⟩ ∧
      (Space.ofStore severed).extension ⟨0, 0⟩ = .ok [⟨0, 0⟩] ∧
      (Space.ofStore severed).intension ⟨0, 0⟩ = .ok [⟨0, 0⟩, ⟨0, 1⟩] ∧
      ¬ severed.IsLivePoint ⟨0, 1⟩ ∧
      ∃ evidence, (Space.ofStore severed).inferTruth ⟨0, 0⟩ ⟨0, 0⟩ 1 = .ok evidence ∧
        evidence.total = 3 := by
  have ha : severed.lookup.IsPoint ⟨0, 0⟩ := ⟨_, rfl, rfl⟩
  have hext : (Space.ofStore severed).extension ⟨0, 0⟩ = .ok [⟨0, 0⟩] :=
    Space.walk_of_within ha 4 (by decide +kernel)
  have hint : (Space.ofStore severed).intension ⟨0, 0⟩ = .ok [⟨0, 0⟩, ⟨0, 1⟩] :=
    Space.walk_of_within ha 4 (by decide +kernel)
  have hterms : (Space.ofStore severed).termSets ⟨0, 0⟩ ⟨0, 0⟩ = .ok severedTerms :=
    Space.termSets_eq_ok hext hint hext hint
  have hrel : severedTerms.related = true := by decide +kernel
  have hcount := (TermSets.summary_of_related 1 hrel (by decide)).2
  refine ⟨(Store.Reachable.empty 0).runAll _, by decide +kernel, ⟨_, rfl, rfl, rfl⟩, hext, hint,
    fun hlive => hlive.not_deleted ⟨_, rfl, rfl, rfl⟩, severedTerms.summary 1, ?_, hcount⟩
  exact Store.inferTruth_eq_ok (by decide) hterms

end CellComplex
