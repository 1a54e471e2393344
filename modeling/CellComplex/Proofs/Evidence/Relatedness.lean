import CellComplex.Proofs.Evidence.Dangling

/-!
# When there is evidence at all

Terms have evidence about each other only if they share a term, and a shared term may be shared
crosswise: what is the subject may be what the predicate is. Such a term counts neither for the
statement nor against it. While points are alive it makes no difference, for it ties the two terms
themselves together.

* `TermSets.Meets`: the two extensions, or the two intensions, have a common member;
* `summary_positive_pos_iff`: there is a case for the statement exactly if they do;
* **`Terms.meets_of_crossed`**: a live term that is shared crosswise makes the intensions meet;
* **`inferTruth_pos_iff`**: where all points are alive, evidence is never purely negative;
* `inferTruth_negative_bypass`: over a deleted point it can be.
-/

namespace CellComplex

/-! ## 1. Cases for the statement -/

theorem countIn_pos_iff {ids listed : List CellId} :
    0 < countIn ids (Std.TreeSet.ofList listed) ↔ ∃ x ∈ ids, x ∈ listed := by
  unfold countIn
  rw [List.countP_pos_iff]
  exact exists_congr fun x => and_congr_right fun _ => mem_ofList

namespace TermSets

variable {t : TermSets} {x : CellId}

/-- **Something is both terms, or both terms are something.** -/
def Meets (t : TermSets) : Prop :=
  (∃ x ∈ t.subjectExtension, x ∈ t.predicateExtension) ∨
    ∃ x ∈ t.subjectIntension, x ∈ t.predicateIntension

theorem positive_pos_iff : 0 < t.positive ↔ t.Meets := by
  have hsides : (∃ x ∈ t.predicateIntension, x ∈ t.subjectIntension) ↔
      ∃ x ∈ t.subjectIntension, x ∈ t.predicateIntension :=
    exists_congr fun x => and_comm
  unfold positive Meets
  rw [← hsides, ← countIn_pos_iff, ← countIn_pos_iff]
  omega

theorem Meets.share (h : t.Meets) : ∃ x, t.Share x := by
  rcases h with ⟨x, hx, hx'⟩ | ⟨x, hx, hx'⟩
  · exact ⟨x, Or.inl hx, Or.inl hx'⟩
  · exact ⟨x, Or.inr hx, Or.inr hx'⟩

/-- A term shared crosswise, between an extension and the other term's intension. -/
def Crossed (t : TermSets) (x : CellId) : Prop :=
  (x ∈ t.subjectExtension ∧ x ∈ t.predicateIntension) ∨
    (x ∈ t.subjectIntension ∧ x ∈ t.predicateExtension)

/-- A term is shared crosswise, or the terms meet in it. -/
theorem Share.crossed_or_meets (h : t.Share x) : t.Crossed x ∨ t.Meets := by
  obtain ⟨hse | hsi, hpe | hpi⟩ := h
  · exact Or.inr (Or.inl ⟨x, hse, hpe⟩)
  · exact Or.inl (Or.inl ⟨hse, hpi⟩)
  · exact Or.inl (Or.inr ⟨hsi, hpe⟩)
  · exact Or.inr (Or.inr ⟨x, hsi, hpi⟩)

section Summary

variable (horizon : Float) (htotal : t.total ≠ 0)
include htotal

theorem summary_total_pos_iff : 0 < (t.summary horizon).total ↔ ∃ x, t.Share x := by
  by_cases hshare : ∃ x, t.Share x
  · rw [(summary_of_related horizon (related_iff.mpr hshare) htotal).2]
    exact iff_of_true (Nat.pos_of_ne_zero htotal) hshare
  · rw [(summary_of_not_related horizon hshare).2]
    exact iff_of_false (Nat.lt_irrefl 0) hshare

/-- The gate loses no case: terms that meet pass it. -/
theorem summary_positive_pos_iff : 0 < (t.summary horizon).positive ↔ t.Meets := by
  by_cases hshare : ∃ x, t.Share x
  · rw [(summary_of_related horizon (related_iff.mpr hshare) htotal).1, positive_pos_iff]
  · rw [(summary_of_not_related horizon hshare).1]
    exact iff_of_false (Nat.lt_irrefl 0) fun hmeets => hshare hmeets.share

end Summary

end TermSets

/-! ## 2. Terms that are shared crosswise -/

namespace Store

variable {s : Store} {subject predicate x : CellId} {t : TermSets}

/-- **Through a live term that is shared crosswise one of the terms leads to the other**, which then
lies in both intensions. -/
theorem Terms.meets_of_crossed (h : s.Terms subject predicate t) (hx : s.IsLivePoint x)
    (hcrossed : t.Crossed x) : t.Meets := by
  rcases hcrossed with ⟨hse, hpi⟩ | ⟨hsi, hpe⟩
  · -- the predicate is x and x is the subject, so the predicate is the subject
    have hback := follows_back ((h.subjectExtension.mem_iff x).mp hse) hx.isLive
    have hchain := ((h.predicateIntension.mem_iff x).mp hpi).trans hback
    exact Or.inr ⟨subject, h.subjectIntension.start_mem,
      (h.predicateIntension.mem_iff subject).mpr hchain⟩
  · -- the subject is x and x is the predicate, so the subject is the predicate
    have hback := follows_back ((h.predicateExtension.mem_iff x).mp hpe) hx.isLive
    have hchain := ((h.subjectIntension.mem_iff x).mp hsi).trans hback
    exact Or.inr ⟨predicate, (h.subjectIntension.mem_iff predicate).mpr hchain,
      h.predicateIntension.start_mem⟩

/-- Terms of live points are related exactly if they meet. -/
theorem Terms.share_iff (h : s.Terms subject predicate t) (hs : s.lookup.Sound)
    (hlive : ∀ x, s.lookup.IsPoint x → s.IsLivePoint x) (hsubject : s.lookup.IsPoint subject) :
    (∃ x, t.Share x) ↔ t.Meets := by
  refine ⟨fun hshare => ?_, TermSets.Meets.share⟩
  obtain ⟨x, hx⟩ := hshare
  have hstart : s.IsLivePoint subject := hlive subject hsubject
  have hpoint : s.lookup.IsPoint x := hx.1.elim (h.subjectExtension.isPoint hs hstart)
    (h.subjectIntension.isPoint hs hstart)
  rcases hx.crossed_or_meets with hcrossed | hmeets
  · exact h.meets_of_crossed (hlive x hpoint) hcrossed
  · exact hmeets

end Store

/-! ## 3. Inference -/

/-- **Evidence is never purely negative.** In a reachable store with a fresh index in which all
points are alive, inference from two points with a horizon that is finite and positive succeeds, and
there are cases exactly if there are cases for the statement. For the terms are related, some term
of the subject being a term of the predicate, exactly if the two extensions or the two intensions
have a common member. -/
theorem inferTruth_pos_iff {s : Store} (hs : s.Reachable) (hfresh : s.isStale = false)
    (hlive : ∀ x, s.lookup.IsPoint x → s.IsLivePoint x) {subject predicate : CellId}
    (hsubject : s.lookup.IsPoint subject) (hpredicate : s.lookup.IsPoint predicate)
    {horizon : Float} (hfinite : horizon.isFinite = true) (hpositive : 0 < horizon) :
    ∃ (evidence : EvidenceSummary) (t : TermSets),
      (Space.ofStore s).inferTruth subject predicate horizon = .ok evidence ∧
      (Space.ofStore s).extension subject = .ok t.subjectExtension ∧
      (Space.ofStore s).intension subject = .ok t.subjectIntension ∧
      (Space.ofStore s).extension predicate = .ok t.predicateExtension ∧
      (Space.ofStore s).intension predicate = .ok t.predicateIntension ∧
      (0 < evidence.total ↔ 0 < evidence.positive) ∧
      (0 < evidence.total ↔ t.related = true) ∧
      (t.related = true ↔ ∃ x, (x ∈ t.subjectExtension ∨ x ∈ t.subjectIntension) ∧
        (x ∈ t.predicateExtension ∨ x ∈ t.predicateIntension)) ∧
      (t.related = true ↔ (∃ x ∈ t.subjectExtension, x ∈ t.predicateExtension) ∨
        ∃ x ∈ t.subjectIntension, x ∈ t.predicateIntension) := by
  obtain ⟨t, hse, hsi, hpe, hpi, hterms, htrav⟩ := hs.exists_terms hfresh hsubject hpredicate
  have hhorizon : isHorizon horizon = true := by simp [isHorizon, hfinite, hpositive]
  have hgate : (∃ x, t.Share x) ↔ t.Meets :=
    htrav.share_iff hs.consistent.sound hlive hsubject
  have htotal := TermSets.summary_total_pos_iff horizon htrav.total_ne_zero
  have hcases := TermSets.summary_positive_pos_iff horizon htrav.total_ne_zero
  exact ⟨t.summary horizon, t, Store.inferTruth_eq_ok hhorizon hterms, hse, hsi, hpe, hpi,
    htotal.trans (hgate.trans hcases.symm), htotal.trans TermSets.related_iff.symm,
    TermSets.related_iff, TermSets.related_iff.trans hgate⟩

/-- On the circle of edges all points are alive, and both points are "a" and "b". -/
theorem inferTruth_pos_iff_ring :
    ∃ evidence, (Space.ofStore ring).inferTruth ⟨0, 0⟩ ⟨0, 1⟩ 1 = .ok evidence ∧
      0 < evidence.total ∧ 0 < evidence.positive := by
  have hreach : ring.Reachable := (Store.Reachable.empty 0).runAll _
  have hcells : ∀ c ∈ ring.cells.toList, c.dimension = 0 → c.isLive = true := by decide +kernel
  have hlive : ∀ x, ring.lookup.IsPoint x → ring.IsLivePoint x := by
    rintro x ⟨c, hc, hpoint⟩
    obtain ⟨_, hmem⟩ := Store.find?_eq_some_iff.mp hc
    exact ⟨c, hc, hpoint, hcells c (Array.mem_toList_iff.mpr (Array.mem_of_getElem? hmem)) hpoint⟩
  have ha : ring.IsLivePoint ⟨0, 0⟩ := ⟨_, rfl, rfl, rfl⟩
  have hb : ring.IsLivePoint ⟨0, 1⟩ := ⟨_, rfl, rfl, rfl⟩
  have hfresh : ring.isStale = false := by decide +kernel
  obtain ⟨evidence, t, hinfer, _, hsi, _, hpi, hpos, hgate, _, hmeets⟩ :=
    inferTruth_pos_iff hreach hfresh hlive ha.isPoint hb.isPoint (by decide : (1 : Float).isFinite)
      (by decide)
  have htotal : 0 < evidence.total := by
    refine hgate.mpr (hmeets.mpr (Or.inr ⟨⟨0, 1⟩, ?_, ?_⟩))
    · obtain ⟨order, horder, htrav⟩ := hreach.walk_eq_ok hfresh .intension ha.isPoint
      cases hsi.symm.trans horder
      exact (htrav.mem_iff _).mpr (.single ⟨ha.isLive, ⟨0, 2⟩, _, rfl, rfl, rfl, rfl⟩)
    · obtain ⟨order, horder, htrav⟩ := hreach.walk_eq_ok hfresh .intension hb.isPoint
      cases hpi.symm.trans horder
      exact htrav.start_mem
  exact ⟨evidence, hinfer, htotal, hpos.mp htotal⟩

/-- An edge to a point and another one away from it; the point is deleted. -/
def bypass : Store :=
  runAll (.empty 0) [.create "a" [], .create "b" [], .create "c" [],
    .create "is" [⟨0, 0⟩, ⟨0, 1⟩], .create "is" [⟨0, 1⟩, ⟨0, 2⟩], .delete ⟨0, 1⟩, .buildIndex]

/-- What the walks from the ends of the two edges hold. -/
def bypassTerms : TermSets where
  subjectExtension := [⟨0, 2⟩, ⟨0, 1⟩]
  subjectIntension := [⟨0, 2⟩]
  predicateExtension := [⟨0, 0⟩]
  predicateIntension := [⟨0, 0⟩, ⟨0, 1⟩]

/-- **Over a deleted point evidence can be purely negative**: the point is what "a" is and what is
"c", but no chain of edges runs through it, so "c is a" has four cases and none for it. -/
theorem inferTruth_negative_bypass :
    bypass.Reachable ∧ bypass.isStale = false ∧
      ∃ evidence, (Space.ofStore bypass).inferTruth ⟨0, 2⟩ ⟨0, 0⟩ 1 = .ok evidence ∧
        evidence.positive = 0 ∧ evidence.total = 4 := by
  have ha : bypass.lookup.IsPoint ⟨0, 0⟩ := ⟨_, rfl, rfl⟩
  have hc : bypass.lookup.IsPoint ⟨0, 2⟩ := ⟨_, rfl, rfl⟩
  have hterms : (Space.ofStore bypass).termSets ⟨0, 2⟩ ⟨0, 0⟩ = .ok bypassTerms := by
    apply Space.termSets_eq_ok
    · exact Space.walk_of_within hc 6 (by decide +kernel)
    · exact Space.walk_of_within hc 6 (by decide +kernel)
    · exact Space.walk_of_within ha 6 (by decide +kernel)
    · exact Space.walk_of_within ha 6 (by decide +kernel)
  have hrel : bypassTerms.related = true := by decide +kernel
  have hnone : bypassTerms.positive = 0 := by decide +kernel
  obtain ⟨hpos, htotal⟩ := TermSets.summary_of_related 1 hrel (by decide)
  exact ⟨(Store.Reachable.empty 0).runAll _, by decide +kernel, bypassTerms.summary 1,
    Store.inferTruth_eq_ok (by decide) hterms, hpos.trans hnone, htotal⟩

end CellComplex
