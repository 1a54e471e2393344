import CellComplex.Evidence.Inference
import CellComplex.Proofs.Evidence.Walk

/-!
# What full evidence means

Inference counts members of four walks. Nothing of the counting is left in what the counts mean: all
evidence speaks for "S is P" exactly if live edges lead from S to P.

* `TermSets.Nested`: what is S is P, and what P is, is S;
* `positive_eq_total_iff`: all cases count for the statement exactly if the terms are nested;
* **`Terms.nested_iff`**: terms of live points are nested exactly if P is in the intension of S --
  one half is transitivity of the walks, the other needs that they mirror each other;
* **`inferTruth_full_iff`**: inference succeeds, and what its counts mean.
-/

namespace CellComplex

open Relation (ReflTransGen)

/-! ## 1. Counts -/

variable {ids listed : List CellId} {x : CellId}

theorem mem_ofList_append {ids' : List CellId} :
    x ∈ Std.TreeSet.ofList (ids ++ ids') ↔ x ∈ ids ∨ x ∈ ids' := by
  rw [mem_ofList, List.mem_append]

theorem countIn_le : countIn ids (Std.TreeSet.ofList listed) ≤ ids.length :=
  List.countP_le_length

theorem countIn_eq_length_iff :
    countIn ids (Std.TreeSet.ofList listed) = ids.length ↔ ∀ x ∈ ids, x ∈ listed := by
  unfold countIn
  rw [List.countP_eq_length]
  exact forall₂_congr fun x _ => mem_ofList

namespace TermSets

variable {t : TermSets}

/-- **What is the subject is the predicate, and what the predicate is, the subject is.** -/
def Nested (t : TermSets) : Prop :=
  (∀ x ∈ t.subjectExtension, x ∈ t.predicateExtension) ∧
    ∀ x ∈ t.predicateIntension, x ∈ t.subjectIntension

/-- A term of the subject is a term of the predicate. -/
def Share (t : TermSets) (x : CellId) : Prop :=
  (x ∈ t.subjectExtension ∨ x ∈ t.subjectIntension) ∧
    (x ∈ t.predicateExtension ∨ x ∈ t.predicateIntension)

theorem positive_le_total : t.positive ≤ t.total := Nat.add_le_add countIn_le countIn_le

theorem positive_eq_total_iff : t.positive = t.total ↔ t.Nested := by
  unfold positive total Nested
  rw [← countIn_eq_length_iff, ← countIn_eq_length_iff]
  -- neither count exceeds its length, so the sums agree only if both counts are full
  have hle : countIn t.subjectExtension (Std.TreeSet.ofList t.predicateExtension) ≤
      t.subjectExtension.length := countIn_le
  have hle' : countIn t.predicateIntension (Std.TreeSet.ofList t.subjectIntension) ≤
      t.predicateIntension.length := countIn_le
  omega

theorem related_iff : t.related = true ↔ ∃ x, t.Share x := by
  unfold related Share
  rw [List.any_eq_true]
  refine exists_congr fun x => and_congr List.mem_append ?_
  exact mem_ofList_append

theorem summary_of_related (horizon : Float) (h : t.related = true) (htotal : t.total ≠ 0) :
    (t.summary horizon).positive = t.positive ∧ (t.summary horizon).total = t.total := by
  unfold summary EvidenceSummary.ofCounts
  rw [if_pos h, if_neg htotal]
  exact ⟨rfl, rfl⟩

theorem summary_of_not_related (horizon : Float) (h : ¬ ∃ x, t.Share x) :
    (t.summary horizon).positive = 0 ∧ (t.summary horizon).total = 0 := by
  unfold summary
  rw [if_neg fun hrel => h (related_iff.mp hrel)]
  exact ⟨rfl, rfl⟩

theorem summary_positive_le (horizon : Float) :
    (t.summary horizon).positive ≤ (t.summary horizon).total := by
  by_cases h : t.related = true
  · by_cases htotal : t.total = 0
    · unfold summary EvidenceSummary.ofCounts
      rw [if_pos h, if_pos htotal]
      exact Nat.le_refl 0
    · obtain ⟨hpos, htot⟩ := summary_of_related horizon h htotal
      rw [hpos, htot]
      exact positive_le_total
  · obtain ⟨hpos, htot⟩ := summary_of_not_related horizon (mt related_iff.mpr h)
    exact Nat.le_of_eq (hpos.trans htot.symm)

end TermSets

/-! ## 2. Terms of points -/

/-- Inference gathers what the four walks hold. -/
theorem Space.termSets_eq_ok {sp : Space} {subject predicate : CellId} {t : TermSets}
    (hse : sp.extension subject = .ok t.subjectExtension)
    (hsi : sp.intension subject = .ok t.subjectIntension)
    (hpe : sp.extension predicate = .ok t.predicateExtension)
    (hpi : sp.intension predicate = .ok t.predicateIntension) :
    sp.termSets subject predicate = .ok t := by
  refine Outcome.bind_eq_ok.mpr ⟨_, hse, Outcome.bind_eq_ok.mpr ⟨_, hsi, ?_⟩⟩
  exact Outcome.bind_eq_ok.mpr ⟨_, hpe, Outcome.bind_eq_ok.mpr ⟨_, hpi, rfl⟩⟩

/-- The four walks from a subject and a predicate. -/
structure Store.Terms (s : Store) (subject predicate : CellId) (t : TermSets) : Prop where
  subjectExtension : s.Traverses .extension subject t.subjectExtension
  subjectIntension : s.Traverses .intension subject t.subjectIntension
  predicateExtension : s.Traverses .extension predicate t.predicateExtension
  predicateIntension : s.Traverses .intension predicate t.predicateIntension

namespace Store

variable {s : Store} {subject predicate : CellId} {t : TermSets} {horizon : Float}

/-- The terms of two points, as inference gathers them. -/
theorem Reachable.exists_terms (h : s.Reachable) (hfresh : s.isStale = false)
    (hsubject : s.lookup.IsPoint subject) (hpredicate : s.lookup.IsPoint predicate) :
    ∃ t : TermSets, (Space.ofStore s).extension subject = .ok t.subjectExtension ∧
      (Space.ofStore s).intension subject = .ok t.subjectIntension ∧
      (Space.ofStore s).extension predicate = .ok t.predicateExtension ∧
      (Space.ofStore s).intension predicate = .ok t.predicateIntension ∧
      (Space.ofStore s).termSets subject predicate = .ok t ∧ s.Terms subject predicate t := by
  obtain ⟨se, hse, tse⟩ := h.walk_eq_ok hfresh .extension hsubject
  obtain ⟨si, hsi, tsi⟩ := h.walk_eq_ok hfresh .intension hsubject
  obtain ⟨pe, hpe, tpe⟩ := h.walk_eq_ok hfresh .extension hpredicate
  obtain ⟨pi, hpi, tpi⟩ := h.walk_eq_ok hfresh .intension hpredicate
  exact ⟨⟨se, si, pe, pi⟩, hse, hsi, hpe, hpi, Space.termSets_eq_ok hse hsi hpe hpi, tse, tsi, tpe,
    tpi⟩

/-- A usable horizon and terms give their summary. -/
theorem inferTruth_eq_ok (hhorizon : isHorizon horizon = true)
    (hterms : (Space.ofStore s).termSets subject predicate = .ok t) :
    (Space.ofStore s).inferTruth subject predicate horizon = .ok (t.summary horizon) := by
  unfold Space.inferTruth
  rw [hhorizon, hterms]
  rfl

namespace Terms

variable (h : s.Terms subject predicate t)
include h

theorem total_ne_zero : t.total ≠ 0 := by
  have hlen : 0 < t.subjectExtension.length :=
    List.length_pos_of_mem h.subjectExtension.start_mem
  unfold TermSets.total
  omega

/-- **Terms of live points are nested exactly if the predicate is in the intension of the
subject.** -/
theorem nested_iff (hsubject : s.IsLivePoint subject) (hpredicate : s.IsLivePoint predicate) :
    t.Nested ↔ predicate ∈ t.subjectIntension := by
  refine ⟨fun hnested => ?_, fun hmem => ⟨fun x hx => ?_, fun x hx => ?_⟩⟩
  · exact hnested.2 predicate h.predicateIntension.start_mem
  · have hback : subject ∈ t.predicateExtension :=
      (h.subjectIntension.mirror hsubject hpredicate h.predicateExtension).mp hmem
    have hahead := (h.predicateExtension.mem_iff subject).mp hback
    exact (h.predicateExtension.mem_iff x).mpr (hahead.trans ((h.subjectExtension.mem_iff x).mp hx))
  · have hahead := (h.subjectIntension.mem_iff predicate).mp hmem
    exact (h.subjectIntension.mem_iff x).mpr (hahead.trans ((h.predicateIntension.mem_iff x).mp hx))

/-- Nested terms share the subject. -/
theorem related_of_nested (hnested : t.Nested) : t.related = true := by
  refine TermSets.related_iff.mpr ⟨subject, Or.inl h.subjectExtension.start_mem, Or.inl ?_⟩
  exact hnested.1 subject h.subjectExtension.start_mem

/-- All evidence speaks for the statement exactly if the terms are nested. -/
theorem summary_full_iff (horizon : Float) :
    ((t.summary horizon).positive = (t.summary horizon).total ∧ 0 < (t.summary horizon).total) ↔
      t.Nested := by
  by_cases hrel : t.related = true
  · obtain ⟨hpos, htot⟩ := TermSets.summary_of_related horizon hrel h.total_ne_zero
    rw [hpos, htot, TermSets.positive_eq_total_iff]
    exact and_iff_left (Nat.pos_of_ne_zero h.total_ne_zero)
  · obtain ⟨_, htot⟩ := TermSets.summary_of_not_related horizon
      (mt TermSets.related_iff.mpr hrel)
    rw [htot]
    exact iff_of_false (fun hfull => Nat.lt_irrefl 0 hfull.2)
      fun hnested => hrel (h.related_of_nested hnested)

end Terms

end Store

/-! ## 3. Inference -/

/-- **Full evidence means derivability.** For live points of a reachable store with a fresh index
and a horizon that is finite and positive, inference succeeds; never are there more cases for the
statement than cases. All cases are for it, and there is one, exactly if the predicate is in the
intension of the subject, that is if a chain of live edges leads there; the cases then are the
extension of the subject and the intension of the predicate. Terms that share nothing have no
evidence about each other. -/
theorem inferTruth_full_iff {s : Store} (hs : s.Reachable) (hfresh : s.isStale = false)
    {subject predicate : CellId} (hsubject : s.IsLivePoint subject)
    (hpredicate : s.IsLivePoint predicate) {horizon : Float}
    (hfinite : horizon.isFinite = true) (hpositive : 0 < horizon) :
    ∃ (evidence : EvidenceSummary) (t : TermSets),
      (Space.ofStore s).inferTruth subject predicate horizon = .ok evidence ∧
      (Space.ofStore s).extension subject = .ok t.subjectExtension ∧
      (Space.ofStore s).intension subject = .ok t.subjectIntension ∧
      (Space.ofStore s).extension predicate = .ok t.predicateExtension ∧
      (Space.ofStore s).intension predicate = .ok t.predicateIntension ∧
      evidence.positive ≤ evidence.total ∧
      ((evidence.positive = evidence.total ∧ 0 < evidence.total) ↔
        predicate ∈ t.subjectIntension) ∧
      (predicate ∈ t.subjectIntension ↔ ReflTransGen (s.Follows .intension) subject predicate) ∧
      (predicate ∈ t.subjectIntension →
        evidence.total = t.subjectExtension.length + t.predicateIntension.length) ∧
      ((∀ x, x ∈ t.subjectExtension ∨ x ∈ t.subjectIntension →
          ¬ (x ∈ t.predicateExtension ∨ x ∈ t.predicateIntension)) →
        evidence.positive = 0 ∧ evidence.total = 0) := by
  obtain ⟨t, hse, hsi, hpe, hpi, hterms, htrav⟩ :=
    hs.exists_terms hfresh hsubject.isPoint hpredicate.isPoint
  have hhorizon : isHorizon horizon = true := by simp [isHorizon, hfinite, hpositive]
  refine ⟨t.summary horizon, t, Store.inferTruth_eq_ok hhorizon hterms, hse, hsi, hpe, hpi,
    TermSets.summary_positive_le horizon, ?_, htrav.subjectIntension.mem_iff predicate,
    fun hmem => ?_, fun hapart => ?_⟩
  · rw [htrav.summary_full_iff, htrav.nested_iff hsubject hpredicate]
  · have hnested := (htrav.nested_iff hsubject hpredicate).mpr hmem
    have hrel := htrav.related_of_nested hnested
    exact (TermSets.summary_of_related horizon hrel htrav.total_ne_zero).2
  · refine TermSets.summary_of_not_related horizon fun hshare => ?_
    obtain ⟨x, hx, hx'⟩ := hshare
    exact hapart x hx hx'

/-- On the circle of edges everything speaks for "a is b", both terms being both points. -/
theorem inferTruth_full_iff_ring :
    ∃ evidence, (Space.ofStore ring).inferTruth ⟨0, 0⟩ ⟨0, 1⟩ 1 = .ok evidence ∧
      evidence.positive = evidence.total ∧ 0 < evidence.total := by
  have hreach : ring.Reachable := (Store.Reachable.empty 0).runAll _
  have ha : ring.IsLivePoint ⟨0, 0⟩ := ⟨_, rfl, rfl, rfl⟩
  have hb : ring.IsLivePoint ⟨0, 1⟩ := ⟨_, rfl, rfl, rfl⟩
  have hfinite : (1 : Float).isFinite = true := by decide
  obtain ⟨evidence, t, hinfer, _, _, _, _, _, hfull, hchain, _⟩ :=
    inferTruth_full_iff hreach (by decide +kernel) ha hb hfinite (by decide)
  have hstep : ring.Follows .intension ⟨0, 0⟩ ⟨0, 1⟩ :=
    ⟨ha.isLive, ⟨0, 2⟩, _, rfl, rfl, rfl, rfl⟩
  exact ⟨evidence, hinfer, hfull.mpr (hchain.mpr (.single hstep))⟩

end CellComplex
