import Mathlib.Data.Prod.Lex
import Mathlib.Order.Compare
import CellComplex.Proofs.Evidence.Resolution
import CellComplex.Proofs.Rewrite.Transaction

/-!
# Which duplicate is chosen

Choice keeps one of two duplicates and is asked again until one is left. Which one that is can be
told without the rounds: go through the duplicates, oldest first, and change over only to a more
confident one.

* `rank`, **`lt_iff_rank`**: floats that are numbers stand in a line, as their comparison says;
* `Store.confidence`, `Store.preferred`: the confidence of an edge, and the preferred one of two;
* `Store.IsFirstBest`, **`isFirstBest_foldl`**: going through numbers ends at the first of the
  highest;
* **`choice_step`**: a round drops one of the first two, and the other one comes first;
* **`resolveFrom_choice`**: all rounds, by induction on the candidates;
* **`queryResolving_choice`**: what is left, and what is said.
-/

namespace CellComplex

/-! ## 1. Floats in a line -/

section Rank

open Float.Model (UnpackedFloat)

/-- Where a float stands: below all others minus infinity, then the negative ones, zero of either
sign, the positive ones and infinity. Of two with one sign the exponent decides, then the
mantissa. -/
def rankOf : UnpackedFloat → ℤ ×ₗ ℤ ×ₗ ℤ
  | .infinity .negative => toLex (-2, toLex (0, 0))
  | .finite .negative m e _ => toLex (-1, toLex (-e, -m))
  | .zero _ => toLex (0, toLex (0, 0))
  | .finite .positive m e _ => toLex (1, toLex (e, m))
  | .infinity .positive => toLex (2, toLex (0, 0))
  | .notANumber => toLex (3, toLex (0, 0))

/-- The place of a float. -/
def rank (a : Float) : ℤ ×ₗ ℤ ×ₗ ℤ := rankOf a.toModel.unpack

theorem compare_natCast (m n : ℕ) : compare (m : ℤ) n = compare m n := by
  rw [← cmp_eq_compare, ← cmp_eq_compare]
  exact StrictMono.cmp_map_eq (fun _ _ h => Int.ofNat_lt.mpr h) m n

theorem compare_neg (a b : ℤ) : compare (-a) (-b) = (compare a b).swap := by
  rw [Int.compare_swap, ← cmp_eq_compare, ← cmp_eq_compare]
  exact StrictAnti.cmp_map_eq (fun _ _ h => Int.neg_lt_neg h) a b

/-- Of two floats with one sign the exponent decides, then the mantissa. -/
theorem compare_place (sign e m e' m' : ℤ) :
    compare (toLex (sign, toLex (e, m)) : ℤ ×ₗ ℤ ×ₗ ℤ) (toLex (sign, toLex (e', m'))) =
      (compare e e').then (compare m m') := by
  simp [Prod.Lex.compare_def, compareLex, compareOn]

/-- **Numbers compare as their places do.** -/
theorem compare_eq_rankOf {u v : UnpackedFloat} (hu : u.isNaN = false) (hv : v.isNaN = false) :
    u.compare v = some (compare (rankOf u) (rankOf v)) := by
  rcases u with ⟨_ | _⟩ | _ | ⟨_⟩ | ⟨_ | _, m, e, _⟩
  case notANumber => cases hu
  all_goals
    rcases v with ⟨_ | _⟩ | _ | ⟨_⟩ | ⟨_ | _, m', e', _⟩
    case notANumber => cases hv
  -- all but two finite floats with one sign are told apart by the first component
  any_goals rfl
  case finite.negative.finite.negative =>
    have hplace := compare_place (-1) (-e) (-m) (-e') (-m')
    rw [compare_neg, compare_neg, compare_natCast, ← Ordering.swap_then] at hplace
    exact congrArg some hplace.symm
  case finite.positive.finite.positive =>
    have hplace := compare_place 1 e m e' m'
    rw [compare_natCast] at hplace
    exact congrArg some hplace.symm

variable {a b : Float} (ha : a.isNaN = false) (hb : b.isNaN = false)
include ha hb

theorem lt_iff_rank : a < b ↔ rank a < rank b := by
  show decide (a.toModel.unpack.lt b.toModel.unpack = true) = true ↔ _
  rw [decide_eq_true_eq, UnpackedFloat.lt, compare_eq_rankOf ha hb, beq_iff_eq, Option.some_inj,
    compare_lt_iff_lt]
  rfl

theorem le_iff_rank : a ≤ b ↔ rank a ≤ rank b := by
  show decide (a.toModel.unpack.le b.toModel.unpack = true) = true ↔ _
  rw [decide_eq_true_eq, UnpackedFloat.le, compare_eq_rankOf ha hb, Option.any_some,
    Ordering.isLE_iff_ne_gt]
  exact compare_le_iff_le

end Rank

namespace Store

variable {s t : Store} {first second id best : CellId} {rest edges : List CellId}

/-! ## 2. The first of the most confident -/

/-- The confidence of an edge that has a truth value. -/
def confidence (s : Store) (id : CellId) : Float :=
  match (s.find? id).bind fun c => Embedding.truth? c.embedding with
  | some t => t.confidence
  | none => 0

theorem confidence_eq {c : Cell} {v : Truth Float} (hc : s.find? id = some c)
    (hv : Embedding.truth? c.embedding = some v) : s.confidence id = v.confidence := by
  unfold confidence
  rw [hc, Option.bind_some, hv]

/-- The more confident of two edges; of equals, the first. -/
def preferred (s : Store) (current next : CellId) : CellId :=
  if s.confidence current < s.confidence next then next else current

/-- **The first of the most confident edges**: those before it are less confident, and none of those
behind it is more confident. -/
def IsFirstBest (s : Store) (edges : List CellId) (best : CellId) : Prop :=
  ∃ earlier later, edges = earlier ++ best :: later ∧
    (∀ z ∈ earlier, s.confidence z < s.confidence best) ∧
    ∀ z ∈ later, s.confidence z ≤ s.confidence best

/-- What was preferred is one of the edges. -/
theorem foldl_preferred_mem : rest.foldl s.preferred first ∈ first :: rest := by
  induction rest generalizing first with
  | nil => exact List.mem_cons_self
  | cons next rest ih =>
    rw [List.foldl_cons]
    have hkept : s.preferred first next = first ∨ s.preferred first next = next := by
      unfold preferred
      split
      · exact Or.inr rfl
      · exact Or.inl rfl
    have hmem : rest.foldl s.preferred (s.preferred first next) ∈ s.preferred first next :: rest :=
      ih
    rcases List.mem_cons.mp hmem with hhead | htail
    · rw [hhead]
      rcases hkept with h | h <;> simp [h]
    · exact List.mem_cons_of_mem _ (List.mem_cons_of_mem _ htail)

section Numbers

/-- One more edge. -/
theorem IsFirstBest.snoc {next : CellId} (h : s.IsFirstBest edges best)
    (hnumbers : ∀ z ∈ edges ++ [next], (s.confidence z).isNaN = false) :
    s.IsFirstBest (edges ++ [next]) (s.preferred best next) := by
  obtain ⟨earlier, later, rfl, hearlier, hlater⟩ := h
  have hnumber : ∀ z, z ∈ earlier ∨ z = best ∨ z ∈ later ∨ z = next →
      (s.confidence z).isNaN = false := fun z hz => hnumbers z (by simpa [or_assoc] using hz)
  have hbest := hnumber best (by simp)
  have hnext := hnumber next (by simp)
  unfold preferred
  by_cases hless : s.confidence best < s.confidence next
  · rw [if_pos hless]
    have hup := (lt_iff_rank hbest hnext).mp hless
    refine ⟨earlier ++ best :: later, [], rfl, fun z hz => ?_, by simp⟩
    rcases List.mem_append.mp hz with hz | hz
    · have hnum := hnumber z (Or.inl hz)
      have hlow := (lt_iff_rank hnum hbest).mp (hearlier z hz)
      exact (lt_iff_rank hnum hnext).mpr (hlow.trans hup)
    · rcases List.mem_cons.mp hz with rfl | hz
      · exact hless
      · have hnum := hnumber z (Or.inr (Or.inr (Or.inl hz)))
        have hlow := (le_iff_rank hnum hbest).mp (hlater z hz)
        exact (lt_iff_rank hnum hnext).mpr (hlow.trans_lt hup)
  · rw [if_neg hless]
    refine ⟨earlier, later ++ [next], by simp, hearlier, fun z hz => ?_⟩
    rcases List.mem_append.mp hz with hz | hz
    · exact hlater z hz
    · cases List.mem_singleton.mp hz
      rw [lt_iff_rank hbest hnext] at hless
      exact (le_iff_rank hnext hbest).mpr (not_lt.mp hless)

/-- **Going through numbers ends at the first of the highest.** -/
theorem isFirstBest_foldl (hnumbers : ∀ z ∈ first :: rest, (s.confidence z).isNaN = false) :
    s.IsFirstBest (first :: rest) (rest.foldl s.preferred first) := by
  have go : ∀ rest done current, s.IsFirstBest done current →
      (∀ z ∈ done ++ rest, (s.confidence z).isNaN = false) →
      s.IsFirstBest (done ++ rest) (rest.foldl s.preferred current) := by
    intro rest
    induction rest with
    | nil =>
      intro done current h _
      rwa [List.append_nil]
    | cons next rest ih =>
      intro done current h hnumbers
      rw [List.append_cons] at hnumbers ⊢
      exact ih _ _ (h.snoc fun z hz => hnumbers z (List.mem_append_left _ hz)) hnumbers
  have hstart : s.IsFirstBest [first] first := ⟨[], [], rfl, by simp, by simp⟩
  exact go rest [first] first hstart hnumbers

end Numbers

/-- Deleting leaves confidences as they are. -/
theorem Marks.confidence {ids : List CellId} (h : Marks ids s t) :
    t.confidence = s.confidence := by
  funext z
  have hsame : (t.find? z).bind (fun c => Embedding.truth? c.embedding) =
      (s.find? z).bind fun c => Embedding.truth? c.embedding := by
    rw [h.find]
    split
    · rw [Option.bind_map]
      rfl
    · rfl
  unfold Store.confidence
  rw [hsame]

theorem Marks.preferred {ids : List CellId} (h : Marks ids s t) : t.preferred = s.preferred := by
  funext current next
  unfold Store.preferred
  rw [h.confidence]

/-- In which order cells are marked does not matter. -/
theorem Marks.perm {ids ids' : List CellId} (h : Marks ids s t) (hperm : ids.Perm ids') :
    Marks ids' s t := by
  refine ⟨fun x => ?_, h.atoms, h.expansions⟩
  rw [h.find]
  simp only [hperm.mem_iff]

end Store

namespace Space

open Edit Store

variable {ρ : Type} {s : Store} {label : String} {x y first second : CellId}
variable {rest edges : List CellId}

/-! ## 3. One round -/

/-- **A round drops one of the first two**, and the preferred one comes first. -/
theorem choice_step (hedges : Listed label x y s (first :: second :: rest))
    (htruth : ∀ z ∈ first :: second :: rest, s.HasTruth z) :
    ∃ dropped, (choice first second).apply (ofStore s) =
        (.ok (s.preferred first second), ofStore (s.deleteAt dropped.index)) ∧
      (first :: second :: rest).Perm (dropped :: s.preferred first second :: rest) ∧
      (s.preferred first second :: rest).Sublist (first :: second :: rest) := by
  have hfirst : first ∈ first :: second :: rest := List.mem_cons_self
  have hsecond : second ∈ first :: second :: rest := List.mem_cons_of_mem _ List.mem_cons_self
  have hne : first ≠ second := by
    have hnodup := hedges.nodup
    rintro rfl
    simp at hnodup
  obtain ⟨a, ta, ha, hta⟩ := htruth first hfirst
  obtain ⟨b, tb, hb, htb⟩ := htruth second hsecond
  obtain ⟨a', ha', hsa⟩ := (hedges.mem_iff first).mp hfirst
  obtain ⟨b', hb', hsb⟩ := (hedges.mem_iff second).mp hsecond
  cases ha.symm.trans ha'
  cases hb.symm.trans hb'
  have hpair := duplicatePair_truths ha hb hsa hsb hne hta htb
  rw [apply_choice_ok hedges.toAnsweredBy hfirst hsecond hpair]
  unfold preferred
  rw [confidence_eq ha hta, confidence_eq hb htb]
  by_cases hless : ta.confidence < tb.confidence
  · simp only [if_pos hless]
    exact ⟨first, rfl, .refl _, List.sublist_cons_self _ _⟩
  · simp only [if_neg hless]
    exact ⟨second, rfl, .swap _ _ _, (List.sublist_cons_self _ _).cons_cons _⟩

/-- What a round leaves can be asked again. -/
theorem choice_next {dropped kept : CellId} (hs : s.Reachable) (hx : s.IsLivePoint x)
    (hy : s.IsLivePoint y) (hedges : Listed label x y s edges)
    (htruth : ∀ z ∈ edges, s.HasTruth z)
    (happly : (choice first second).apply (ofStore s) =
      (.ok kept, ofStore (s.deleteAt dropped.index)))
    (hperm : edges.Perm (dropped :: rest)) (hsublist : rest.Sublist edges) :
    (s.deleteAt dropped.index).Reachable ∧ Listed label x y (s.deleteAt dropped.index) rest ∧
      (∀ z ∈ rest, (s.deleteAt dropped.index).HasTruth z) ∧
      (s.deleteAt dropped.index).IsLivePoint x ∧ (s.deleteAt dropped.index).IsLivePoint y ∧
      s.Marks [dropped] (s.deleteAt dropped.index) := by
  have hdropped : dropped ∈ edges := hperm.mem_iff.mpr List.mem_cons_self
  obtain ⟨c, hc, _⟩ := (hedges.mem_iff dropped).mp hdropped
  have hround := round_delete hedges.toAnsweredBy hdropped
  have hrest : (edges.erase dropped).Perm rest := by
    have herase := hperm.erase dropped
    rwa [List.erase_cons_head] at herase
  refine ⟨hs.of_edit (.choice first second) rfl happly, ⟨⟨hedges.nodup.sublist hsublist,
    fun id => hrest.mem_iff.symm.trans (hround.settles.stop.mem_iff id)⟩,
    hedges.ascending.sublist hsublist⟩, fun z hz => ?_, hround.settles.isLivePoint hx,
    hround.settles.isLivePoint hy, marks_deleteAt hc⟩
  exact hround.hasTruth htruth z (hrest.mem_iff.mpr hz)

/-! ## 4. All rounds -/

/-- **One of the answers was chosen**: the others are deleted, and nothing else is changed. -/
structure Chosen (label : String) (x y : CellId) (s : Store) (edges : List CellId) (best : CellId)
    (t : Store) : Prop where
  answers : ∀ id, t.Answers label x y id ↔ id = best
  marks : s.Marks (edges.erase best) t
  size_eq : t.size = s.size
  fresh : t.isStale = false

/-- A round before the others. -/
theorem Chosen.after {t u : Store} {best dropped : CellId} (h : Chosen label x y t rest best u)
    (hmarks : s.Marks [dropped] t) (hsize : t.size = s.size)
    (hperm : edges.Perm (dropped :: rest)) (hbest : best ≠ dropped) :
    Chosen label x y s edges best u where
  answers := h.answers
  marks := by
    have herase : (edges.erase best).Perm (dropped :: rest.erase best) := by
      have h := hperm.erase best
      rwa [List.erase_cons_tail (by simpa using hbest.symm)] at h
    exact (hmarks.cons h.marks).perm herase.symm
  size_eq := h.size_eq.trans hsize
  fresh := h.fresh

/-- **All rounds**, by induction on the candidates. -/
theorem resolveFrom_choice (own : ρ) :
    ∀ (rest : List CellId) (first : CellId) (s : Store) (before : Option Nat), s.Reachable →
      s.isStale = false → s.IsLivePoint x → s.IsLivePoint y →
      Listed label x y s (first :: rest) → (∀ z ∈ first :: rest, s.HasTruth z) →
      (∀ m, before = some m → (first :: rest).length < m) →
      ∃ c t, s.find? (rest.foldl s.preferred first) = some c ∧
        resolveFrom .choice label x y before (ofStore s, own) =
          (.ok c.embedding, ofStore t, own) ∧
        Chosen label x y s (first :: rest) (rest.foldl s.preferred first) t := by
  intro rest
  induction rest with
  | nil =>
    intro first s before hs hfresh hx hy hedges htruth hbefore
    obtain ⟨e, c, hone, hc, hquery⟩ := exists_answer hs hfresh hx hedges.toAnsweredBy hy rfl
    cases hone
    refine ⟨c, s, hc, resolveFrom_answer _ hquery, ?_, ?_, rfl, hfresh⟩
    · exact fun id => (hedges.mem_iff id).symm.trans List.mem_singleton
    · rw [List.foldl_nil, List.erase_cons_head]
      exact marks_nil s
  | cons second rest ih =>
    intro first s before hs hfresh hx hy hedges htruth hbefore
    obtain ⟨dropped, happly, hperm, hsublist⟩ := choice_step hedges htruth
    obtain ⟨ht, hlisted, htruth', hx', hy', hmarks⟩ :=
      choice_next hs hx hy hedges htruth happly hperm hsublist
    let next : Store := (s.deleteAt dropped.index).buildIndex (s.deleteAt dropped.index).lookup
    have hmarks' : s.Marks [dropped] next := ⟨hmarks.find, hmarks.atoms, hmarks.expansions⟩
    have hlisted' : Listed label x y next (s.preferred first second :: rest) :=
      ⟨⟨hlisted.nodup, hlisted.mem_iff⟩, hlisted.ascending⟩
    obtain ⟨c, t, hc, hrun, hchosen⟩ := ih (s.preferred first second) next
      (some (first :: second :: rest).length) ht.buildIndex isStale_buildIndex hx' hy' hlisted'
      htruth' fun m hm => by cases hm; exact Nat.lt_succ_self _
    rw [hmarks'.preferred] at hc hchosen
    have hbest : rest.foldl s.preferred (s.preferred first second) ≠ dropped := by
      have hnodup : (dropped :: s.preferred first second :: rest).Nodup :=
        hperm.nodup_iff.mp hedges.nodup
      exact fun h => (List.nodup_cons.mp hnodup).1 (h ▸ foldl_preferred_mem)
    rw [hmarks'.find, if_neg (by simpa using hbest)] at hc
    refine ⟨c, t, hc, ?_, hchosen.after hmarks' size_modifyAt hperm hbest⟩
    -- the run: the question is ambiguous, choice drops one, and the rest is the run from there
    obtain ⟨cx, hcx, _⟩ := hx.isLive
    obtain ⟨cy, hcy, _⟩ := hy.isLive
    have hcands := candidates_eq hs hfresh hx hedges
    have hquery : (ofStore s).query label x y = .error (.ambiguous label first second) :=
      query_of_more ((find?_ofStore s x).trans hcx) ((find?_ofStore s y).trans hcy) hcands
    have hgoes : stalled before ((ofStore s).candidates label x y).length = false := by
      rw [hcands]
      cases before with
      | none => rfl
      | some m => simpa [stalled] using hbefore m rfl
    have hpolicy : Policy.choice first second (ofStore s, own) =
        (.ok (s.preferred first second), ofStore (s.deleteAt dropped.index), own) := by
      simp [Policy.choice, Policy.ofEdit, happly]
    rw [resolveFrom_ambiguous (ofStore s, own) hquery hgoes, hpolicy, hcands]
    simp only [apply_buildIndex]
    exact hrun

end Space

/-! ## 5. Queries -/

/-- **Choice keeps the first of the most confident duplicates.** In a reachable store with a fresh
index, let the live edges that say "x label y" be `first` and the `rest`, oldest first, and all with
truth values. Then the query that lets choice resolve them succeeds. What is left is the edge at which
one arrives who goes through them in this order and changes over only to a more confident one: it
alone says "x label y" afterwards and is as it was, its payload is the evidence, the others are
deleted, no cell is made, and nothing else is changed. If all confidences are numbers, it is the
first of the most confident ones. -/
theorem queryResolving_choice {ρ : Type} {s : Store} (hs : s.Reachable)
    (hfresh : s.isStale = false) {label : String} {x y : CellId} (hx : s.IsLivePoint x)
    (hy : s.IsLivePoint y) {first : CellId} {rest : List CellId}
    (hascending : (first :: rest).Pairwise fun a b => a.index < b.index)
    (hedges : ∀ id, id ∈ first :: rest ↔ s.Answers label x y id)
    (htruth : ∀ id ∈ first :: rest, s.HasTruth id) (own : ρ) :
    ∃ (best : CellId) (c : Cell) (t : Store),
      best = rest.foldl (fun current next =>
        if s.confidence current < s.confidence next then next else current) first ∧
      Space.queryResolving .choice label x y (.ofStore s, own) =
        (.ok c.embedding, .ofStore t, own) ∧
      s.find? best = some c ∧ t.find? best = some c ∧
      (∀ id, t.Answers label x y id ↔ id = best) ∧
      s.Marks ((first :: rest).erase best) t ∧ t.size = s.size ∧ t.isStale = false ∧
      ((∀ id ∈ first :: rest, (s.confidence id).isNaN = false) →
        s.IsFirstBest (first :: rest) best) := by
  have hnodup : (first :: rest).Nodup := hascending.imp fun hlt hsame => by
    subst hsame
    exact Nat.lt_irrefl _ hlt
  obtain ⟨c, t, hc, hrun, hchosen⟩ := Space.resolveFrom_choice own rest first s none hs hfresh hx hy
    ⟨⟨hnodup, hedges⟩, hascending⟩ htruth fun m hm => by cases hm
  refine ⟨_, c, t, rfl, hrun, hc, ?_, hchosen.answers, hchosen.marks, hchosen.size_eq,
    hchosen.fresh, Store.isFirstBest_foldl⟩
  refine (hchosen.marks.find _).trans ((if_neg fun hmem => ?_).trans hc)
  exact (hnodup.mem_erase_iff.mp hmem).1 rfl

/-- Three edges from one point to another, of which the last two are equally confident. -/
def tiedEdges : Store :=
  runAll (.empty 0) [.create "a" [], .create "b" [], .create "is" [⟨0, 0⟩, ⟨0, 1⟩],
    .create "is" [⟨0, 0⟩, ⟨0, 1⟩], .create "is" [⟨0, 0⟩, ⟨0, 1⟩], .setEmbedding ⟨0, 2⟩ [1, 0.5],
    .setEmbedding ⟨0, 3⟩ [0.5, 0.9], .setEmbedding ⟨0, 4⟩ [0, 0.9], .buildIndex]

/-- Of the two that are equally confident the older one is kept. -/
theorem queryResolving_choice_tiedEdges :
    ∃ t, Space.queryResolving .choice "is" ⟨0, 0⟩ ⟨0, 1⟩ (.ofStore tiedEdges, ()) =
        (.ok [0.5, 0.9], .ofStore t, ()) ∧
      (∀ id, t.Answers "is" ⟨0, 0⟩ ⟨0, 1⟩ id ↔ id = ⟨0, 3⟩) ∧ t.size = 5 := by
  have hreach : tiedEdges.Reachable := (Store.Reachable.empty 0).runAll _
  have hfresh : tiedEdges.isStale = false := by decide +kernel
  have hx : tiedEdges.IsLivePoint ⟨0, 0⟩ := ⟨_, rfl, rfl, rfl⟩
  have hy : tiedEdges.IsLivePoint ⟨0, 1⟩ := ⟨_, rfl, rfl, rfl⟩
  have hcands : (Space.ofStore tiedEdges).candidates "is" ⟨0, 0⟩ ⟨0, 1⟩ =
      [⟨0, 2⟩, ⟨0, 3⟩, ⟨0, 4⟩] := by decide +kernel
  have hedges : tiedEdges.AnsweredBy "is" ⟨0, 0⟩ ⟨0, 1⟩ [⟨0, 2⟩, ⟨0, 3⟩, ⟨0, 4⟩] :=
    hcands ▸ hreach.answeredBy_candidates hfresh hx.isLive
  have htruth : ∀ id ∈ [⟨0, 2⟩, ⟨0, 3⟩, ⟨0, 4⟩], tiedEdges.HasTruth id := by
    simp only [List.forall_mem_cons]
    exact ⟨⟨_, _, rfl, rfl⟩, ⟨_, _, rfl, rfl⟩, ⟨_, _, rfl, rfl⟩, by simp⟩
  obtain ⟨best, c, t, hbest, hrun, hc, _, hanswers, _, hsize, _⟩ :=
    queryResolving_choice hreach hfresh hx hy (by decide) hedges.mem_iff htruth ()
  have hwinner : best = ⟨0, 3⟩ := hbest.trans (by decide +kernel)
  subst hwinner
  have hpayload : c.embedding = [0.5, 0.9] := by
    cases hc
    rfl
  exact ⟨t, hpayload ▸ hrun, hanswers, hsize.trans (by decide +kernel)⟩

end CellComplex
