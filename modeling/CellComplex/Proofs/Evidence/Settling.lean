import CellComplex.Proofs.Evidence.Query
import CellComplex.Proofs.Space.Apply

/-!
# Answers that come and go

One of two duplicates is made by putting a new edge in the place of both, or by deleting one. Told
by the answers of the question alone, either takes one of them away.

* `Store.Settles`: from one store to a later one only answers came and went, and as many live cells
  are lost as answers;
* `settles_enter`, `settles_delete`: the two ways answers change; `Settles.trans`: one after the
  other;
* `Space.Duplicates`: what is asked of a pair; `duplicatePair_eq_ok`: nothing else is;
* `Space.duplicatePair_untrue`, `Space.duplicatePair_true`: where a truth value is missing nothing
  is changed, else the answers are a pair that can be resolved;
* **`Space.revision_round`**, **`Space.choice_round`**: else one answer is less, and the others keep
  their truth values.
-/

namespace CellComplex

namespace Store

variable {s t u : Store} {label : String} {x y id z : CellId} {c : Cell}
variable {before mid after edges : List CellId}

/-! ## 1. Answers that come and go -/

/-- The payload of the cell is a truth value. -/
def HasTruth (s : Store) (id : CellId) : Prop :=
  ∃ c t, s.find? id = some c ∧ Embedding.truth? c.embedding = some t

/-- **From `s` to `t` only answers came and went**: `before` answered in `s`, `after` answers in
`t`. -/
structure Settles (label : String) (x y : CellId) (s : Store) (before : List CellId) (t : Store)
    (after : List CellId) : Prop where
  start : s.AnsweredBy label x y before
  stop : t.AnsweredBy label x y after
  liveCount : t.liveCount + before.length = s.liveCount + after.length
  /-- A cell that was no answer is as it was. -/
  kept : ∀ id c, s.find? id = some c → id ∉ before → t.find? id = some c
  /-- A live cell that is no answer was there. -/
  back : ∀ id c, t.find? id = some c → c.isLive = true → id ∉ after → s.find? id = some c

theorem Settles.refl (h : s.AnsweredBy label x y edges) : Settles label x y s edges s edges where
  start := h
  stop := h
  liveCount := rfl
  kept _ _ hc _ := hc
  back _ _ hc _ _ := hc

theorem Settles.trans (h : Settles label x y s before t mid)
    (h' : Settles label x y t mid u after) : Settles label x y s before u after where
  start := h.start
  stop := h'.stop
  liveCount := by
    have hcount := h.liveCount
    have hcount' := h'.liveCount
    omega
  kept id c hc hid := by
    have ht : t.find? id = some c := h.kept id c hc hid
    -- an answer in between would have answered from the start
    have hmid : id ∉ mid := fun hmem => hid <| by
      obtain ⟨d, hd, hsay⟩ := (h.stop.mem_iff id).mp hmem
      cases ht.symm.trans hd
      exact (h.start.mem_iff id).mpr ⟨c, hc, hsay⟩
    exact h'.kept id c ht hmid
  back id c hc hlive hid := by
    have ht : t.find? id = some c := h'.back id c hc hlive hid
    have hmid : id ∉ mid := fun hmem => hid <| by
      obtain ⟨d, hd, hsay⟩ := (h.stop.mem_iff id).mp hmem
      cases ht.symm.trans hd
      exact (h'.stop.mem_iff id).mpr ⟨c, hc, hsay⟩
    exact h.back id c ht hlive hmid

/-- Points are no answers. -/
theorem Settles.find?_point (h : Settles label x y s before t after) (hc : s.find? z = some c)
    (hpoint : c.dimension = 0) : t.find? z = some c := by
  refine h.kept z c hc fun hmem => ?_
  obtain ⟨d, hd, hsay⟩ := (h.start.mem_iff z).mp hmem
  cases hc.symm.trans hd
  rw [hsay.dimension] at hpoint
  cases hpoint

theorem Settles.isLivePoint (h : Settles label x y s before t after) (hz : s.IsLivePoint z) :
    t.IsLivePoint z := by
  obtain ⟨c, hc, hdim, hlive⟩ := hz
  exact ⟨c, h.find?_point hc hdim, hdim, hlive⟩

theorem answers_congr (h : t.find? z = s.find? z) :
    t.Answers label x y z ↔ s.Answers label x y z := by
  unfold Answers
  rw [h]

theorem Answers.isLive (h : s.Answers label x y id) :
    ∃ c, s.find? id = some c ∧ c.isLive = true := by
  obtain ⟨c, hc, hsay⟩ := h
  exact ⟨c, hc, hsay.isLive⟩

/-! ### A new answer -/

/-- A new cell with a payload. -/
def enter (s : Store) (c : Cell) (embedding : Embedding) : Store :=
  (s.push c).modifyAt c.id.index ({ · with embedding })

theorem find?_enter (hid : c.id = s.nextId 0) {embedding : Embedding} :
    (s.enter c embedding).find? z = if z = c.id then some { c with embedding } else s.find? z := by
  have hnew : (s.push c).find? c.id = some c := find?_push_new hid
  unfold enter
  rw [find?_modifyAt_owned (owns_iff.mpr ⟨c, hnew⟩)]
  split
  · next e => rw [e, hnew]; rfl
  · next e => rw [find?_push_old hid e]

theorem liveCount_enter (hid : c.id = s.nextId 0) (hlive : c.isLive = true)
    {embedding : Embedding} : (s.enter c embedding).liveCount = s.liveCount + 1 := by
  have hcount := liveCount_modifyAt (f := ({ · with embedding })) (find?_push_new hid)
  have hsame : ({ c with embedding } : Cell).isLive = true := hlive
  rw [liveCount_push, if_pos hlive, if_pos hsame] at hcount
  unfold enter
  omega

theorem settles_enter (h : s.AnsweredBy label x y edges) (hid : c.id = s.nextId 0)
    (hsay : c.Says label x y) (embedding : Embedding) :
    Settles label x y s edges (s.enter c embedding) (edges ++ [c.id]) := by
  have hfresh : s.find? c.id = none := by rw [hid]; exact find?_nextId 0
  have hnot : c.id ∉ edges := fun hmem => by
    obtain ⟨d, hd, _⟩ := (h.mem_iff c.id).mp hmem
    rw [hfresh] at hd
    cases hd
  have hold : ∀ {z}, z ≠ c.id → (s.enter c embedding).find? z = s.find? z :=
    fun hne => (find?_enter hid).trans (if_neg hne)
  have hnew : (s.enter c embedding).Answers label x y c.id :=
    ⟨_, (find?_enter hid).trans (if_pos rfl), hsay.isLive, hsay.dimension, hsay.label_eq,
      hsay.boundary⟩
  refine ⟨h, ⟨?_, fun z => ?_⟩, ?_, fun z d hd _ => ?_, fun z d hd _ hz => ?_⟩
  · simpa [List.nodup_append] using ⟨h.nodup, fun a ha => ne_of_mem_of_not_mem ha hnot⟩
  · rw [List.mem_append, List.mem_singleton]
    by_cases hz : z = c.id
    · exact iff_of_true (Or.inr hz) (hz ▸ hnew)
    · rw [answers_congr (hold hz), h.mem_iff]
      exact or_iff_left hz
  · have hcount : (s.enter c embedding).liveCount = s.liveCount + 1 :=
      liveCount_enter hid hsay.isLive
    simp only [List.length_append, List.length_singleton]
    omega
  · have hz : z ≠ c.id := by
      rintro rfl
      rw [hfresh] at hd
      cases hd
    rw [hold hz, hd]
  · have hz' : z ≠ c.id := fun e => hz (by simp [e])
    rw [← hold hz', hd]

/-! ### An answer less -/

theorem find?_deleteAt (hid : s.owns id = true) :
    (s.deleteAt id.index).find? z =
      if z = id then (s.find? z).map ({ · with deleted := true }) else s.find? z := by
  show (s.modifyAt id.index ({ · with deleted := true })).find? z = _
  exact find?_modifyAt_owned hid

theorem settles_delete (h : s.AnsweredBy label x y edges) (hid : id ∈ edges) :
    Settles label x y s edges (s.deleteAt id.index) (edges.erase id) := by
  obtain ⟨c, hc, hsay⟩ := (h.mem_iff id).mp hid
  have hfind : ∀ z, (s.deleteAt id.index).find? z =
      if z = id then (s.find? z).map ({ · with deleted := true }) else s.find? z :=
    fun z => find?_deleteAt (owns_iff.mpr ⟨c, hc⟩)
  have hdead : ∀ {d}, (s.deleteAt id.index).find? id = some d → ¬ d.isLive = true := by
    intro d hd hlive
    rw [hfind, if_pos rfl, hc] at hd
    cases hd
    cases hlive
  have hold : ∀ {z}, z ≠ id → (s.deleteAt id.index).find? z = s.find? z :=
    fun hne => (hfind _).trans (if_neg hne)
  refine ⟨h, ⟨h.nodup.erase id, fun z => ?_⟩, ?_, fun z d hd hz => ?_, fun z d hd hlive hz => ?_⟩
  · rw [h.nodup.mem_erase_iff]
    by_cases hz : z = id
    · refine iff_of_false (fun h' => h'.1 hz) fun h' => ?_
      obtain ⟨d, hd, hlive⟩ := h'.isLive
      exact hdead (hz ▸ hd) hlive
    · rw [answers_congr (hold hz), h.mem_iff]
      exact and_iff_right hz
  · have hcount := liveCount_deleteAt hc hsay.isLive
    have hlen := List.length_erase_of_mem hid
    have hpos := List.length_pos_of_mem hid
    omega
  · have hz' : z ≠ id := fun e => hz (e ▸ hid)
    rw [hold hz', hd]
  · have hz' : z ≠ id := by
      rintro rfl
      exact hdead hd hlive
    rw [← hold hz', hd]

/-- What is left of some truth values has one. -/
theorem hasTruth_delete (hid : s.owns id = true) (h : ∀ z ∈ edges, s.HasTruth z)
    (hnodup : edges.Nodup) : ∀ z ∈ edges.erase id, (s.deleteAt id.index).HasTruth z := by
  intro z hz
  obtain ⟨hne, hmem⟩ := hnodup.mem_erase_iff.mp hz
  obtain ⟨c, v, hc, hv⟩ := h z hmem
  exact ⟨c, v, by rw [find?_deleteAt hid, if_neg hne, hc], hv⟩

theorem hasTruth_enter (hid : c.id = s.nextId 0) (h : ∀ z ∈ edges, s.HasTruth z)
    (v : Truth Float) : ∀ z ∈ edges ++ [c.id], (s.enter c (.ofTruth v)).HasTruth z := by
  intro z hz
  unfold HasTruth
  rw [find?_enter hid]
  split
  · exact ⟨_, v, rfl, Embedding.truth?_ofTruth v⟩
  · next hne =>
    have hmem : z ∈ edges := by simpa [hne] using hz
    exact h z hmem

end Store

/-! ## 2. Pairs and rounds -/

namespace Space

open Edit Store

variable {sp : Space} {s : Store} {label : String} {x y first second : CellId} {edges : List CellId}
variable {a b : Cell} {v w ta tb : Truth Float}

theorem truthOf_eq_ok {c : Cell} {v : Truth Float} :
    truthOf c = .ok v ↔ Embedding.truth? c.embedding = some v := by
  unfold truthOf
  cases Embedding.truth? c.embedding <;> simp

/-- **Two different live edges with one label over one ordered pair**, each with a truth value. -/
structure Duplicates (sp : Space) (first second : CellId) (a b : Cell) (v w : Truth Float) :
    Prop where
  ne : first ≠ second
  find_first : sp.find? first = some a
  find_second : sp.find? second = some b
  isEdge_first : a.isEdge = true
  isEdge_second : b.isEdge = true
  label_eq : a.label = b.label
  boundary_eq : a.boundary = b.boundary
  truth_first : a.embedding = .ofTruth v
  truth_second : b.embedding = .ofTruth w

theorem Duplicates.symm (h : sp.Duplicates first second a b v w) :
    sp.Duplicates second first b a w v :=
  ⟨h.ne.symm, h.find_second, h.find_first, h.isEdge_second, h.isEdge_first, h.label_eq.symm,
    h.boundary_eq.symm, h.truth_second, h.truth_first⟩

/-- **A pair is resolved exactly if it is a pair of duplicates.** -/
theorem duplicatePair_eq_ok :
    sp.duplicatePair first second = .ok (a, v, w) ↔ ∃ b, sp.Duplicates first second a b v w := by
  unfold duplicatePair
  simp only [Outcome.bind_eq_ok, resolve_eq_ok]
  constructor
  · intro h
    obtain ⟨a', ha, b, hb, h⟩ := h
    split at h
    · cases h
    · next hlawful =>
      obtain ⟨hne, hdup⟩ : first ≠ second ∧ areDuplicates a' b = true := by simpa using hlawful
      obtain ⟨hedge, hedge', hlabel, hboundary⟩ := areDuplicates_iff.mp hdup
      obtain ⟨v', hv, h⟩ := Outcome.bind_eq_ok.mp h
      obtain ⟨w', hw, h⟩ := Outcome.bind_eq_ok.mp h
      cases h
      exact ⟨b, hne, ha, hb, hedge, hedge', hlabel, hboundary,
        Embedding.truth?_eq_some.mp (truthOf_eq_ok.mp hv),
        Embedding.truth?_eq_some.mp (truthOf_eq_ok.mp hw)⟩
  · intro h
    obtain ⟨b, h⟩ := h
    have hdup : areDuplicates a b = true :=
      areDuplicates_iff.mpr ⟨h.isEdge_first, h.isEdge_second, h.label_eq, h.boundary_eq⟩
    have hv : truthOf a = .ok v := truthOf_eq_ok.mpr (Embedding.truth?_eq_some.mpr h.truth_first)
    have hw : truthOf b = .ok w := truthOf_eq_ok.mpr (Embedding.truth?_eq_some.mpr h.truth_second)
    refine ⟨a, h.find_first, b, h.find_second, ?_⟩
    rw [if_neg (by simp [h.ne, hdup]), hv, hw]
    rfl

/-- **A missing truth value stops every policy** before anything is changed. -/
theorem duplicatePair_untrue (h : ¬ (s.HasTruth first ∧ s.HasTruth second)) :
    ∃ err, (ofStore s).duplicatePair first second = .error err := by
  cases hpair : (ofStore s).duplicatePair first second with
  | error err => exact ⟨err, rfl⟩
  | ok pair =>
    obtain ⟨a, v, w⟩ := pair
    obtain ⟨b, hdup⟩ := duplicatePair_eq_ok.mp hpair
    have hfirst : s.find? first = some a := (find?_ofStore s first).symm.trans hdup.find_first
    have hsecond : s.find? second = some b := (find?_ofStore s second).symm.trans hdup.find_second
    exact absurd ⟨⟨a, v, hfirst, Embedding.truth?_eq_some.mpr hdup.truth_first⟩,
      b, w, hsecond, Embedding.truth?_eq_some.mpr hdup.truth_second⟩ h

/-- With both truth values, two answers are a pair that can be resolved: ... -/
theorem duplicatePair_truths (ha : s.find? first = some a) (hb : s.find? second = some b)
    (hsa : a.Says label x y) (hsb : b.Says label x y) (hne : first ≠ second)
    (hta : Embedding.truth? a.embedding = some ta) (htb : Embedding.truth? b.embedding = some tb) :
    (ofStore s).duplicatePair first second = .ok (a, ta, tb) :=
  duplicatePair_eq_ok.mpr ⟨b, hne, (find?_ofStore s first).trans ha,
    (find?_ofStore s second).trans hb, hsa.isEdge, hsb.isEdge,
    hsa.label_eq.trans hsb.label_eq.symm, hsa.boundary.trans hsb.boundary.symm,
    Embedding.truth?_eq_some.mp hta, Embedding.truth?_eq_some.mp htb⟩

/-- ... the first of them, and the two truth values. -/
theorem duplicatePair_true (hedges : s.AnsweredBy label x y edges) (hfirst : first ∈ edges)
    (hsecond : second ∈ edges) (hne : first ≠ second)
    (h : s.HasTruth first ∧ s.HasTruth second) :
    ∃ a ta tb, (ofStore s).duplicatePair first second = .ok (a, ta, tb) ∧ a.Says label x y := by
  obtain ⟨⟨a, ta, ha, hta⟩, b, tb, hb, htb⟩ := h
  obtain ⟨a', ha', hsa⟩ := (hedges.mem_iff first).mp hfirst
  obtain ⟨b', hb', hsb⟩ := (hedges.mem_iff second).mp hsecond
  cases ha.symm.trans ha'
  cases hb.symm.trans hb'
  exact ⟨a, ta, tb, duplicatePair_truths ha hb hsa hsb hne hta htb, hsa⟩

/-- What a round of any policy can do to a store with some answers: one answer is less, and none
loses its truth value. -/
structure Round (label : String) (x y : CellId) (s : Store) (before : List CellId) (t : Store)
    (after : List CellId) : Prop where
  settles : Settles label x y s before t after
  length : after.length + 1 = before.length
  hasTruth : (∀ z ∈ before, s.HasTruth z) → ∀ z ∈ after, t.HasTruth z

/-- An answer that is deleted makes a round. -/
theorem round_delete (h : s.AnsweredBy label x y edges) (hfirst : first ∈ edges) :
    Round label x y s edges (s.deleteAt first.index) (edges.erase first) := by
  obtain ⟨c, hc, _⟩ := (h.mem_iff first).mp hfirst
  have hown : s.owns first = true := owns_iff.mpr ⟨c, hc⟩
  have hlen := List.length_erase_of_mem hfirst
  have hpos := List.length_pos_of_mem hfirst
  exact ⟨settles_delete h hfirst, by omega, fun htruth => hasTruth_delete hown htruth h.nodup⟩

theorem apply_delete_answer (h : s.AnsweredBy label x y edges) (hfirst : first ∈ edges) :
    (delete first).apply (ofStore s) = (.ok (), ofStore (s.deleteAt first.index)) := by
  obtain ⟨c, hc, hsay⟩ := (h.mem_iff first).mp hfirst
  exact apply_delete_live hc hsay.isLive

/-- **How a revision runs**: an edge is made of the ends of the first, takes the revised truth, and
both are deleted. -/
theorem apply_revision_ok {c : Cell} {t u : Store}
    (hpair : (ofStore s).duplicatePair first second = .ok (a, ta, tb))
    (hfirst : s.owns first = true) (hsecond : s.owns second = true)
    (hmake : Cell.make s.lookup (s.nextId 0) a.label a.boundary .full = .ok c)
    (hdelete : (delete first).apply
      (ofStore (s.enter c (.ofTruth (Truth.revise Truth.floatThreshold ta tb)))) =
        (.ok (), ofStore t))
    (hdelete' : (delete second).apply (ofStore t) = (.ok (), ofStore u)) :
    (revision first second).apply (ofStore s) = (.ok c.id, ofStore u) := by
  have hnew : (s.push c).owns c.id = true :=
    owns_iff.mpr ⟨c, find?_push_new (make_fields hmake).1⟩
  have hcreate : (create a.label a.boundary).apply (ofStore s) = (.ok c.id, ofStore (s.push c)) :=
    apply_createChecked_ofStore hmake
  have hset : (setEmbedding c.id (.ofTruth (Truth.revise Truth.floatThreshold ta tb))).apply
      (ofStore (s.push c)) =
        (.ok (), ofStore (s.enter c (.ofTruth (Truth.revise Truth.floatThreshold ta tb)))) :=
    apply_modifyCell hnew
  unfold revision
  rw [apply_bind_ok (apply_look_ok hpair)]
  show (requireDeletable first >>= fun _ => _).apply _ = _
  rw [apply_bind_ok (apply_requireDeletable hfirst),
    apply_bind_ok (apply_requireDeletable hsecond), apply_bind_ok hcreate, apply_bind_ok hset,
    apply_bind_ok hdelete, apply_bind_ok hdelete', apply_pure]

/-- **How a choice runs**: the less confident of two answers is deleted; of equals, the second. -/
theorem apply_choice_ok (hedges : s.AnsweredBy label x y edges) (hfirst : first ∈ edges)
    (hsecond : second ∈ edges)
    (hpair : (ofStore s).duplicatePair first second = .ok (a, ta, tb)) :
    (choice first second).apply (ofStore s) =
      if ta.confidence < tb.confidence then (.ok second, ofStore (s.deleteAt first.index))
      else (.ok first, ofStore (s.deleteAt second.index)) := by
  unfold choice
  rw [apply_bind_ok (apply_look_ok hpair)]
  by_cases hless : ta.confidence < tb.confidence
  · simp only [if_pos hless]
    rw [apply_bind_ok (apply_delete_answer hedges hfirst), apply_pure]
  · simp only [if_neg hless]
    rw [apply_bind_ok (apply_delete_answer hedges hsecond), apply_pure]

section Round

variable (hs : s.Consistent) (hx : s.lookup.IsPoint x) (hy : s.lookup.IsPoint y)
  (hedges : s.AnsweredBy label x y edges) (hfirst : first ∈ edges) (hsecond : second ∈ edges)
  (hne : first ≠ second) (htruth : s.HasTruth first ∧ s.HasTruth second)

include hedges hfirst hsecond hne htruth in
/-- **Choice settles for one answer less.** -/
theorem choice_round :
    ∃ kept t after, (choice first second).apply (ofStore s) = (.ok kept, ofStore t) ∧
      Round label x y s edges t after := by
  obtain ⟨a, ta, tb, hpair, _⟩ := duplicatePair_true hedges hfirst hsecond hne htruth
  rw [apply_choice_ok hedges hfirst hsecond hpair]
  split
  · exact ⟨second, _, _, rfl, round_delete hedges hfirst⟩
  · exact ⟨first, _, _, rfl, round_delete hedges hsecond⟩

include hs hx hy hedges hfirst hsecond hne htruth in
/-- **Revision settles for one answer less**: a new one enters and two are deleted. -/
theorem revision_round :
    ∃ merged t after, (revision first second).apply (ofStore s) = (.ok merged, ofStore t) ∧
      Round label x y s edges t after := by
  obtain ⟨a, ta, tb, hpair, hsa⟩ := duplicatePair_true hedges hfirst hsecond hne htruth
  obtain ⟨c, hmake, hsay⟩ := make_says (s.nextId 0) label hs.sound hx hy
  have hid : c.id = s.nextId 0 := (make_fields hmake).1
  let merged : Truth Float := Truth.revise Truth.floatThreshold ta tb
  -- an answer enters, the first one goes, the second one goes
  have henter := settles_enter hedges hid hsay (.ofTruth merged)
  have hfirst' : first ∈ edges ++ [c.id] := List.mem_append_left _ hfirst
  have hround := round_delete henter.stop hfirst'
  have hsecond' : second ∈ (edges ++ [c.id]).erase first :=
    henter.stop.nodup.mem_erase_iff.mpr ⟨Ne.symm hne, List.mem_append_left _ hsecond⟩
  have hround' := round_delete hround.settles.stop hsecond'
  have howns : ∀ z ∈ edges, s.owns z = true := by
    intro z hz
    obtain ⟨d, hd, _⟩ := (hedges.mem_iff z).mp hz
    exact owns_iff.mpr ⟨d, hd⟩
  have hmake' : Cell.make s.lookup (s.nextId 0) a.label a.boundary .full = .ok c := by
    rw [hsa.label_eq, hsa.boundary]
    exact hmake
  have hrun := apply_revision_ok hpair (howns first hfirst) (howns second hsecond) hmake'
    (apply_delete_answer henter.stop hfirst')
    (apply_delete_answer hround.settles.stop hsecond')
  refine ⟨c.id, _, _, hrun, (henter.trans hround.settles).trans hround'.settles, ?_,
    fun htrue => ?_⟩
  · have hlen := hround.length
    have hlen' := hround'.length
    rw [List.length_append, List.length_singleton] at hlen
    omega
  · exact hround'.hasTruth (hround.hasTruth (hasTruth_enter hid htrue merged))

end Round

end Space

end CellComplex
