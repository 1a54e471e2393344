import CellComplex.Proofs.Rule.Compile
import Mathlib.Tactic.IntervalCases

/-!
# The transitive rule as it is written and read

The transitive rule has sixteen clauses, the same for every label. Which of them is which is told by
their places, so the ids of their cells are those of a row.

* `transitiveSaid`: the clauses with their ids; `proper_transitiveSaid`: they are told properly;
* **`transitiveRule_written`**: the rule is always written, step by step over the clauses;
* `Rule.IsTransitive`: what is read of it; `Written.pattern_transitive`,
  `Written.template_transitive`: the kept positions and the new edge;
* **`Written.compile_transitive`**: it is read back, unless its label is a word of binds;
* `Written.compile_ne_of_bind`, `Written.compile_ne_of_nobind`: with such a label it is not read at
  all.
-/

namespace CellComplex

open Edit

/-! ## 1. Its clauses -/

/-- What is said of the transitive rule: the points A, B, C and the edges of the pattern, those that
they stand for and the new edge, and the binds. -/
def transitiveSaid (label : String) (n : Nat → CellId) : List (Clause × CellId) :=
  [(.patternPoint Label.wildcard, n 0), (.patternPoint Label.wildcard, n 1),
    (.patternPoint Label.wildcard, n 2), (.patternCell label [n 0, n 1], n 3),
    (.patternCell label [n 1, n 2], n 4), (.replacementPoint Label.wildcard, n 5),
    (.replacementPoint Label.wildcard, n 6), (.replacementPoint Label.wildcard, n 7),
    (.replacement label [n 5, n 6], n 8), (.replacement label [n 6, n 7], n 9),
    (.produce label [n 5, n 7], n 10), (.bind (n 0) (n 5), n 11), (.bind (n 1) (n 6), n 12),
    (.bind (n 2) (n 7), n 13), (.bind (n 3) (n 8), n 14), (.bind (n 4) (n 9), n 15)]

/-- The dimensions of the cells of the clauses. -/
def transitiveDimensions : List Nat := [0, 0, 0, 1, 1, 0, 0, 0, 1, 1, 1, 1, 1, 1, 2, 2]

section Said

variable (label : String) (n : Nat → CellId)

theorem idsWhere_transitiveSaid (side : Side) :
    idsWhere (·.isPointOf side) (transitiveSaid label n) =
    match side with
    | .pattern => [n 0, n 1, n 2]
    | .product => [n 5, n 6, n 7] := by
  cases side <;> rfl

theorem idsOf_transitiveSaid (side : Side) : idsOf side (transitiveSaid label n) =
    match side with
    | .pattern => [n 0, n 1, n 2, n 3, n 4]
    | .product => [n 5, n 6, n 7, n 8, n 9, n 10] := by
  cases side <;> rfl

theorem pattern_transitiveSaid :
    (transitiveSaid label n).filter (fun e => e.1.side? = some .pattern) =
      [(.patternPoint Label.wildcard, n 0), (.patternPoint Label.wildcard, n 1),
        (.patternPoint Label.wildcard, n 2), (.patternCell label [n 0, n 1], n 3),
        (.patternCell label [n 1, n 2], n 4)] := rfl

theorem flat_transitiveSaid {draft : RuleDraft}
    (hpoints : ∀ side, draft.pointsOf side =
      idsWhere (·.isPointOf side) (transitiveSaid label n)) :
    draft.Flat (transitiveSaid label n) := by
  intro side
  rw [hpoints, idsWhere_transitiveSaid]
  cases side <;>
    simp [transitiveSaid, Clause.isListedOn, Clause.boundary]

/-- Each side of the transitive rule lists cells of its own. -/
theorem within_transitiveSaid : ∀ e ∈ transitiveSaid label n, ∀ side, e.1.side? = some side →
    ∀ b ∈ e.1.boundary, b ∈ idsOf side (transitiveSaid label n) := by
  intro e he side hside
  rw [idsOf_transitiveSaid]
  revert e side
  simp [transitiveSaid, Clause.side?, Clause.boundary]

/-- The binds of the transitive rule, from the cells of the pattern in their order. -/
theorem bind_transitiveSaid {pattern replacement id : CellId} :
    (Clause.bind pattern replacement, id) ∈ transitiveSaid label n ↔
      ∃ k < 5, pattern = n k ∧ replacement = n (k + 5) ∧ id = n (k + 11) := by
  constructor
  · intro hmem
    simp only [transitiveSaid, List.mem_cons, Prod.mk.injEq, reduceCtorEq, false_and,
      Clause.bind.injEq, List.not_mem_nil, or_false, false_or] at hmem
    rcases hmem with ⟨⟨rfl, rfl⟩, rfl⟩ | ⟨⟨rfl, rfl⟩, rfl⟩ | ⟨⟨rfl, rfl⟩, rfl⟩ |
      ⟨⟨rfl, rfl⟩, rfl⟩ | ⟨⟨rfl, rfl⟩, rfl⟩
    · exact ⟨0, by decide, rfl, rfl, rfl⟩
    · exact ⟨1, by decide, rfl, rfl, rfl⟩
    · exact ⟨2, by decide, rfl, rfl, rfl⟩
    · exact ⟨3, by decide, rfl, rfl, rfl⟩
    · exact ⟨4, by decide, rfl, rfl, rfl⟩
  · rintro ⟨k, hk, rfl, rfl, rfl⟩
    interval_cases k <;> simp [transitiveSaid]

theorem mem_idsOf_transitiveSaid {k : Nat} (hk : k < 5) :
    n k ∈ idsOf .pattern (transitiveSaid label n) ∧
      n (k + 5) ∈ idsOf .product (transitiveSaid label n) := by
  rw [idsOf_transitiveSaid, idsOf_transitiveSaid]
  interval_cases k <;> simp

/-- **The transitive rule is told properly**, unless its label is a word of binds. -/
theorem proper_transitiveSaid {find : CellId → Option Cell} (hn : Function.Injective n)
    (hbind : label ≠ Label.bind) (hnobind : label ≠ Label.nobind)
    (hsame : ∀ k < 5, (find (n k)).map Cell.dimension = (find (n (k + 5))).map Cell.dimension) :
    Proper find (transitiveSaid label n) where
  plain := by
    have hwild : Label.wildcard ≠ Label.bind ∧ Label.wildcard ≠ Label.nobind := by decide
    simp [transitiveSaid, Clause.label, Clause.side?, hwild, hbind, hnobind]
  within := within_transitiveSaid label n
  bind pattern replacement id hmem := by
    obtain ⟨k, hk, rfl, rfl, _⟩ := (bind_transitiveSaid label n).mp hmem
    obtain ⟨hpattern, hproduct⟩ := mem_idsOf_transitiveSaid label n hk
    exact ⟨hpattern, hproduct, hsame k hk⟩
  once := by
    show [n 0, n 1, n 2, n 3, n 4].Nodup
    simp [hn.eq_iff]

end Said

section Run

variable {s : Store} {root c : Cell} {entries : List (Clause × Cell)} {draft : RuleDraft}
variable {clause : Clause} {β : Type}
variable {f : CellId → StateT RuleDraft (ExceptT StoreError (StateM Space)) β}

/-- A clause that is said, and what follows. -/
theorem Tells.run_bind (h : Tells s root entries draft clause c) :
    Edit.apply ((say clause >>= f).run draft) (.ofStore (draftStore s root entries)) =
      Edit.apply ((f c.id).run (draft.record c.id clause))
        (.ofStore (draftStore s root (entries ++ [(clause, c)]))) := by
  have hrun : (say clause >>= f).run draft =
      (draft.add clause >>= fun said => (f said.1).run said.2 : Edit (β × RuleDraft)) := rfl
  rw [hrun, apply_bind_ok h.apply]

/-- **All clauses of the transitive rule are said**, whatever the label. -/
theorem transitiveClauses_told (hs : s.Consistent) (h : Drafted s root [] (.empty root.id))
    (label : String) :
    ∃ entries draft, Drafted s root entries draft ∧
      Edit.apply ((transitiveClauses label).run (.empty root.id))
          (.ofStore (draftStore s root [])) =
        (.ok ((), draft), .ofStore (draftStore s root entries)) ∧
      named entries = transitiveSaid label (fun k => s.nextId (k + 1)) ∧
      entries.map (·.2.dimension) = transitiveDimensions := by
  obtain ⟨a, ha, ha0⟩ := h.tells_point (.patternPoint Label.wildcard) rfl
  obtain ⟨b, hb, hb0⟩ := ha.drafted.tells_point (.patternPoint Label.wildcard) rfl
  obtain ⟨c, hc, hc0⟩ := hb.drafted.tells_point (.patternPoint Label.wildcard) rfl
  obtain ⟨ab, hab, sab⟩ := hc.drafted.tells_arc hs (x := a) (y := b)
    (.patternCell label [a.id, b.id]) (by simp) ha0 (by simp) hb0 rfl
  obtain ⟨bc, hbc, sbc⟩ := hab.drafted.tells_arc hs (x := b) (y := c)
    (.patternCell label [b.id, c.id]) (by simp) hb0 (by simp) hc0 rfl
  obtain ⟨ra, hra, hra0⟩ := hbc.drafted.tells_point (.replacementPoint Label.wildcard) rfl
  obtain ⟨rb, hrb, hrb0⟩ := hra.drafted.tells_point (.replacementPoint Label.wildcard) rfl
  obtain ⟨rc, hrc, hrc0⟩ := hrb.drafted.tells_point (.replacementPoint Label.wildcard) rfl
  obtain ⟨rab, hrab, srab⟩ := hrc.drafted.tells_arc hs (x := ra) (y := rb)
    (.replacement label [ra.id, rb.id]) (by simp) hra0 (by simp) hrb0 rfl
  obtain ⟨rbc, hrbc, srbc⟩ := hrab.drafted.tells_arc hs (x := rb) (y := rc)
    (.replacement label [rb.id, rc.id]) (by simp) hrb0 (by simp) hrc0 rfl
  obtain ⟨rac, hrac, srac⟩ := hrbc.drafted.tells_arc hs (x := ra) (y := rc)
    (.produce label [ra.id, rc.id]) (by simp) hra0 (by simp) hrc0 rfl
  -- the binds of the points
  obtain ⟨ta, hta, sta⟩ := hrac.drafted.tells_bind_point hs (p := a) (r := ra)
    (by simp) ha0 (by simp) hra0
  obtain ⟨tb, htb, stb⟩ := hta.drafted.tells_bind_point hs (p := b) (r := rb)
    (by simp) hb0 (by simp) hrb0
  obtain ⟨tc, htc, stc⟩ := htb.drafted.tells_bind_point hs (p := c) (r := rc)
    (by simp) hc0 (by simp) hrc0
  -- and those of the edges, whose ends are bound
  have hids : a.id = s.nextId 1 ∧ b.id = s.nextId 2 ∧ c.id = s.nextId 3 ∧ ab.id = s.nextId 4 ∧
      bc.id = s.nextId 5 ∧ ra.id = s.nextId 6 ∧ rb.id = s.nextId 7 ∧ rc.id = s.nextId 8 ∧
      rab.id = s.nextId 9 ∧ rbc.id = s.nextId 10 ∧ rac.id = s.nextId 11 ∧ ta.id = s.nextId 12 ∧
      tb.id = s.nextId 13 ∧ tc.id = s.nextId 14 :=
    by simp [ha.id_eq, hb.id_eq, hc.id_eq, hab.id_eq, hbc.id_eq, hra.id_eq, hrb.id_eq, hrc.id_eq,
      hrab.id_eq, hrbc.id_eq, hrac.id_eq, hta.id_eq, htb.id_eq, htc.id_eq]
  obtain ⟨tab, htab, htab2⟩ := htc.drafted.tells_bind_arc hs (p := ab) (r := rab) (x := a) (y := b)
    (a := ta) (b := tb) (sab.mono (by simp)) (srab.mono (by simp)) (sta.mono (by simp))
    (stb.mono (by simp))
    (by simp [RuleDraft.getElem?_binds_bind, hids, Store.nextId_inj])
    (by simp [RuleDraft.getElem?_binds_bind, hids, Store.nextId_inj])
    (by simp [hids, Store.nextId_inj])
  have htabid : tab.id = s.nextId 15 := by simp [htab.id_eq]
  obtain ⟨tbc, htbc, htbc2⟩ := htab.drafted.tells_bind_arc hs (p := bc) (r := rbc) (x := b) (y := c)
    (a := tb) (b := tc) (sbc.mono (by simp)) (srbc.mono (by simp)) (stb.mono (by simp))
    (stc.mono (by simp))
    (by simp [RuleDraft.getElem?_binds_bind, hids, Store.nextId_inj])
    (by simp [RuleDraft.getElem?_binds_bind, hids, Store.nextId_inj])
    (by simp [hids, Store.nextId_inj])
  have htbcid : tbc.id = s.nextId 16 := by simp [htbc.id_eq]
  refine ⟨_, _, htbc.drafted, ?_, ?_, ?_⟩
  · unfold transitiveClauses
    rw [ha.run_bind, hb.run_bind, hc.run_bind, hab.run_bind, hbc.run_bind, hra.run_bind,
      hrb.run_bind, hrc.run_bind, hrab.run_bind, hrbc.run_bind, hrac.run_bind, hta.run_bind,
      htb.run_bind, htc.run_bind, htab.run_bind, htbc.run_bind]
    rfl
  · simp [named, transitiveSaid, hids, htabid, htbcid]
  · simp [transitiveDimensions, ha0, hb0, hc0, sab.dimension, sbc.dimension, hra0, hrb0, hrc0,
      srab.dimension, srbc.dimension, srac.dimension, sta.dimension, stb.dimension, stc.dimension,
      htab2, htbc2]

/-- **The transitive rule is always written**, whatever the label. -/
theorem transitiveRule_written (hs : s.Consistent) (label : String) :
    ∃ root entries listings, Written s root entries listings ∧
      (transitiveRule label).apply (.ofStore s) =
        (.ok root.id, .ofStore (ruleStore s root entries listings)) ∧
      named entries = transitiveSaid label (fun k => s.nextId (k + 1)) ∧
      entries.map (·.2.dimension) = transitiveDimensions ∧ root.label = s!"transitive_{label}" := by
  obtain ⟨root, hempty, hid, hstart⟩ := start_ok s s!"transitive_{label}"
  obtain ⟨entries, draft, h, hrun, hnamed, hdims⟩ := transitiveClauses_told hs hempty label
  have hpoints := h.points
  rw [hnamed] at hpoints
  have hflat : draft.Flat (named entries) := by
    rw [hnamed]
    exact flat_transitiveSaid label _ hpoints
  obtain ⟨listings, hwritten, hfinish⟩ := h.finish_flat hs (by
    rw [show draft.patternPoints = _ from hpoints .pattern]
    exact List.cons_ne_nil _ _) hflat
  refine ⟨root, entries, listings, hwritten, ?_, hnamed, hdims, start_label hid hstart⟩
  unfold transitiveRule
  rw [apply_bind_ok hstart, apply_bind_ok hrun, hfinish]

end Run

/-! ## 2. What is read -/

/-- **"A label B, B label C, hence A label C"**, as it is read: the points and edges of the pattern
are kept, and an edge is made. -/
structure Rule.IsTransitive (rule : Rule) (label : String) (n : Nat → CellId) : Prop where
  injective : Function.Injective n
  points : rule.points = 3
  pattern : rule.pattern = [⟨n 0, 0, .any, some (n 5)⟩, ⟨n 1, 0, .any, some (n 6)⟩,
    ⟨n 2, 0, .any, some (n 7)⟩, ⟨n 3, 1, .ofLabel label, some (n 8)⟩,
    ⟨n 4, 1, .ofLabel label, some (n 9)⟩]
  product : rule.product = [n 10]
  template : rule.template? (n 10) = some ⟨label, 1, [n 5, n 7]⟩

theorem Reads.eq {find : CellId → Option Cell} {said : List (Clause × CellId)}
    {e : Clause × CellId} {slot : PatternSlot} (h : Reads find said e slot) {d : Nat}
    (hd : (find e.2).map Cell.dimension = some d) (r id : CellId)
    (hbind : (Clause.bind e.2 r, id) ∈ said) :
    slot = ⟨e.2, d, .ofLabel e.1.label, some r⟩ := by
  obtain ⟨template, dimension, label, bindsTo⟩ := slot
  obtain rfl : template = e.2 := h.template
  obtain rfl : dimension = d := Option.some.inj (h.dimension.symm.trans hd)
  obtain rfl : label = .ofLabel e.1.label := h.label
  obtain rfl : bindsTo = some r := (h.bindsTo r).mpr ⟨id, hbind⟩
  rfl

/-- Cells in a row have different ids. -/
theorem Store.nextId_succ_injective (s : Store) : Function.Injective fun k => s.nextId (k + 1) :=
  fun _ _ hjk => Nat.succ.inj (Store.nextId_inj.mp hjk)

section Read

variable {s : Store} {root : Cell} {entries : List (Clause × Cell)} {listings : List Listing}
variable {label : String}

section Parts

variable {n : Nat → CellId} (h : Written s root entries listings)
variable (hnamed : named entries = transitiveSaid label n)
variable (hdims : entries.map (·.2.dimension) = transitiveDimensions)
include h hnamed hdims

/-- The dimension of the cell of one clause. -/
theorem Written.dimension_transitive {k : Nat} (hk : k < 16) :
    ((ruleStore s root entries listings).find? (n k)).map Cell.dimension =
      transitiveDimensions[k]? := by
  have hids : entries.map (·.2.id) = (List.range 16).map n := by
    have hsnd := congrArg (List.map Prod.snd) hnamed
    rwa [named, List.map_map] at hsnd
  have hget : (entries[k]?).map (·.2.id) = some (n k) := by
    rw [← List.getElem?_map, hids, List.getElem?_map, List.getElem?_range hk]
    rfl
  obtain ⟨e, he, hid⟩ := Option.map_eq_some_iff.mp hget
  rw [← hid, h.find?_entry (List.mem_of_getElem? he), ← hdims, List.getElem?_map, he]
  rfl

theorem Written.proper_transitive (hn : Function.Injective n) (hbind : label ≠ Label.bind)
    (hnobind : label ≠ Label.nobind) :
    Proper (ruleStore s root entries listings).find? (transitiveSaid label n) := by
  refine proper_transitiveSaid label n hn hbind hnobind fun k hk => ?_
  have hsame : ∀ k < 5, transitiveDimensions[k]? = transitiveDimensions[k + 5]? := by decide
  rw [h.dimension_transitive hnamed hdims (by omega), hsame k hk,
    h.dimension_transitive hnamed hdims (by omega)]

/-- All five positions are kept. -/
theorem Written.pattern_transitive {slots : List PatternSlot}
    (hreads : List.Forall₂
      (Reads (ruleStore s root entries listings).find? (transitiveSaid label n))
      ((transitiveSaid label n).filter fun e => e.1.side? = some .pattern) slots) :
    slots = [⟨n 0, 0, .any, some (n 5)⟩, ⟨n 1, 0, .any, some (n 6)⟩,
      ⟨n 2, 0, .any, some (n 7)⟩, ⟨n 3, 1, .ofLabel label, some (n 8)⟩,
      ⟨n 4, 1, .ofLabel label, some (n 9)⟩] := by
  have hbound : ∀ k < 5, (Clause.bind (n k) (n (k + 5)), n (k + 11)) ∈ transitiveSaid label n :=
    fun k hk => (bind_transitiveSaid label n).mpr ⟨k, hk, rfl, rfl, rfl⟩
  have hdim := fun k hk => h.dimension_transitive hnamed hdims (k := k) hk
  rw [pattern_transitiveSaid] at hreads
  simp only [List.forall₂_cons_left_iff, List.forall₂_nil_left_iff] at hreads
  obtain ⟨s₀, _, h₀, ⟨s₁, _, h₁, ⟨s₂, _, h₂, ⟨s₃, _, h₃, ⟨s₄, _, h₄, rfl, rfl⟩, rfl⟩, rfl⟩, rfl⟩,
    rfl⟩ := hreads
  rw [h₀.eq (hdim 0 (by decide)) (n 5) (n 11) (hbound 0 (by decide)),
    h₁.eq (hdim 1 (by decide)) (n 6) (n 12) (hbound 1 (by decide)),
    h₂.eq (hdim 2 (by decide)) (n 7) (n 13) (hbound 2 (by decide)),
    h₃.eq (hdim 3 (by decide)) (n 8) (n 14) (hbound 3 (by decide)),
    h₄.eq (hdim 4 (by decide)) (n 9) (n 15) (hbound 4 (by decide))]
  rfl

/-- The cell that is made is an edge from the first point to the last. -/
theorem Written.template_transitive :
    ∃ e ∈ entries, e.2.id = n 10 ∧ Template.ofCell e.2 = ⟨label, 1, [n 5, n 7]⟩ := by
  have hmade : (Clause.produce label [n 5, n 7], n 10) ∈ named entries := by
    simp [hnamed, transitiveSaid]
  obtain ⟨c, hc, hid⟩ := mem_named.mp hmade
  have hone := h.dimension_transitive hnamed hdims (k := 10) (by decide)
  rw [← hid, h.find?_entry hc] at hone
  have hlabel : c.label = label := h.said.label _ hc
  have hboundary : c.boundary = [n 5, n 7] := h.said.boundary _ hc (by simp [Clause.side?])
  exact ⟨_, hc, hid, by rw [Template.ofCell, hlabel, Option.some.inj hone, hboundary]⟩

end Parts

/-- **The transitive rule is read back**, unless its label is a word of binds. -/
theorem Written.compile_transitive (h : Written s root entries listings) (hs : s.Consistent)
    (hnamed : named entries = transitiveSaid label (fun k => s.nextId (k + 1)))
    (hdims : entries.map (·.2.dimension) = transitiveDimensions)
    (hbind : label ≠ Label.bind) (hnobind : label ≠ Label.nobind) :
    ∃ rule, Rule.compile (.indexed (ruleStore s root entries listings)) root.id = .ok rule ∧
      rule.IsTransitive label (fun k => s.nextId (k + 1)) := by
  have hn := s.nextId_succ_injective
  have hproper := h.proper_transitive hnamed hdims hn hbind hnobind
  obtain ⟨rule, hrule, hpoints, hreads, hproduct, htemplate⟩ := h.compile_eq (hnamed ▸ hproper) hs
  rw [hnamed] at hpoints hreads hproduct
  obtain ⟨e, he, hid, hmade⟩ := h.template_transitive hnamed hdims
  have hmem : e.2.id ∈ rule.product := by
    rw [hproduct, hid]
    exact List.mem_singleton_self _
  refine ⟨rule, hrule, hn, hpoints, h.pattern_transitive hnamed hdims hreads, hproduct, ?_⟩
  rw [← hid, htemplate e he hmem, hmade]

/-! ## 3. Words of binds -/

section Words

variable {n : Nat → CellId} {rule : Rule}
variable (h : Written s root entries listings) (hnamed : named entries = transitiveSaid label n)
include h hnamed

/-- The cells of the transitive rule list each other only, whatever the label. -/
theorem Written.closed_transitive :
    ∀ e ∈ entries, ∀ b ∈ e.2.boundary, ∃ e' ∈ entries, e'.2.id = b := by
  refine h.said.closed ?_ fun pattern replacement id hmem => ?_
  · rw [hnamed]
    exact within_transitiveSaid label n
  · rw [hnamed] at hmem ⊢
    obtain ⟨k, hk, rfl, rfl, _⟩ := (bind_transitiveSaid label n).mp hmem
    exact mem_idsOf_transitiveSaid label n hk

omit h in
theorem exists_cell_transitive (clause : Clause) (k : Nat)
    (hmem : (clause, n k) ∈ transitiveSaid label n) : ∃ c, (clause, c) ∈ entries ∧ c.id = n k :=
  mem_named.mp (hnamed ▸ hmem)

theorem Written.readSlot_transitive (hs : s.Consistent)
    (hrule : Rule.compile (.indexed (ruleStore s root entries listings)) root.id = .ok rule)
    {k : Nat} (hk : k < 5) :
    ∃ slot, (Space.indexed (ruleStore s root entries listings)).readSlot (n k) = .ok slot := by
  have hmem : n k ∈ idsWhere (·.isListedOn .pattern) (named entries) := by
    rw [hnamed]
    simp only [Clause.isListedOn_pattern]
    exact (mem_idsOf_transitiveSaid label n hk).1
  exact h.readSlot_isOk (h.closed_transitive hnamed) hs hrule hmem

/-- With the label of binds, the edge from A to B is taken for a bind of A, which has one. -/
theorem Written.compile_ne_of_bind (hs : s.Consistent) (hn : Function.Injective n)
    (hword : label = Label.bind) :
    Rule.compile (.indexed (ruleStore s root entries listings)) root.id ≠ .ok rule := by
  intro hrule
  obtain ⟨a, ha, haid⟩ := exists_cell_transitive hnamed
    (.patternPoint Label.wildcard) 0 (by simp [transitiveSaid])
  obtain ⟨ab, hab, habid⟩ := exists_cell_transitive hnamed
    (.patternCell label [n 0, n 1]) 3 (by simp [transitiveSaid])
  obtain ⟨t, ht, htid⟩ := exists_cell_transitive hnamed
    (.bind (n 0) (n 5)) 11 (by simp [transitiveSaid])
  have hlists : a.id ∈ ab.boundary := by
    have hends : ab.boundary = [n 0, n 1] := h.said.boundary _ hab (by simp [Clause.side?])
    simp [hends, haid]
  have hlists' : a.id ∈ t.boundary := by
    obtain ⟨_, _, _, hends, _⟩ := h.said.bind _ _ t ht
    simp [hends, haid]
  obtain ⟨slot, hslot⟩ := h.readSlot_transitive hnamed hs hrule (k := 0) (by decide)
  rw [← haid] at hslot
  have hmem := h.mem_cofacesLabeled hs ha hab hlists
  rw [show (Clause.patternCell label [n 0, n 1], ab).1.label = Label.bind from hword] at hmem
  have hone := (Space.readSlot_holds hslot hmem).1
  have hone' := (Space.readSlot_holds hslot (h.mem_cofacesLabeled hs ha ht hlists')).1
  have hsame : ab.id = t.id := List.head_eq_of_cons_eq (hone.symm.trans hone')
  rw [habid, htid] at hsame
  exact absurd (hn hsame) (by decide)

/-- With the label of markers, the edge that the edge from A to B stands for is taken for one, and
nothing is left that it could stand for. -/
theorem Written.compile_ne_of_nobind (hs : s.Consistent) (hword : label = Label.nobind) :
    Rule.compile (.indexed (ruleStore s root entries listings)) root.id ≠ .ok rule := by
  intro hrule
  obtain ⟨ab, hab, habid⟩ := exists_cell_transitive hnamed
    (.patternCell label [n 0, n 1]) 3 (by simp [transitiveSaid])
  obtain ⟨rab, hrab, hrabid⟩ := exists_cell_transitive hnamed
    (.replacement label [n 5, n 6]) 8 (by simp [transitiveSaid])
  obtain ⟨t, ht, htid⟩ := exists_cell_transitive hnamed
    (.bind (n 3) (n 8)) 14 (by simp [transitiveSaid])
  obtain ⟨_, extra, _, hends, hextra⟩ := h.said.bind _ _ t ht
  have hlists : ab.id ∈ t.boundary := by simp [hends, habid]
  obtain ⟨slot, hslot⟩ := h.readSlot_transitive hnamed hs hrule (k := 3) (by decide)
  rw [← habid] at hslot
  obtain ⟨_, cell, target, hcell, htarget⟩ :=
    Space.readSlot_holds hslot (h.mem_cofacesLabeled hs hab ht hlists)
  cases hcell.symm.trans (h.find?_indexed (mem_cells hab))
  obtain ⟨hmem, htarget⟩ := Space.bindTarget_holds htarget (h.find?_indexed (mem_cells ht))
  -- no bind and no marker is a target
  have hplain : ∀ {clause c}, (clause, c) ∈ entries → target = c.id →
      clause.label ≠ Label.bind ∧ clause.label ≠ Label.nobind := by
    rintro clause c hc rfl
    have hnot : ¬ c.id = ab.id ∧ ¬ c.label = Label.bind ∧ ¬ c.label = Label.nobind := by
      simpa [Space.isBindTarget, Space.satisfies, h.find?_indexed (mem_cells hc)] using htarget
    rw [← h.said.label _ hc]
    exact hnot.2
  rw [hends] at hmem
  rcases List.mem_cons.mp hmem with rfl | hmem
  · simp [Space.isBindTarget, habid] at htarget
  rcases List.mem_cons.mp hmem with rfl | hmem
  · exact (hplain hrab hrabid.symm).2 hword
  · obtain ⟨_, _, _, c, hc, hid⟩ := hextra target hmem
    exact (hplain hc hid.symm).1 rfl

end Words

end Read

end CellComplex
