import CellComplex.Proofs.Evidence.Query
import CellComplex.Proofs.Rewrite.Plan
import CellComplex.Proofs.Rewrite.Transaction
import CellComplex.Proofs.Rule.Transitive

/-!
# What the transitive rule makes

Three points in a row and the edges between neighbours match the transitive rule, and the one cell
it makes is the edge from the first point to the last.

* `Space.prepare_single`: what a rule has ready that makes one cell;
* `Store.IsPremise`: what is asked of the cells at the places of the edges;
* `IsTransitive.matchCells_ok`: points and premises match;
* `IsTransitive.prepare_ok`: the edge is ready;
* **`IsTransitive.rewrite_of_premises`**: it enters the store, and nothing else changes;
  `IsTransitive.rewrite_ok`: so it does for points in a row;
* **`transitiveRule_links`**: the rule from its writing to its application.
-/

namespace CellComplex

/-! ## 1. One cell on the side -/

section Prepare

variable {sp : Space} {rule : Rule} {st : Staging} {m : Matching} {cells : List Cell} {c : Cell}
variable {selection boundary : List CellId} {template : CellId} {t : Template}

theorem Staging.make_ok (ht : rule.template? template = some t)
    (hboundary : t.boundary.mapM (st.standIn rule) = .ok boundary)
    (hc : Cell.make (st.lookup sp) (sp.top.nextId st.created.length) t.label boundary .full =
      .ok c) :
    st.make sp rule template = .ok ⟨st.cells.insert (sp.top.nextId st.created.length) c,
      st.bindings.insert template (sp.top.nextId st.created.length),
      sp.top.nextId st.created.length :: st.created⟩ := by
  unfold make
  rw [ht]
  show (t.boundary.mapM (st.standIn rule) >>= _) = _
  rw [hboundary]
  show (Cell.make _ _ _ _ _ >>= _) = _
  rw [hc]
  rfl

/-- **A rule that makes one cell** has it on the side, if the cells match and its boundary makes a
cell. -/
theorem Space.prepare_single (hcells : selection.mapM sp.resolve = .ok cells)
    (hmatch : rule.matchCells cells = .ok m)
    (hplan : rule.plan m.bindings.contains = .ok [template])
    (ht : rule.template? template = some t)
    (hboundary : t.boundary.mapM ((Staging.start m.bindings).standIn rule) = .ok boundary)
    (hc : Cell.make sp.lookup (sp.top.nextId 0) t.label boundary .full = .ok c) :
    ∃ st, sp.prepare rule selection = .ok (st, m.unbound) ∧ st.created = [c.id] ∧
      st.entering = [c] := by
  have hstart : Staged sp (.start m.bindings) [] := .start m.bindings
  have hc' : Cell.make ((Staging.start m.bindings).lookup sp) (sp.top.nextId 0) t.label boundary
      .full = .ok c := by
    rw [hstart.lookup]
    exact hc
  have hid : c.id = sp.top.nextId 0 := (make_fields hc).1
  have hmake := Staging.make_ok ht hboundary hc'
  have hstaged : Staged sp ⟨(∅ : Std.TreeMap CellId Cell).insert (sp.top.nextId 0) c,
      m.bindings.insert template (sp.top.nextId 0), [sp.top.nextId 0]⟩ [c] := hstart.add rfl hc'
  have hmatched : sp.matchRule rule selection = .ok m :=
    Outcome.bind_eq_ok.mpr ⟨cells, hcells, by rw [hmatch]; rfl⟩
  have hstage : stage sp rule m.bindings [template] =
      (Staging.start m.bindings).make sp rule template := by simp [stage]
  refine ⟨_, ?_, ?_, hstaged.entering_eq⟩
  · rw [prepare_planned hmatched hplan, hstage, hmake]
    rfl
  · rw [hid]

end Prepare

/-! ## 2. Matching the transitive rule -/

/-- **What the transitive rule asks of an edge**: a live cell of dimension one with a label that
fits, whatever it lists. -/
def Store.IsPremise (s : Store) (label : String) (e : CellId) : Prop :=
  ∃ c, s.find? e = some c ∧ c.isLive = true ∧ c.dimension = 1 ∧
    (LabelPattern.ofLabel label).fits c.label = true

theorem LabelPattern.ofLabel_fits (label : String) : (ofLabel label).fits label = true := by
  unfold ofLabel
  split <;> simp [fits]

/-- An edge that says so is a premise. -/
theorem Store.Answers.isPremise {s : Store} {label : String} {x y e : CellId}
    (h : s.Answers label x y e) : s.IsPremise label e := by
  obtain ⟨c, hc, hsay⟩ := h
  exact ⟨c, hc, hsay.isLive, hsay.dimension, hsay.label_eq ▸ LabelPattern.ofLabel_fits label⟩

namespace Rule.IsTransitive

variable {rule : Rule} {label : String} {n : Nat → CellId} (h : rule.IsTransitive label n)
variable {a b c e f : Cell}
include h

/-- **Three points and two cells of dimension one match**, if the labels of the two fit. -/
theorem matchCells_ok (hpoints : ∀ x ∈ [a, b, c], x.isLive = true ∧ x.dimension = 0)
    (hedges : ∀ x ∈ [e, f], x.isLive = true ∧ x.dimension = 1 ∧
      (LabelPattern.ofLabel label).fits x.label = true) :
    ∃ m, rule.matchCells [a, b, c, e, f] = .ok m ∧ m.unbound = [] ∧
      m.bindings[n 5]? = some a.id ∧ m.bindings[n 7]? = some c.id ∧ m.bindings[n 10]? = none := by
  simp only [List.forall_mem_cons] at hpoints hedges
  obtain ⟨ha, hb, hc, _⟩ := hpoints
  obtain ⟨he, hf, _⟩ := hedges
  have hlive : ∀ x ∈ [a, b, c, e, f], x.deleted = false := by
    simp only [List.forall_mem_cons]
    have hdel : ∀ {x : Cell}, x.isLive = true → x.deleted = false := by
      intro x hx
      simpa [Cell.isLive] using hx
    exact ⟨hdel ha.1, hdel hb.1, hdel hc.1, hdel he.1, hdel hf.1, by simp⟩
  have hcount : [a, b, c, e, f].countP (·.dimension == 0) = rule.points := by
    rw [h.points]
    simp [ha.2, hb.2, hc.2, he.2.1, hf.2.1]
  have hlen : [a, b, c, e, f].length = rule.pattern.length := by
    rw [h.pattern]
    rfl
  have hfit : ∀ p ∈ rule.pattern.zip [a, b, c, e, f], p.1.misfit? p.2 = none := by
    have hany : ∀ l, LabelPattern.any.fits l = true := fun _ => rfl
    rw [h.pattern]
    simp [PatternSlot.misfit?, ha.2, hb.2, hc.2, he.2, hf.2, hany]
  obtain ⟨m, hm⟩ := exists_matchCells hlive hcount hlen hfit
  obtain ⟨hbindings, hunbound⟩ := matchCells_holds hm
  refine ⟨m, hm, ?_, ?_, ?_, ?_⟩
  · rw [hunbound, unboundIn, h.pattern]
    rfl
  · rw [hbindings, boundBy, h.pattern]
    simp [h.injective.eq_iff]
  · rw [hbindings, boundBy, h.pattern]
    simp [h.injective.eq_iff]
  · rw [hbindings, boundBy, h.pattern]
    simp [h.injective.eq_iff]

/-! ## 3. Applying it -/

variable {s : Store} {x y z u v : CellId}

/-- **What the transitive rule has ready** for three points and two premises: the edge from the
first point to the last. -/
theorem prepare_ok (hs : s.Consistent) (hx : s.IsLivePoint x) (hy : s.IsLivePoint y)
    (hz : s.IsLivePoint z) (hu : s.IsPremise label u) (hv : s.IsPremise label v) :
    ∃ st c, (Space.ofStore s).prepare rule [x, y, z, u, v] = .ok (st, []) ∧
      st.created = [c.id] ∧ st.entering = [c] ∧ c.Says label x z := by
  obtain ⟨d, hd, hsay⟩ := make_says (s.nextId 0) label hs.sound hx.isPoint hz.isPoint
  rw [← Space.lookup_ofStore] at hd
  obtain ⟨a, ha, ha0, halive⟩ := hx
  obtain ⟨b, hb, hb0, hblive⟩ := hy
  obtain ⟨c, hc, hc0, hclive⟩ := hz
  obtain ⟨e, he, hepremise⟩ := hu
  obtain ⟨f, hf, hfpremise⟩ := hv
  have hcells : [x, y, z, u, v].mapM (Space.ofStore s).resolve = .ok [a, b, c, e, f] :=
    Outcome.mapM_eq_ok.mpr (.cons (Store.resolve_ofStore ha) (.cons (Store.resolve_ofStore hb)
      (.cons (Store.resolve_ofStore hc) (.cons (Store.resolve_ofStore he)
        (.cons (Store.resolve_ofStore hf) .nil)))))
  obtain ⟨m, hm, hunbound, hfirst, hlast, hfree⟩ := h.matchCells_ok (a := a) (b := b) (c := c)
    (e := e) (f := f) (by simp [ha0, hb0, hc0, halive, hblive, hclive])
    (by simp [hepremise, hfpremise])
  rw [hs.id_eq ha] at hfirst
  rw [hs.id_eq hc] at hlast
  have hplan : rule.plan m.bindings.contains = .ok [n 10] := by
    refine plan_single h.product h.template ?_ ?_
    · rw [Std.TreeMap.contains_eq_isSome_getElem?, hfree]
      rfl
    · have hbound : ∀ {id bound : CellId}, m.bindings[id]? = some bound →
          m.bindings.contains id = true := by
        intro id bound hget
        rw [Std.TreeMap.contains_eq_isSome_getElem?, hget]
        rfl
      simp only [List.forall_mem_cons]
      exact ⟨hbound hfirst, hbound hlast, by simp⟩
  have hstand : [n 5, n 7].mapM ((Staging.start m.bindings).standIn rule) = .ok [x, z] := by
    have hbound : ∀ {id bound}, m.bindings[id]? = some bound →
        (Staging.start m.bindings).standIn rule id = .ok bound :=
      fun hget => Staging.standIn_eq_ok.mpr hget
    exact Outcome.mapM_eq_ok.mpr (.cons (hbound hfirst) (.cons (hbound hlast) .nil))
  obtain ⟨st, hprepare, hcreated, hentering⟩ :=
    Space.prepare_single hcells hm hplan h.template hstand hd
  rw [hunbound] at hprepare
  exact ⟨st, d, hprepare, hcreated, hentering, hsay⟩

/-- **What the transitive rule makes** of three points and two premises: one edge, and nothing else
changes. -/
theorem rewrite_of_premises (hs : s.Consistent) (hx : s.IsLivePoint x) (hy : s.IsLivePoint y)
    (hz : s.IsLivePoint z) (hu : s.IsPremise label u) (hv : s.IsPremise label v) :
    ∃ t c,
      (Space.rewrite rule [x, y, z, u, v]).apply (.ofStore s) = (.ok ⟨[c.id], []⟩, .ofStore t) ∧
      Lines [] s [c] ∧ (s.pushAll [c]).Marks [] t ∧ c.Says label x z := by
  obtain ⟨st, c, hprepare, hcreated, hentering, hsay⟩ := h.prepare_ok hs hx hy hz hu hv
  have hlines := prepare_lines hprepare
  obtain ⟨t, _, hrun, hmarks⟩ := Space.apply_rewrite_marks hs hprepare
  rw [hcreated] at hrun
  rw [hentering] at hlines hmarks
  exact ⟨t, c, hrun, hlines, hmarks, hsay⟩

/-- So it does of three points in a row. -/
theorem rewrite_ok (hs : s.Consistent) (hx : s.IsLivePoint x) (hy : s.IsLivePoint y)
    (hz : s.IsLivePoint z) (hu : s.Answers label x y u) (hv : s.Answers label y z v) :
    ∃ t c,
      (Space.rewrite rule [x, y, z, u, v]).apply (.ofStore s) = (.ok ⟨[c.id], []⟩, .ofStore t) ∧
      Lines [] s [c] ∧ (s.pushAll [c]).Marks [] t ∧ c.Says label x z :=
  h.rewrite_of_premises hs hx hy hz hu.isPremise hv.isPremise

end Rule.IsTransitive

/-- What a store finds with one cell more, and none marked. -/
theorem Lines.find?_single {s t : Store} {c : Cell} (h : Lines [] s [c])
    (hmarks : (s.pushAll [c]).Marks [] t) (id : CellId) :
    t.find? id = if id = c.id then some c else s.find? id := by
  rw [hmarks.find, if_neg List.not_mem_nil]
  split
  · next hid => exact hid ▸ h.find?_mem List.mem_cons_self
  · next hid => exact Store.find?_push_old (h.id_eq (k := 0) rfl) hid

/-- A live cell over two points is an edge. -/
theorem Store.Consistent.answers {s : Store} (hs : s.Consistent) {label : String} {x y id : CellId}
    (hx : s.IsLivePoint x) (hy : s.IsLivePoint y) {c : Cell} (hc : s.find? id = some c)
    (hlive : c.isLive = true) (hlabel : c.label = label) (hboundary : c.boundary = [x, y]) :
    s.Answers label x y id := by
  obtain ⟨b, hb, f, hf, hdim⟩ := hs.sound.attained id c hc (hboundary ▸ List.cons_ne_nil _ _)
  have hzero : f.dimension = 0 := by
    have hpoint : s.IsLivePoint b := by
      rw [hboundary, List.mem_pair] at hb
      rcases hb with rfl | rfl
      · exact hx
      · exact hy
    obtain ⟨f', hf', hzero, _⟩ := hpoint
    cases hf.symm.trans hf'
    exact hzero
  exact ⟨c, hc, hlive, by rw [hdim, hzero], hlabel, hboundary⟩

section Applying

open Edit

variable {s : Store} {label : String}

/-- The transitive rule is written, and what is left is a reachable store. -/
theorem transitiveRule_reachable (hs : s.Reachable) (label : String) :
    ∃ root entries listings, Written s root entries listings ∧
      (transitiveRule label).applyTo s = (.ok root.id, ruleStore s root entries listings) ∧
      named entries = transitiveSaid label (fun k => s.nextId (k + 1)) ∧
      entries.map (·.2.dimension) = transitiveDimensions ∧
      (ruleStore s root entries listings).Reachable := by
  obtain ⟨root, entries, listings, hwritten, hrun, hnamed, hdims, _⟩ :=
    transitiveRule_written hs.consistent label
  exact ⟨root, entries, listings, hwritten, applyTo_eq hrun, hnamed, hdims,
    hs.of_edit (.transitiveRule label) rfl hrun⟩

/-- **The transitive rule works**: it can be written for every label, and applied to three points in
a row it makes the edge from the first to the last, and changes nothing else. -/
theorem transitiveRule_links (hs : s.Reachable) (hbind : label ≠ Label.bind)
    (hnobind : label ≠ Label.nobind) :
    ∃ rule t u, (transitiveRule label).applyTo s = (.ok rule, t) ∧
      Space.buildIndex.applyTo t = (.ok (), u) ∧
      ∀ x y z e f, u.IsLivePoint x → u.IsLivePoint y → u.IsLivePoint z →
        ∀ ce cf, u.find? e = some ce → ce.isLive = true → ce.label = label → ce.boundary = [x, y] →
          u.find? f = some cf → cf.isLive = true → cf.label = label → cf.boundary = [y, z] →
            ∃ c v, (Space.rewriteBy rule [x, y, z, e, f]).applyTo u = (.ok ⟨[c.id], []⟩, v) ∧
              c.isLive = true ∧ c.label = label ∧ c.boundary = [x, z] ∧ u.find? c.id = none ∧
              ∀ id, v.find? id = if id = c.id then some c else u.find? id := by
  obtain ⟨root, entries, listings, hwritten, hwrite, hnamed, hdims, hreach⟩ :=
    transitiveRule_reachable hs label
  obtain ⟨rule, hcompile, htransitive⟩ :=
    hwritten.compile_transitive hs.consistent hnamed hdims hbind hnobind
  have hu := hreach.buildIndex.consistent
  refine ⟨root.id, _, _, hwrite, Space.applyTo_buildIndex _, ?_⟩
  intro x y z e f hx hy hz ce cf hce helive helabel hebound hcf hflive hflabel hfbound
  obtain ⟨v, c, hrewrite, hlines, hmarks, hsay⟩ := htransitive.rewrite_ok hu hx hy hz
    (hu.answers hx hy hce helive helabel hebound) (hu.answers hy hz hcf hflive hflabel hfbound)
  refine ⟨c, v, ?_, hsay.isLive, hsay.label_eq, hsay.boundary, hlines.fresh (by simp),
    ?_⟩
  · rw [Space.applyTo_rewriteBy_ok hcompile]
    exact applyTo_eq hrewrite
  · exact hlines.find?_single hmarks

/-- Three points in a row, with a word of rules as label. -/
def wildRow : Store :=
  runAll (.empty 0) [.create "a" [], .create "b" [], .create "c" [],
    .create Label.wildcard [⟨0, 0⟩, ⟨0, 1⟩], .create Label.wildcard [⟨0, 1⟩, ⟨0, 2⟩]]

theorem transitiveRule_links_wildRow :
    ∃ rule t u v, ∃ c : Cell, (transitiveRule Label.wildcard).applyTo wildRow = (.ok rule, t) ∧
      Space.buildIndex.applyTo t = (.ok (), u) ∧
      (Space.rewriteBy rule [⟨0, 0⟩, ⟨0, 1⟩, ⟨0, 2⟩, ⟨0, 3⟩, ⟨0, 4⟩]).applyTo u =
        (.ok ⟨[c.id], []⟩, v) ∧
      c.label = Label.wildcard ∧ c.boundary = [⟨0, 0⟩, ⟨0, 2⟩] := by
  have hreach : wildRow.Reachable := (Store.Reachable.empty 0).runAll _
  obtain ⟨rule, t, u, hwrite, hindex, hlinks⟩ :=
    transitiveRule_links hreach (by decide : Label.wildcard ≠ Label.bind) (by decide)
  have hkept : ∀ {id cell}, wildRow.find? id = some cell → u.find? id = some cell := by
    intro id cell hcell
    obtain ⟨root, entries, listings, hwritten, hrun, _⟩ :=
      transitiveRule_reachable hreach Label.wildcard
    rw [hrun] at hwrite
    rw [Space.applyTo_buildIndex] at hindex
    cases hwrite
    cases hindex
    exact hwritten.lines.find?_kept hcell
  obtain ⟨c, v, hrewrite, _, hlabel, hboundary, _⟩ := hlinks ⟨0, 0⟩ ⟨0, 1⟩ ⟨0, 2⟩ ⟨0, 3⟩ ⟨0, 4⟩
    ⟨_, hkept rfl, rfl, rfl⟩ ⟨_, hkept rfl, rfl, rfl⟩ ⟨_, hkept rfl, rfl, rfl⟩ _ _ (hkept rfl) rfl
    rfl rfl (hkept rfl) rfl rfl rfl
  exact ⟨rule, t, u, v, c, hwrite, hindex, hrewrite, hlabel, hboundary⟩

end Applying

end CellComplex
