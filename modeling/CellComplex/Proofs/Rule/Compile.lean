import CellComplex.Proofs.Rule.Reading
import CellComplex.Proofs.Rule.Telling
import CellComplex.Proofs.Search.Reach
import Mathlib.Data.List.Pairwise

/-!
# A written rule is read back

What is said of a rule clause by clause is what is read from its cells, whatever else the store
holds.

* `Reads`: what a position of the read pattern has to do with its clause;
* `Written.dimension_bind`: a bind is one dimension above its pattern cell, by induction on the
  dimension;
* `Written.mem_binds`, `Written.cofacesLabeled_bind`: a pattern cell has the binds of its clauses;
* **`Written.readSlot_eq`**: a position is read back, and what it is bound to;
* `Space.templatesOf_eq_ok`: the templates of known cells are found; `Space.exists_compile`: a rule
  is read when its sides are;
* `Written.compile_eq`: a whole rule;
* **`compile_tellRule`**: every rule that is told properly is read back.
-/

namespace CellComplex

/-! ## 1. Lists -/

/-- Elements with a common image are one, if no image comes twice. -/
theorem eq_of_filterMap_nodup {α β : Type} {f : α → Option β} {xs : List α} {a b : α} {v : β}
    (h : (xs.filterMap f).Nodup) (ha : a ∈ xs) (hb : b ∈ xs) (hfa : f a = some v)
    (hfb : f b = some v) : a = b := by
  have hpairs : xs.Pairwise fun a b => ∀ v, f a = some v → f b ≠ some v := by
    refine (List.pairwise_filterMap.mp h).imp fun {a b} hab v hfa hfb => ?_
    exact hab v hfa v hfb rfl
  have hsymm : Std.Symm fun a b : α => ∀ v, f a = some v → f b ≠ some v :=
    ⟨fun a b hab v hfb hfa => hab v hfa hfb⟩
  exact Classical.byContradiction fun hne => hpairs.forall ha hb hne v hfa hfb

/-! ## 2. Templates -/

namespace Space

variable {sp : Space} {product order : List CellId} {x : CellId} {c : Cell}
variable {templates : Std.TreeMap CellId Template}

theorem getElem?_enterTemplates (hc : sp.find? x = some c)
    (h : x ∈ order ∨ templates[x]? = some (.ofCell c)) :
    (order.foldl sp.enterTemplate templates)[x]? = some (.ofCell c) := by
  induction order generalizing templates with
  | nil => exact h.resolve_left List.not_mem_nil
  | cons y order ih =>
    rw [List.foldl_cons]
    refine ih ?_
    by_cases hxy : x = y
    · subst hxy
      right
      unfold enterTemplate
      rw [hc]
      exact Std.TreeMap.getElem?_insert_self
    · refine h.imp (fun hx => (List.mem_cons.mp hx).resolve_left hxy) fun hx => ?_
      unfold enterTemplate
      split
      · have hne : compare y x ≠ .eq := fun e => hxy (Std.LawfulEqCmp.compare_eq_iff_eq.mp e).symm
        rw [Std.TreeMap.getElem?_insert, if_neg hne, hx]
      · exact hx

/-- **The templates of known cells are found.** -/
theorem templatesOf_eq_ok (hs : sp.lookup.Sound)
    (hknown : ∀ x ∈ product, ∃ c, sp.find? x = some c) :
    ∃ templates, sp.templatesOf product = .ok templates ∧
      ∀ x ∈ product, ∀ c, sp.find? x = some c → templates[x]? = some (.ofCell c) := by
  -- what lies below a known cell is known
  have hreached : ∀ x, sp.cellsBelow.Reached product.reverse x →
      ∃ ids, sp.cellsBelow.next x = .ok ids := by
    intro x hx
    obtain ⟨start, hstart, hsteps⟩ := hx
    have hfound : ∃ c, sp.find? x = some c := by
      induction hsteps with
      | refl => exact hknown start (List.mem_reverse.mp hstart)
      | @tail y z _ hstep ih =>
        obtain ⟨ids, hnext, hz⟩ := hstep
        obtain ⟨c, hc⟩ := ih
        have hresolve : sp.resolve y = .ok c := Lookup.resolve_eq_ok.mpr hc
        have hids : ids = c.boundary.reverse := by
          have hnext' : (sp.resolve y).map (·.boundary.reverse) = .ok ids := hnext
          rw [hresolve] at hnext'
          exact (Except.ok.inj hnext').symm
        obtain ⟨f, hf, _⟩ := hs.lower y c hc z (List.mem_reverse.mp (hids ▸ hz))
        exact ⟨f, hf⟩
    obtain ⟨c, hc⟩ := hfound
    have hresolve : sp.resolve x = .ok c := Lookup.resolve_eq_ok.mpr hc
    refine ⟨c.boundary.reverse, ?_⟩
    show (sp.resolve x).map _ = _
    rw [hresolve]
    rfl
  obtain ⟨order, horder⟩ := Branching.preorder_isOk_iff.mpr hreached
  refine ⟨order.foldl sp.enterTemplate ∅, ?_, fun x hx c hc => ?_⟩
  · unfold templatesOf
    rw [horder]
    rfl
  · refine getElem?_enterTemplates hc (Or.inl ((Branching.mem_preorder horder).mpr ?_))
    exact Branching.reached_of_mem (List.mem_reverse.mpr hx)

/-- **A rule is read when its sides are**, if the cells of its product are known. -/
theorem exists_compile {rule : CellId} {root : Cell} {points : Nat} {slots : List PatternSlot}
    (hs : sp.lookup.Sound) (hroot : sp.find? rule = some root)
    (hpattern : Rule.readPattern sp rule = .ok (points, slots))
    (hproduct : Rule.readProduct sp rule = .ok product)
    (hknown : ∀ x ∈ product, ∃ c, sp.find? x = some c) :
    ∃ templates, Rule.compile sp rule = .ok ⟨rule, points, slots, product, templates⟩ ∧
      ∀ x ∈ product, ∀ c, sp.find? x = some c → templates[x]? = some (.ofCell c) := by
  obtain ⟨templates, htemplates, hfound⟩ := templatesOf_eq_ok hs hknown
  exact ⟨templates, compile_eq_ok hroot hpattern hproduct htemplates, hfound⟩

/-- The same of a reachable store. -/
theorem exists_compile_ofStore {s : Store} (rule : CellId) (points : Nat)
    (slots : List PatternSlot) (product : List CellId) (hs : s.Reachable)
    (hroot : (s.find? rule).isSome = true)
    (hpattern : Rule.readPattern (ofStore s) rule = .ok (points, slots))
    (hproduct : Rule.readProduct (ofStore s) rule = .ok product)
    (hknown : ∀ x ∈ product, (s.find? x).isSome = true) :
    ∃ r, Rule.compile (ofStore s) rule = .ok r ∧ r.points = points ∧ r.pattern = slots ∧
      r.product = product := by
  have hsound : (ofStore s).lookup.Sound := hs.consistent.sound_ofStore
  have hfind : ∀ {x}, (s.find? x).isSome = true → ∃ c, (ofStore s).find? x = some c := fun hx =>
    (Option.isSome_iff_exists.mp hx).imp fun _ hc => (Store.find?_ofStore s _).trans hc
  obtain ⟨root, hroot⟩ := hfind hroot
  obtain ⟨_, hcompile, _⟩ :=
    exists_compile hsound hroot hpattern hproduct fun x hx => hfind (hknown x hx)
  exact ⟨_, hcompile, rfl, rfl, rfl⟩

/-! ## 3. Binds -/

variable {y : CellId} {cell : Cell} {b : CellId}

/-- A bind points to the one face that is neither its pattern cell nor a marker. -/
theorem bindTarget_eq_ok (hc : sp.find? b = some c) (hdim : c.dimension = cell.dimension + 1)
    (htarget : c.boundary.filter (sp.isBindTarget cell.id) = [y]) :
    sp.bindTarget b cell = .ok y := by
  unfold bindTarget
  rw [hc]
  simp only [ne_eq, hdim, not_true_eq_false, if_false, htarget]

theorem boundTo_of_none (h : sp.cofacesLabeled x Label.bind = []) :
    sp.boundTo cell x = .ok none := by
  unfold boundTo
  rw [h]

theorem boundTo_of_one (h : sp.cofacesLabeled x Label.bind = [b])
    (htarget : sp.bindTarget b cell = .ok y) : sp.boundTo cell x = .ok (some y) := by
  unfold boundTo
  rw [h]
  simp only [htarget]
  rfl

theorem readSlot_eq_ok {bindsTo : Option CellId} (hc : sp.find? x = some c)
    (hbinds : sp.boundTo c x = .ok bindsTo) :
    sp.readSlot x = .ok ⟨x, c.dimension, .ofLabel c.label, bindsTo⟩ := by
  unfold readSlot
  rw [hc]
  simp only [hbinds]
  rfl

/-- Of a position that is read, a cell labelled as its bind is the only one and points to a cell. -/
theorem readSlot_holds {slot : PatternSlot} (h : sp.readSlot x = .ok slot)
    (hb : b ∈ sp.cofacesLabeled x Label.bind) :
    sp.cofacesLabeled x Label.bind = [b] ∧
      ∃ cell target, sp.find? x = some cell ∧ sp.bindTarget b cell = .ok target := by
  unfold readSlot at h
  split at h
  · cases h
  · next cell hcell =>
    obtain ⟨bindsTo, hbound, _⟩ := Outcome.bind_eq_ok.mp h
    unfold boundTo at hbound
    split at hbound
    · next hnone =>
      rw [hnone] at hb
      cases hb
    · next bind hone =>
      rw [hone] at hb
      obtain rfl := List.mem_singleton.mp hb
      obtain ⟨target, htarget, _⟩ := Outcome.map_eq_ok.mp hbound
      exact ⟨hone, cell, target, hcell, htarget⟩
    · cases hbound

/-- What a bind points to is one of its faces, and neither its pattern cell nor a marker. -/
theorem bindTarget_holds {target : CellId} (h : sp.bindTarget b cell = .ok target)
    (hc : sp.find? b = some c) : target ∈ c.boundary ∧ sp.isBindTarget cell.id target = true := by
  unfold bindTarget at h
  rw [hc] at h
  dsimp only at h
  split at h
  · cases h
  · split at h
    · next hone =>
      cases h
      exact List.mem_filter.mp (hone ▸ List.mem_singleton_self _)
    · cases h

end Space

/-- **What a position of the read pattern has to do with its clause**: it is the cell of the clause,
and it is bound to what the cell is bound to by another clause. -/
structure Reads (find : CellId → Option Cell) (said : List (Clause × CellId))
    (e : Clause × CellId) (slot : PatternSlot) : Prop where
  template : slot.template = e.2
  dimension : (find e.2).map Cell.dimension = some slot.dimension
  label : slot.label = if e.1.label = Label.wildcard then .any else .exact e.1.label
  bindsTo : ∀ r, slot.bindsTo = some r ↔ ∃ id, (Clause.bind e.2 r, id) ∈ said

/-- The positions are those of the clauses, in their order. -/
theorem templates_of_reads {find : CellId → Option Cell} {said es : List (Clause × CellId)}
    {slots : List PatternSlot} (h : List.Forall₂ (Reads find said) es slots) :
    slots.map PatternSlot.template = es.map Prod.snd := by
  induction h with
  | nil => rfl
  | cons hread _ ih => rw [List.map_cons, List.map_cons, hread.template, ih]

section Written

variable {s : Store} {root : Cell} {entries : List (Clause × Cell)} {listings : List Listing}
variable {e e' : Clause × Cell} {p r x y : CellId} {c : Cell}

namespace Written

variable (h : Written s root entries listings)
include h

/-- No two clauses have one cell. -/
theorem eq_of_id_eq (he : e ∈ entries) (he' : e' ∈ entries) (hid : e.2.id = e'.2.id) : e = e' := by
  have hnodup := h.lines.ids_nodup
  unfold ruleCells at hnodup
  rw [List.map_append, List.nodup_append, List.map_cons, List.nodup_cons, List.map_map] at hnodup
  exact List.inj_on_of_nodup_map hnodup.1.2 he he' hid

omit h in
theorem mem_cells (he : e ∈ entries) : e.2 ∈ ruleCells root entries listings :=
  mem_ruleCells.mpr (Or.inr (Or.inl ⟨e, he, rfl⟩))

theorem find?_entry (he : e ∈ entries) :
    (ruleStore s root entries listings).find? e.2.id = some e.2 :=
  h.lines.find?_mem (mem_cells he)

/-- Who lists the cell of a clause is found under its label. -/
theorem mem_cofacesLabeled (hs : s.Consistent) (he : e ∈ entries) (he' : e' ∈ entries)
    (hlists : e.2.id ∈ e'.2.boundary) :
    e'.2.id ∈ (Space.indexed (ruleStore s root entries listings)).cofacesLabeled e.2.id
      e'.1.label := by
  rw [Space.mem_cofacesLabeled_indexed hs h.lines (mem_cells he)]
  exact ⟨e'.2, mem_cells he', rfl, h.said.label e' he', hlists⟩

variable (hproper : Proper (ruleStore s root entries listings).find? (named entries))
include hproper

/-- **The binds of a pattern cell are those that clauses make of it.** -/
theorem mem_binds (hs : s.Consistent) (he : e ∈ entries) (hside : e.1.side? = some .pattern) :
    y ∈ (Space.indexed (ruleStore s root entries listings)).cofacesLabeled e.2.id
        Label.bind ↔ ∃ r c, (Clause.bind e.2.id r, c) ∈ entries ∧ c.id = y := by
  rw [Space.mem_cofacesLabeled_indexed hs h.lines (mem_cells he)]
  refine ⟨fun h' => ?_, fun h' => ?_⟩
  · obtain ⟨o, ho, rfl, hlabel, hlists⟩ := h'
    rcases mem_ruleCells.mp ho with rfl | ⟨e', he', rfl⟩ | ⟨l, hl, ho | rfl⟩
    · rw [h.root_boundary] at hlists
      cases hlists
    · rw [h.said.label e' he'] at hlabel
      cases hside' : e'.1.side? with
      | some side =>
        have hplain := hproper.plain _ (mem_named.mpr ⟨e'.2, he', rfl⟩) (by simp [hside'])
        exact absurd hlabel hplain.1
      | none =>
        obtain ⟨p, r, hclause⟩ := Clause.eq_bind_of_side? hside'
        have hentry : (Clause.bind p r, e'.2) ∈ entries := hclause ▸ he'
        obtain ⟨_, hreplacement, _⟩ := hproper.bind p r _ (mem_named.mpr ⟨e'.2, hentry, rfl⟩)
        obtain ⟨cell, extra, _, hboundary, hextra⟩ := h.said.bind p r e'.2 hentry
        rw [hboundary] at hlists
        rcases List.mem_cons.mp hlists with hid | hlists
        · exact ⟨r, e'.2, hid ▸ hentry, rfl⟩
        rcases List.mem_cons.mp hlists with hid | hlists
        · -- what a bind points to is on the other side
          obtain ⟨e'', he'', hproduct, hid'⟩ := mem_idsOf.mp hreplacement
          obtain rfl := h.eq_of_id_eq he he'' (hid.trans hid'.symm)
          rw [hside] at hproduct
          cases hproduct
        · -- and the other faces are binds
          obtain ⟨_, _, r', c', hc', hid⟩ := hextra _ hlists
          obtain rfl := h.eq_of_id_eq he hc' hid.symm
          cases hside
    · rw [(h.boundary_scaffold hl ho).1] at hlabel
      exact absurd hlabel (Side.scaffoldLabel_ne_bind l.side)
    · rw [(h.ties l hl).label] at hlabel
      exact absurd hlabel (Side.listingLabel_ne_bind l.side)
  · obtain ⟨r, c, hc, rfl⟩ := h'
    obtain ⟨cell, extra, _, hboundary, _⟩ := h.said.bind _ r c hc
    have hlists : e.2.id ∈ c.boundary := by simp [hboundary]
    exact ⟨c, mem_cells hc, rfl, h.said.label _ hc, hlists⟩

/-- **A bind is one dimension above its pattern cell**, since the binds that it lists are those of
lower cells. -/
theorem dimension_bind (hsound : (ruleStore s root entries listings).lookup.Sound)
    {cell : Cell} (hentry : (Clause.bind p r, c) ∈ entries)
    (hcell : (ruleStore s root entries listings).find? p = some cell) :
    c.dimension = cell.dimension + 1 := by
  -- by induction on the dimension of the pattern cell
  induction hn : cell.dimension using Nat.strongRecOn generalizing p r c cell with
  | ind n ih =>
    subst hn
    obtain ⟨_, _, hsame⟩ := hproper.bind p r _ (mem_named.mpr ⟨c, hentry, rfl⟩)
    obtain ⟨cell', extra, hcell', hboundary, hextra⟩ := h.said.bind p r c hentry
    cases hcell.symm.trans hcell'
    have hc := h.find?_entry hentry
    have hle : ∀ b ∈ c.boundary, ∀ f,
        (ruleStore s root entries listings).find? b = some f →
          f.dimension ≤ cell.dimension := by
      intro b hb f hf
      rw [hboundary] at hb
      rcases List.mem_cons.mp hb with rfl | hb
      · cases hcell.symm.trans hf
        exact Nat.le_refl _
      rcases List.mem_cons.mp hb with rfl | hb
      · rw [hcell, hf] at hsame
        exact Nat.le_of_eq (Option.some.inj hsame).symm
      · obtain ⟨face, hface, r', c', hc', rfl⟩ := hextra b hb
        cases (h.find?_entry hc').symm.trans hf
        obtain ⟨f, hf', hlt⟩ := hsound.lower p cell hcell face hface
        rw [ih f.dimension hlt hc' hf' rfl]
        exact hlt
    have hp : p ∈ c.boundary := by simp [hboundary]
    obtain ⟨f, hf, hlt⟩ := hsound.lower _ c hc p hp
    cases hcell.symm.trans hf
    obtain ⟨b, hb, f, hf, hdim⟩ := hsound.attained _ c hc (List.ne_nil_of_mem hp)
    have hle' := hle b hb f hf
    omega

/-- What a bind points to is found. -/
theorem bindTarget_eq (hsound : (ruleStore s root entries listings).lookup.Sound)
    (hentry : (Clause.bind p r, c) ∈ entries) {cell : Cell}
    (hcell : (ruleStore s root entries listings).find? p = some cell) :
    (Space.indexed (ruleStore s root entries listings)).bindTarget c.id cell = .ok r := by
  obtain ⟨hpattern, hreplacement, _⟩ := hproper.bind p r _ (mem_named.mpr ⟨c, hentry, rfl⟩)
  obtain ⟨e, he, hside, rfl⟩ := mem_idsOf.mp hpattern
  obtain ⟨e', he', hside', rfl⟩ := mem_idsOf.mp hreplacement
  obtain ⟨cell', extra, hcell', hboundary, hextra⟩ := h.said.bind _ _ c hentry
  cases hcell.symm.trans hcell'
  cases hcell.symm.trans (h.find?_entry he)
  refine Space.bindTarget_eq_ok (h.find?_indexed (mem_cells hentry))
    (h.dimension_bind hproper hsound hentry hcell) ?_
  have hself : Space.isBindTarget (Space.indexed (ruleStore s root entries listings))
      e.2.id e.2.id = false := by simp [Space.isBindTarget]
  have htarget : Space.isBindTarget (Space.indexed (ruleStore s root entries listings))
      e.2.id e'.2.id = true := by
    have hne : e'.2.id ≠ e.2.id := by
      intro hid
      obtain rfl := h.eq_of_id_eq he' he hid
      rw [hside] at hside'
      cases hside'
    have hplain := hproper.plain _ (mem_named.mpr ⟨e'.2, he', rfl⟩) (by simp [hside'])
    simp [Space.isBindTarget, Space.satisfies, h.find?_indexed (mem_cells he'),
      h.said.label e' he', hne, hplain]
  have hrest : ∀ x ∈ extra, Space.isBindTarget
      (Space.indexed (ruleStore s root entries listings)) e.2.id x = false := by
    intro x hx
    obtain ⟨_, _, r', c', hc', rfl⟩ := hextra x hx
    have hlabel : c'.label = Label.bind := h.said.label _ hc'
    simp [Space.isBindTarget, Space.satisfies, h.find?_indexed (mem_cells hc'), hlabel]
  have hnone : extra.filter (Space.isBindTarget
      (Space.indexed (ruleStore s root entries listings)) e.2.id) = [] :=
    List.filter_eq_nil_iff.mpr fun x hx => by simp [hrest x hx]
  rw [hboundary, List.filter_cons, List.filter_cons, hself, htarget, hnone]
  rfl

/-- A pattern cell has one bind. -/
theorem bind_unique {r' : CellId} {c' : Cell} (hentry : (Clause.bind p r, c) ∈ entries)
    (hentry' : (Clause.bind p r', c') ∈ entries) : r' = r ∧ c' = c := by
  have hmem := mem_named.mpr ⟨c, hentry, rfl⟩
  have hmem' := mem_named.mpr ⟨c', hentry', rfl⟩
  have hsame := eq_of_filterMap_nodup hproper.once hmem' hmem rfl rfl
  obtain ⟨hclause, hid⟩ := Prod.mk.inj hsame
  have hpair := h.eq_of_id_eq hentry' hentry hid
  exact ⟨(Clause.bind.inj hclause).2, (Prod.mk.inj hpair).2⟩

/-- It is found under the label of binds, alone. -/
theorem cofacesLabeled_bind (hs : s.Consistent) (he : e ∈ entries)
    (hside : e.1.side? = some .pattern) (hentry : (Clause.bind e.2.id r, c) ∈ entries) :
    (Space.indexed (ruleStore s root entries listings)).cofacesLabeled e.2.id Label.bind =
      [c.id] := by
  refine eq_singleton Space.cofacesLabeled_nodup fun y => ?_
  rw [h.mem_binds hproper hs he hside]
  refine ⟨fun h' => ?_, fun hy => ⟨r, c, hentry, hy.symm⟩⟩
  obtain ⟨r', c', hentry', rfl⟩ := h'
  rw [(h.bind_unique hproper hentry hentry').2]

/-- **A position is read back**, and what it is bound to. -/
theorem readSlot_eq (hs : s.Consistent) (he : e ∈ entries) (hside : e.1.side? = some .pattern) :
    ∃ slot, (Space.indexed (ruleStore s root entries listings)).readSlot e.2.id =
        .ok slot ∧
      Reads (ruleStore s root entries listings).find? (named entries) (e.1, e.2.id)
        slot := by
  have hsound := (h.lines.consistent hs).sound
  have hfind := h.find?_entry he
  have hfind' := h.find?_indexed (mem_cells he)
  have hlabel : LabelPattern.ofLabel e.2.label =
      if e.1.label = Label.wildcard then .any else .exact e.1.label := by
    rw [h.said.label e he]
    rfl
  have hreads : ∀ bindsTo, (∀ r, bindsTo = some r ↔
      ∃ id, (Clause.bind e.2.id r, id) ∈ named entries) →
        Reads (ruleStore s root entries listings).find? (named entries) (e.1, e.2.id)
          ⟨e.2.id, e.2.dimension, .ofLabel e.2.label, bindsTo⟩ :=
    fun bindsTo hbinds => ⟨rfl, by rw [hfind]; rfl, hlabel, hbinds⟩
  by_cases hbound : ∃ r c, (Clause.bind e.2.id r, c) ∈ entries
  · obtain ⟨r, c, hentry⟩ := hbound
    have hone := h.cofacesLabeled_bind hproper hs he hside hentry
    refine ⟨_, Space.readSlot_eq_ok hfind' (Space.boundTo_of_one hone
      (h.bindTarget_eq hproper hsound hentry hfind)), hreads _ fun r' => ?_⟩
    refine ⟨fun hr => ⟨c.id, mem_named.mpr ⟨c, Option.some.inj hr ▸ hentry, rfl⟩⟩, fun h' => ?_⟩
    obtain ⟨id, hid⟩ := h'
    obtain ⟨c', hentry', _⟩ := mem_named.mp hid
    rw [(h.bind_unique hproper hentry hentry').1]
  · have hnone : (Space.indexed (ruleStore s root entries listings)).cofacesLabeled
        e.2.id Label.bind = [] := by
      refine List.eq_nil_iff_forall_not_mem.mpr fun y hy => hbound ?_
      obtain ⟨r, c, hentry, _⟩ := (h.mem_binds hproper hs he hside).mp hy
      exact ⟨r, c, hentry⟩
    refine ⟨_, Space.readSlot_eq_ok hfind' (Space.boundTo_of_none hnone), hreads _ fun r => ?_⟩
    refine iff_of_false (fun hr => by cases hr) fun h' => hbound ?_
    obtain ⟨id, hid⟩ := h'
    obtain ⟨c, hentry, _⟩ := mem_named.mp hid
    exact ⟨r, c, hentry⟩

/-! ## 4. Rules -/

/-- All positions are read back. -/
theorem readSlots_eq (hs : s.Consistent) :
    ∃ slots, (idsWhere (·.isListedOn .pattern) (named entries)).mapM
        (Space.indexed (ruleStore s root entries listings)).readSlot = .ok slots ∧
      List.Forall₂ (Reads (ruleStore s root entries listings).find? (named entries))
        ((named entries).filter fun e => e.1.side? = some .pattern) slots := by
  have hlisted : idsWhere (·.isListedOn .pattern) (named entries) =
      ((named entries).filter fun e => e.1.side? = some .pattern).map Prod.snd := by
    unfold idsWhere
    simp only [Clause.isListedOn_pattern]
  rw [hlisted]
  refine Outcome.exists_mapM fun e he => ?_
  obtain ⟨he, hside⟩ := List.mem_filter.mp he
  obtain ⟨e', he', rfl⟩ := List.mem_map.mp he
  exact h.readSlot_eq hproper hs he' (of_decide_eq_true hside)

/-- **A whole rule is read back.** -/
theorem compile_eq (hs : s.Consistent) :
    ∃ rule, Rule.compile (.indexed (ruleStore s root entries listings)) root.id = .ok rule ∧
      rule.points = (idsWhere (·.isPointOf .pattern) (named entries)).length ∧
      List.Forall₂ (Reads (ruleStore s root entries listings).find? (named entries))
        ((named entries).filter fun e => e.1.side? = some .pattern) rule.pattern ∧
      rule.product = productOf (named entries) ∧
      ∀ e ∈ entries, e.2.id ∈ rule.product → rule.template? e.2.id = some (.ofCell e.2) := by
  have hclosed := hproper.closed h.said
  have hsound : (Space.indexed (ruleStore s root entries listings)).lookup.Sound :=
    (h.lines.consistent hs).sound_indexed
  obtain ⟨slots, hslots, hreads⟩ := h.readSlots_eq hproper hs
  have hpattern := h.readPattern_eq hclosed hs
  rw [hslots] at hpattern
  have hproduct := h.readProduct_eq hclosed hs
  have hknown : ∀ x ∈ productOf (named entries),
      ∃ c, (Space.indexed (ruleStore s root entries listings)).find? x = some c := by
    intro x hx
    obtain ⟨e, he, _, rfl⟩ := exists_entry (mem_of_mem_productOf hx)
    exact ⟨e.2, h.find?_indexed (mem_cells he)⟩
  obtain ⟨templates, hcompile, hfound⟩ := Space.exists_compile hsound
    (h.find?_indexed (mem_ruleCells.mpr (Or.inl rfl))) hpattern hproduct hknown
  exact ⟨_, hcompile, rfl, hreads, rfl,
    fun e he hmem => hfound _ hmem _ (h.find?_indexed (mem_cells he))⟩

end Written

end Written

/-- Writes a rule clause by clause, and gives the ids of the cells of the clauses and the rule
cell. -/
def tellRule (name : String) (clauses : List Clause) : Edit (List CellId × CellId) := do
  let draft ← RuleDraft.start name
  let (ids, draft) ← sayAll clauses draft
  let rule ← draft.finish
  return (ids, rule)

section Told

open Edit

variable {s t : Store} {name : String} {clauses : List Clause} {ids : List CellId} {rule : CellId}

/-- What a rule that was told leaves in the store. -/
theorem written_of_tellRule (h : (tellRule name clauses).applyTo s = (.ok (ids, rule), t)) :
    ∃ root entries listings, Written s root entries listings ∧ rule = root.id ∧
      t = ruleStore s root entries listings ∧ entries.map Prod.fst = clauses ∧
      entries.map (·.2.id) = ids := by
  unfold applyTo at h
  obtain ⟨hresult, rfl⟩ := Prod.mk.inj h
  have hrun : (tellRule name clauses).apply (.ofStore s) =
      (.ok (ids, rule), ((tellRule name clauses).apply (.ofStore s)).2) := Prod.ext hresult rfl
  generalize ((tellRule name clauses).apply (.ofStore s)).2 = sp at hrun
  obtain ⟨draft, mid, hstart, hrun⟩ := apply_bind_eq_ok.mp hrun
  obtain ⟨⟨ids', draft'⟩, mid', hsay, hrun⟩ := apply_bind_eq_ok.mp hrun
  obtain ⟨rule', mid'', hfinish, hrun⟩ := apply_bind_eq_ok.mp hrun
  obtain ⟨hpair, rfl⟩ := apply_pure_eq_ok.mp hrun
  cases hpair
  obtain ⟨root, hdrafted, rfl⟩ := drafted_start hstart
  obtain ⟨entries, hdrafted, hclauses, hids, rfl⟩ := hdrafted.sayAll hsay
  rw [List.nil_append] at hdrafted hfinish
  obtain ⟨listings, hwritten, hrule, rfl⟩ := hdrafted.finish hfinish
  exact ⟨root, entries, listings, hwritten, hrule, rfl, hclauses, hids⟩

theorem apply_tellRule_ok {draft draft' : RuleDraft} {sp sp₁ sp₂ sp₃ : Space}
    (hstart : (RuleDraft.start name).apply sp = (.ok draft, sp₁))
    (hsay : (sayAll clauses draft).apply sp₁ = (.ok (ids, draft'), sp₂))
    (hfinish : draft'.finish.apply sp₂ = (.ok rule, sp₃)) :
    (tellRule name clauses).apply sp = (.ok (ids, rule), sp₃) := by
  unfold tellRule
  rw [apply_bind_ok hstart, apply_bind_ok hsay, apply_bind_ok hfinish]
  rfl

theorem named_eq_zip {entries : List (Clause × Cell)} (hclauses : entries.map Prod.fst = clauses)
    (hids : entries.map (·.2.id) = ids) : named entries = clauses.zip ids := by
  refine List.zip_of_prod ?_ ?_
  · rw [← hclauses, named, List.map_map]
    rfl
  · rw [← hids, named, List.map_map]
    rfl

theorem length_idsWhere {p : Clause → Bool} {entries : List (Clause × Cell)}
    (hclauses : entries.map Prod.fst = clauses) :
    (idsWhere p (named entries)).length = clauses.countP p := by
  rw [idsWhere, List.length_map, ← List.countP_eq_length_filter, named, List.countP_map, ← hclauses,
    List.countP_map]
  rfl

/-- **Every rule that is told properly is read back**: as many points as were told, and the cells of
the pattern in the order in which they were told. -/
theorem compile_tellRule (hs : s.Reachable)
    (htold : (tellRule name clauses).applyTo s = (.ok (ids, rule), t))
    (hproper : Proper t.find? (clauses.zip ids)) :
    ∃ u r, Space.buildIndex.applyTo t = (.ok (), u) ∧ Rule.compile (.ofStore u) rule = .ok r ∧
      r.points = clauses.countP (·.isPointOf .pattern) ∧
      List.Forall₂ (Reads t.find? (clauses.zip ids))
        ((clauses.zip ids).filter fun e => e.1.side? = some .pattern) r.pattern := by
  obtain ⟨root, entries, listings, hwritten, rfl, rfl, hclauses, hids⟩ := written_of_tellRule htold
  have hnamed := named_eq_zip hclauses hids
  rw [← hnamed] at hproper ⊢
  obtain ⟨r, hr, hpoints, hreads, _⟩ := hwritten.compile_eq hproper hs.consistent
  exact ⟨_, r, Space.applyTo_buildIndex _, hr, hpoints.trans (length_idsWhere hclauses), hreads⟩

/-- A point whose label is a word of rules. -/
def bindPoint : Store := runAll (.empty 0) [.create Label.bind []]

/-- "One point is kept, another one goes": the first point is bound, the second is not. -/
def keepClauses : List Clause :=
  [.patternPoint "a", .patternPoint Label.wildcard, .replacementPoint "a", .bind ⟨0, 2⟩ ⟨0, 4⟩]

theorem tellRule_keepClauses : ∃ t, (tellRule "keep" keepClauses).applyTo bindPoint =
    (.ok ([⟨0, 2⟩, ⟨0, 3⟩, ⟨0, 4⟩, ⟨0, 5⟩], ⟨0, 1⟩), t) ∧
      (t.find? ⟨0, 2⟩).map Cell.dimension = some 0 ∧
      (t.find? ⟨0, 4⟩).map Cell.dimension = some 0 := by
  have hreach : bindPoint.Reachable := (Store.Reachable.empty 0).runAll _
  have hs := hreach.consistent
  obtain ⟨root, h, hroot, hstart⟩ := start_ok bindPoint "keep"
  obtain ⟨p, hp, hp0⟩ := h.tells_point (.patternPoint "a") rfl
  obtain ⟨q, hq, _⟩ := hp.drafted.tells_point (.patternPoint Label.wildcard) rfl
  obtain ⟨r, hr, hr0⟩ := hq.drafted.tells_point (.replacementPoint "a") rfl
  obtain ⟨b, hb, _⟩ := hr.drafted.tells_bind_point hs (p := p) (r := r) (by simp) hp0 (by simp) hr0
  obtain ⟨listings, hwritten, hfinish⟩ := hb.drafted.finish_ok hs (List.cons_ne_nil _ _) (by
    intro side x hx
    cases side with
    | pattern => exact ⟨x, hx, .refl, hb.drafted.isPoint_of_pointsOf hs .pattern hx⟩
    | product => cases hx)
  have hsay := hp.apply_sayAll <| hq.apply_sayAll <| hr.apply_sayAll <|
    hb.apply_sayAll apply_sayAll_nil
  have hpfind := hwritten.find?_entry (e := (.patternPoint "a", p)) (by simp)
  have hrfind := hwritten.find?_entry (e := (.replacementPoint "a", r)) (by simp)
  obtain ⟨t, hrun, hpfind, hrfind⟩ : ∃ t, (tellRule "keep" _).apply (.ofStore bindPoint) =
      (.ok ([p.id, q.id, r.id, b.id], root.id), .ofStore t) ∧ t.find? p.id = some p ∧
        t.find? r.id = some r := ⟨_, apply_tellRule_ok hstart hsay hfinish, hpfind, hrfind⟩
  have hpid : p.id = ⟨0, 2⟩ := hp.id_eq
  have hqid : q.id = ⟨0, 3⟩ := hq.id_eq
  have hrid : r.id = ⟨0, 4⟩ := hr.id_eq
  have hbid : b.id = ⟨0, 5⟩ := hb.id_eq
  have hrootid : root.id = ⟨0, 1⟩ := hroot
  rw [hpid, hqid, hrid, hbid, hrootid] at hrun
  rw [hpid] at hpfind
  rw [hrid] at hrfind
  refine ⟨t, ?_, ?_, ?_⟩
  · exact applyTo_eq hrun
  · rw [hpfind]
    exact congrArg some hp0
  · rw [hrfind]
    exact congrArg some hr0

/-- The rule is read back from a store in which another point is labelled like a bind. -/
theorem compile_tellRule_keepClauses :
    ∃ t u r, (tellRule "keep" keepClauses).applyTo bindPoint =
        (.ok ([⟨0, 2⟩, ⟨0, 3⟩, ⟨0, 4⟩, ⟨0, 5⟩], ⟨0, 1⟩), t) ∧
      Space.buildIndex.applyTo t = (.ok (), u) ∧ Rule.compile (.ofStore u) ⟨0, 1⟩ = .ok r ∧
      r.points = 2 ∧ r.pattern.map PatternSlot.template = [⟨0, 2⟩, ⟨0, 3⟩] := by
  obtain ⟨t, htold, hp, hr⟩ := tellRule_keepClauses
  have hproper : Proper t.find? (keepClauses.zip [⟨0, 2⟩, ⟨0, 3⟩, ⟨0, 4⟩, ⟨0, 5⟩]) := by
    refine ⟨by decide, fun e he _ _ b hb => ?_, fun pattern replacement id hmem => ?_, by decide⟩
    · have hnil : ∀ e ∈ keepClauses.zip [⟨0, 2⟩, ⟨0, 3⟩, ⟨0, 4⟩, (⟨0, 5⟩ : CellId)],
          e.1.boundary = [] := by decide
      rw [hnil e he] at hb
      cases hb
    · have hbind : pattern = ⟨0, 2⟩ ∧ replacement = ⟨0, 4⟩ ∧ id = ⟨0, 5⟩ := by
        simpa [keepClauses, and_assoc] using hmem
      obtain ⟨rfl, rfl, rfl⟩ := hbind
      exact ⟨by decide, by decide, hp.trans hr.symm⟩
  have hreach : bindPoint.Reachable := (Store.Reachable.empty 0).runAll _
  obtain ⟨u, r, hindex, hr, hpoints, hreads⟩ := compile_tellRule hreach htold hproper
  exact ⟨t, u, r, htold, hindex, hr, hpoints, templates_of_reads hreads⟩

end Told

end CellComplex
