import CellComplex.Proofs.Rule.Compile

/-!
# Rules that are read later

A rule may be read long after it was written. What came in between -- other cells, cells that list
the cells of the rule, other rules -- makes reading fail or leaves it as it was, if every position
is bound: no cell is taken for one of the rule that is none.

* `Space.Keeps`: some cells are seen later as they were, and what lists them and was there before
  lists them still;
* `Keeps.listingOf`, `Keeps.readSlot`: what is read of a listing and of a bound position;
* `Lines.keeps`: a line of cells is kept by every run that neither relabels nor deletes one;
* **`Written.compile_later`**: a whole rule.
-/

namespace CellComplex

/-! ## 1. Cells that are kept -/

/-- **Some cells are seen later as they were**: their forms, labels and marks are the same, they
list each other only, and the later space indexes those of them that list a cell as the earlier one
does. -/
structure Space.Keeps (sp sp' : Space) (cells : List Cell) : Prop where
  find : ∀ c ∈ cells, sp.find? c.id = some c
  kept : ∀ c ∈ cells, ∃ d, sp'.find? c.id = some d ∧ d.form = c.form ∧ d.label = c.label ∧
    d.isLive = c.isLive
  closed : ∀ c ∈ cells, ∀ b ∈ c.boundary, ∃ d ∈ cells, d.id = b
  cofaces : ∀ c ∈ cells, ∀ x,
    x ∈ sp.cofacesOf c.id ↔ x ∈ sp'.cofacesOf c.id ∧ ∃ o ∈ cells, o.id = x
  lists : ∀ o ∈ cells, ∀ x, o.id ∈ sp'.cofacesOf x → x ∈ o.boundary

namespace Space.Keeps

variable {sp sp' : Space} {cells : List Cell} {c d o l l' : Cell} {label scaffold : String}
variable {x y b : CellId} (h : sp.Keeps sp' cells)
include h

theorem mem_cofacesLabeled (hc : c ∈ cells) :
    y ∈ sp.cofacesLabeled c.id label ↔
      y ∈ sp'.cofacesLabeled c.id label ∧ ∃ o ∈ cells, o.id = y := by
  rw [Space.mem_cofacesLabeled, Space.mem_cofacesLabeled, h.cofaces c hc]
  refine ⟨fun h' => ?_, fun h' => ?_⟩
  · obtain ⟨⟨hy, o, ho, rfl⟩, f, hf, hlive, hlabel⟩ := h'
    cases (h.find o ho).symm.trans hf
    obtain ⟨d, hd, _, hsame, hmark⟩ := h.kept o ho
    exact ⟨⟨hy, d, hd, hmark.trans hlive, hsame.trans hlabel⟩, o, ho, rfl⟩
  · obtain ⟨⟨hy, f, hf, hlive, hlabel⟩, o, ho, rfl⟩ := h'
    obtain ⟨d, hd, _, hsame, hmark⟩ := h.kept o ho
    cases hd.symm.trans hf
    exact ⟨⟨hy, o, ho, rfl⟩, o, h.find o ho, hmark.symm.trans hlive, hsame.symm.trans hlabel⟩

/-- **The listing of scaffolds is the same**, and so is their number. -/
theorem listingOf (hc : c ∈ cells) (hne : sp.cofacesLabeled c.id scaffold ≠ [])
    (hl : sp.listingOf (sp.cofacesLabeled c.id scaffold) label = .ok l)
    (hl' : sp'.listingOf (sp'.cofacesLabeled c.id scaffold) label = .ok l') :
    (sp'.cofacesLabeled c.id scaffold).length = (sp.cofacesLabeled c.id scaffold).length ∧
      l'.boundary = l.boundary := by
  obtain ⟨owner, hfind, hone⟩ := listingOf_holds hl
  obtain ⟨owner', hfind', hone'⟩ := listingOf_holds hl'
  -- one scaffold is enough to see that the listing is a cell of the line
  obtain ⟨x, hx⟩ := List.exists_mem_of_ne_nil _ hne
  obtain ⟨hx', o, ho, rfl⟩ := (h.mem_cofacesLabeled hc).mp hx
  obtain ⟨howner, m, hm, hid⟩ := (h.cofaces o ho owner).mp ((hone o.id hx owner).mpr rfl)
  obtain rfl : owner = owner' := (hone' o.id hx' owner).mp howner
  subst hid
  obtain ⟨d, hd, hform, _, _⟩ := h.kept m hm
  obtain rfl : m = l := Option.some.inj ((h.find m hm).symm.trans hfind)
  obtain rfl : d = l' := Option.some.inj (hd.symm.trans hfind')
  refine ⟨?_, congrArg Form.boundary hform⟩
  -- a scaffold that came later would be listed by it, and it lists older cells only
  refine ((List.perm_ext_iff_of_nodup cofacesLabeled_nodup cofacesLabeled_nodup).mpr
    fun y => ?_).length_eq
  rw [h.mem_cofacesLabeled hc]
  refine ⟨fun hy => ⟨hy, ?_⟩, fun hy => hy.1⟩
  exact h.closed m hm y (h.lists m hm y ((hone' y hy m.id).mpr rfl))

/-- A bind points to the same cell. -/
theorem bindTarget (ho : o ∈ cells) (hform : d.form = c.form) :
    sp'.bindTarget o.id d = sp.bindTarget o.id c := by
  obtain ⟨o', ho', hform', _, _⟩ := h.kept o ho
  have hid : d.id = c.id := congrArg Form.id hform
  have hdim : d.dimension = c.dimension := congrArg Form.dimension hform
  have hdim' : o'.dimension = o.dimension := congrArg Form.dimension hform'
  have hboundary : o'.boundary = o.boundary := congrArg Form.boundary hform'
  have htarget : ∀ b ∈ o.boundary, sp'.isBindTarget d.id b = sp.isBindTarget c.id b := by
    intro b hb
    obtain ⟨f, hf, rfl⟩ := h.closed o ho b hb
    obtain ⟨f', hf', _, hlabel, _⟩ := h.kept f hf
    simp only [isBindTarget, satisfies, h.find f hf, hf', Option.any_some, hid, hlabel]
  unfold Space.bindTarget
  rw [ho', h.find o ho]
  simp only [hdim, hdim', hboundary, List.filter_congr htarget]

/-- **A bound position that is read later was the same before.** -/
theorem readSlot {slot : PatternSlot} (hc : c ∈ cells) (hb : b ∈ sp.cofacesLabeled c.id Label.bind)
    (hslot : sp'.readSlot c.id = .ok slot) : sp.readSlot c.id = .ok slot := by
  obtain ⟨hb', o, ho, rfl⟩ := (h.mem_cofacesLabeled hc).mp hb
  obtain ⟨hone, d, target, hd, htarget⟩ := readSlot_holds hslot hb'
  obtain ⟨d', hd', hform, hlabel, _⟩ := h.kept c hc
  cases hd.symm.trans hd'
  have hread := readSlot_eq_ok hd (boundTo_of_one hone htarget)
  have hone₀ : sp.cofacesLabeled c.id Label.bind = [o.id] := by
    refine eq_singleton cofacesLabeled_nodup fun y => ⟨fun hy => ?_, fun hy => hy ▸ hb⟩
    have hy' := ((h.mem_cofacesLabeled hc).mp hy).1
    rw [hone] at hy'
    exact List.mem_singleton.mp hy'
  rw [h.bindTarget ho hform] at htarget
  rw [readSlot_eq_ok (h.find c hc) (boundTo_of_one hone₀ htarget), ← hslot, hread, hlabel,
    show d.dimension = c.dimension from congrArg Form.dimension hform]

end Space.Keeps

/-- **A line of cells is kept** by a store that extends it and neither relabels nor deletes one of
them, as long as the index is fresh. -/
theorem Lines.keeps {s u : Store} {cs : List Cell} (hs : s.Consistent) (h : Lines [] s cs)
    (hclosed : ∀ c ∈ cs, ∀ b ∈ c.boundary, ∃ d ∈ cs, d.id = b) (hu : u.Reachable)
    (hfresh : u.isStale = false) (hext : (s.pushAll cs).Extends u)
    (hkept : ∀ c ∈ cs, ∃ d, u.find? c.id = some d ∧ d.label = c.label ∧ d.deleted = c.deleted) :
    (Space.indexed (s.pushAll cs)).Keeps (.ofStore u) cs := by
  have hfind : ∀ c ∈ cs, ∃ d, u.find? c.id = some d ∧ d.form = c.form ∧ d.label = c.label ∧
      d.isLive = c.isLive := by
    intro c hc
    obtain ⟨d, hd, hlabel, hmark⟩ := hkept c hc
    obtain ⟨d', hd', hform, _⟩ := hext.find _ c (h.find?_mem hc)
    cases hd.symm.trans hd'
    exact ⟨d, hd, hform, hlabel, congrArg not hmark⟩
  have hboundary : ∀ {o d}, o ∈ cs → u.find? o.id = some d → d.boundary = o.boundary := by
    intro o d ho hd
    obtain ⟨d', hd', hform, _⟩ := hfind o ho
    cases hd.symm.trans hd'
    exact congrArg Form.boundary hform
  have hindex : ∀ {c x}, x ∈ (Space.ofStore u).cofacesOf c ↔ u.Coface c x :=
    hu.mem_cofacesOf hfresh
  refine ⟨fun c hc => (Space.find?_indexed _ _).trans (h.find?_mem hc), fun c hc => ?_, hclosed,
    fun c hc x => ?_, fun o ho x hx => ?_⟩
  · obtain ⟨d, hd, hd'⟩ := hfind c hc
    exact ⟨d, (Store.find?_ofStore u _).trans hd, hd'⟩
  · obtain ⟨f, hf, _, _, hlive⟩ := hfind c hc
    rw [h.mem_cofacesOf hs hc, hindex]
    refine ⟨fun h' => ?_, fun h' => ?_⟩
    · obtain ⟨o, ho, rfl, hlists⟩ := h'
      obtain ⟨d, hd, _, _, hlive'⟩ := hfind o ho
      have hmem : c.id ∈ d.boundary := hboundary ho hd ▸ hlists
      refine ⟨⟨⟨f, hf, hlive.trans (h.isLive hc)⟩, d, hd, hlive'.trans (h.isLive ho), ?_, hmem⟩, o,
        ho, rfl⟩
      refine Nat.one_le_iff_ne_zero.mpr fun hzero => ?_
      rw [(hu.consistent.sound.point_iff _ d hd).mp hzero] at hmem
      cases hmem
    · obtain ⟨⟨_, d, hd, _, _, hmem⟩, o, ho, rfl⟩ := h'
      exact ⟨o, ho, rfl, hboundary ho hd ▸ hmem⟩
  · obtain ⟨_, d, hd, _, _, hmem⟩ := hindex.mp hx
    exact hboundary ho hd ▸ hmem

/-! ## 2. Whole rules -/

section Written

variable {s : Store} {root : Cell} {entries : List (Clause × Cell)} {listings : List Listing}
variable {l : Listing} {listing : Cell} {sp' : Space} {n : Nat} {slots : List PatternSlot}
variable {product : List CellId} {r : Rule}

namespace Written

variable (h : Written s root entries listings)
variable (hclosed : ∀ e ∈ entries, ∀ b ∈ e.2.boundary, ∃ e' ∈ entries, e'.2.id = b)
variable (hs : s.Consistent)
variable (hkeeps : (Space.indexed (ruleStore s root entries listings)).Keeps sp'
  (ruleCells root entries listings))
include h hclosed hs hkeeps

/-- A side is read later as it was written. -/
theorem listing_later (hl : l ∈ listings)
    (hlater : sp'.listingOf (sp'.cofacesLabeled root.id l.side.scaffoldLabel)
      l.side.listingLabel = .ok listing) :
    (sp'.cofacesLabeled root.id l.side.scaffoldLabel).length = l.points.length ∧
      listing.boundary.drop l.points.length = l.listed := by
  obtain ⟨hne, hlength, hlisting, hdrop⟩ := h.read_listing hclosed hs hl rfl
  obtain ⟨hlength', hboundary⟩ :=
    hkeeps.listingOf (mem_ruleCells.mpr (Or.inl rfl)) hne hlisting hlater
  rw [hboundary, ← hlength]
  exact ⟨hlength', hdrop⟩

/-- The pattern is, if every position is bound. -/
theorem readPattern_later
    (hbound : ∀ x ∈ idsWhere (·.isListedOn .pattern) (named entries), ∃ y id,
      (Clause.bind x y, id) ∈ named entries)
    (hpattern : Rule.readPattern sp' root.id = .ok (n, slots)) :
    Rule.readPattern (.indexed (ruleStore s root entries listings)) root.id = .ok (n, slots) := by
  obtain ⟨ids, listing, rfl, hlisting, rfl, hslots⟩ := readPattern_holds hpattern
  obtain ⟨l, hl, hside⟩ := List.mem_map.mp h.pattern
  rw [← hside] at hlisting hslots ⊢
  obtain ⟨hlength, hdrop⟩ := h.listing_later hclosed hs hkeeps hl hlisting
  have hpoints := h.points l hl
  have hlisted := h.listed l hl
  rw [hside] at hpoints hlisted
  rw [hlength, hdrop, hlisted] at hslots
  rw [h.readPattern_eq hclosed hs, hlength, hpoints, Outcome.map_eq_ok]
  refine ⟨slots, Outcome.mapM_eq_ok.mpr ?_, rfl⟩
  have hall := Outcome.mapM_eq_ok.mp hslots
  refine ((List.forall₂_and_left _ _).mpr ⟨fun x hx => hx, hall⟩).imp fun x slot hslot => ?_
  obtain ⟨hx, hslot⟩ := hslot
  obtain ⟨y, id, hbind⟩ := hbound x hx
  obtain ⟨c, hc, _⟩ := mem_named.mp hbind
  obtain ⟨e, he, _, rfl⟩ := exists_entry hx
  obtain ⟨_, extra, _, hboundary, _⟩ := h.said.bind _ _ c hc
  have hlists : e.2.id ∈ c.boundary := by simp [hboundary]
  exact hkeeps.readSlot (mem_cells he) (h.mem_cofacesLabeled hs he hc hlists) hslot

/-- So is the product, if there is one. -/
theorem readProduct_later (hsome : idsWhere (·.isPointOf .product) (named entries) ≠ [])
    (hproduct : Rule.readProduct sp' root.id = .ok product) :
    product = productOf (named entries) := by
  obtain ⟨l, hl, hside⟩ := List.mem_map.mp ((h.side_iff .product).mpr hsome)
  have hlisted := h.listed l hl
  obtain ⟨hne, _, _, _⟩ := h.read_listing hclosed hs hl rfl
  rw [hside] at hne hlisted
  have hne' : sp'.cofacesLabeled root.id Side.product.scaffoldLabel ≠ [] := by
    obtain ⟨y, hy⟩ := List.exists_mem_of_ne_nil _ hne
    exact List.ne_nil_of_mem ((hkeeps.mem_cofacesLabeled (mem_ruleCells.mpr (Or.inl rfl))).mp hy).1
  obtain ⟨ids, listing, rfl, hlisting, rfl⟩ := readProduct_holds hproduct hne'
  rw [← hside] at hlisting ⊢
  obtain ⟨hlength, hdrop⟩ := h.listing_later hclosed hs hkeeps hl hlisting
  rw [hlength, hdrop, hlisted, productOf, if_neg hsome]

/-- **A rule that is read later was read before**, and is the same, if every position is bound and
something is made. -/
theorem compile_later (hsound : sp'.lookup.Sound)
    (hbound : ∀ x ∈ idsWhere (·.isListedOn .pattern) (named entries), ∃ y id,
      (Clause.bind x y, id) ∈ named entries)
    (hsome : idsWhere (·.isPointOf .product) (named entries) ≠ [])
    (hrule : Rule.compile sp' root.id = .ok r) :
    ∃ r₀, Rule.compile (.indexed (ruleStore s root entries listings)) root.id = .ok r₀ ∧
      r.points = r₀.points ∧ r.pattern = r₀.pattern ∧ r.product = r₀.product ∧
      ∀ x ∈ r.product, r.template? x = r₀.template? x := by
  obtain ⟨hpattern, hproduct, htemplates⟩ := compile_holds hrule
  have hpattern₀ := h.readPattern_later hclosed hs hkeeps hbound hpattern
  have hproduct₀ := h.readProduct_eq hclosed hs
  rw [← h.readProduct_later hclosed hs hkeeps hsome hproduct] at hproduct₀
  have hsound₀ : (Space.indexed (ruleStore s root entries listings)).lookup.Sound :=
    (h.lines.consistent hs).sound_indexed
  -- what is listed was written, and is seen by both
  have hmember : ∀ x ∈ r.product, ∃ c ∈ ruleCells root entries listings, c.id = x := by
    intro x hx
    rw [h.readProduct_later hclosed hs hkeeps hsome hproduct] at hx
    obtain ⟨e, he, _, hid⟩ := exists_entry (mem_of_mem_productOf hx)
    exact ⟨e.2, mem_cells he, hid⟩
  have hknown₀ : ∀ x ∈ r.product,
      ∃ c, (Space.indexed (ruleStore s root entries listings)).find? x = some c := by
    intro x hx
    obtain ⟨c, hc, rfl⟩ := hmember x hx
    exact ⟨c, hkeeps.find c hc⟩
  have hknown : ∀ x ∈ r.product, ∃ d, sp'.find? x = some d := by
    intro x hx
    obtain ⟨c, hc, rfl⟩ := hmember x hx
    obtain ⟨d, hd, _⟩ := hkeeps.kept c hc
    exact ⟨d, hd⟩
  obtain ⟨templates₀, htemplates₀, hfound₀⟩ := Space.templatesOf_eq_ok hsound₀ hknown₀
  obtain ⟨templates, htemplates', hfound⟩ := Space.templatesOf_eq_ok hsound hknown
  obtain rfl : r.templates = templates := Except.ok.inj (htemplates.symm.trans htemplates')
  refine ⟨_, compile_eq_ok (hkeeps.find root (mem_ruleCells.mpr (Or.inl rfl))) hpattern₀ hproduct₀
    htemplates₀, rfl, rfl, rfl, fun x hx => ?_⟩
  obtain ⟨c, hc, rfl⟩ := hmember x hx
  obtain ⟨d, hd, hform, hlabel, _⟩ := hkeeps.kept c hc
  have hshape : Template.ofCell d = Template.ofCell c := by
    rw [Template.ofCell, Template.ofCell, hlabel,
      show d.dimension = c.dimension from congrArg Form.dimension hform,
      show d.boundary = c.boundary from congrArg Form.boundary hform]
  show r.templates[c.id]? = templates₀[c.id]?
  rw [hfound _ hx d hd, hfound₀ _ hx c (hkeeps.find c hc), hshape]

end Written

end Written

end CellComplex
