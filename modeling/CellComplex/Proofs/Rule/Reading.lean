import CellComplex.Proofs.Rule.Draft
import CellComplex.Rule.Compile

/-!
# Reading the listings of a rule

A rule is read back by labels and through the index alone, so no cell of a rule may be taken for
another one. What keeps them apart is who lists whom:

* `Space.listingOf_eq`: a listing is found if it is the only coface of each of its scaffolds;
  `Space.listingOf_holds`, `compile_holds` are converses;
* `Proper`: what the clauses of a rule must keep to; `Said.closed`: when their cells list cells of
  clauses only;
* `Written.lists_root_iff`: scaffolds list the rule cell, and cells of clauses that name it;
  **`Written.lists_root`**, **`Written.lists_scaffold`**: so only scaffolds do if no clause names
  it, and only their listing lists scaffolds;
* **`Written.read_listing`**: each side is read back, points and cells;
* `Written.readPattern_eq`, `Written.readProduct_eq`: the same for a whole rule;
  `Written.readSlot_isOk`: of a rule that is read, every position is.
-/

namespace CellComplex

/-! ## 1. Sets with one member -/

theorem eq_singleton {ids : List CellId} {x : CellId} (hnodup : ids.Nodup)
    (h : ∀ y, y ∈ ids ↔ y = x) : ids = [x] := by
  have hperm : ids.Perm [x] := (List.perm_ext_iff_of_nodup hnodup (List.nodup_singleton x)).mpr
    fun y => (h y).trans List.mem_singleton.symm
  exact List.perm_singleton.mp hperm

namespace Space

variable {sp : Space} {x y owner : CellId} {label : String} {c listing : Cell}
variable {scaffolds : List CellId}

/-! ## 2. Listings -/

theorem mem_cofacesLabeled : y ∈ sp.cofacesLabeled x label ↔
    y ∈ sp.cofacesOf x ∧ ∃ c, sp.find? y = some c ∧ c.isLive = true ∧ c.label = label := by
  unfold cofacesLabeled satisfies
  rw [List.mem_filter, Std.TreeSet.mem_toList, Option.any_eq_true]
  simp only [Bool.and_eq_true, beq_iff_eq]

theorem cofacesLabeled_nodup : (sp.cofacesLabeled x label).Nodup :=
  (toList_nodup (sp.cofacesOf x)).filter _

/-- The cofaces of a cell in a line that carry a label are the cells of the line that do and list
it. -/
theorem mem_cofacesLabeled_indexed {s : Store} {cs : List Cell} (hs : s.Consistent)
    (h : Lines [] s cs) (hc : c ∈ cs) :
    y ∈ (indexed (s.pushAll cs)).cofacesLabeled c.id label ↔
      ∃ o ∈ cs, o.id = y ∧ o.label = label ∧ c.id ∈ o.boundary := by
  rw [mem_cofacesLabeled, h.mem_cofacesOf hs hc, find?_indexed]
  refine ⟨fun h' => ?_, fun h' => ?_⟩
  · obtain ⟨⟨o, ho, rfl, hlists⟩, d, hd, _, hlabel⟩ := h'
    cases (h.find?_mem ho).symm.trans hd
    exact ⟨o, ho, rfl, hlabel, hlists⟩
  · obtain ⟨o, ho, rfl, hlabel, hlists⟩ := h'
    exact ⟨⟨o, ho, rfl, hlists⟩, o, h.find?_mem ho, h.isLive ho, hlabel⟩

/-- A common coface that is the only one of each cell is found. -/
theorem commonCoface_eq (h : ∀ x ∈ scaffolds, ∀ y, y ∈ sp.cofacesOf x ↔ y = owner)
    {before : Option CellId} (hbefore : ∀ o, before = some o → o = owner)
    (hsome : scaffolds ≠ [] ∨ before = some owner) :
    sp.commonCoface label before scaffolds = .ok (some owner) := by
  induction scaffolds generalizing before with
  | nil => rw [commonCoface, hsome.resolve_left fun h => h rfl]
  | cons scaffold rest ih =>
    have hone : (sp.cofacesOf scaffold).toList = [owner] := by
      refine eq_singleton (toList_nodup _) fun y => ?_
      rw [Std.TreeSet.mem_toList]
      exact h scaffold List.mem_cons_self y
    have hsame : before.any (· != owner) = false := by
      cases before with
      | none => rfl
      | some o => simp [hbefore o rfl]
    unfold commonCoface
    rw [hone]
    simp only [hsame]
    exact ih (fun x hx => h x (List.mem_cons_of_mem _ hx)) (fun o ho => (Option.some.inj ho).symm)
      (Or.inr rfl)

/-- **A listing is found if it is the only coface of each of its scaffolds.** -/
theorem listingOf_eq (h : ∀ x ∈ scaffolds, ∀ y, y ∈ sp.cofacesOf x ↔ y = owner)
    (hne : scaffolds ≠ []) (hc : sp.find? owner = some c) (hlabel : c.label = label) :
    sp.listingOf scaffolds label = .ok c := by
  have hcommon : sp.commonCoface label none scaffolds = .ok (some owner) :=
    commonCoface_eq h (fun o ho => by cases ho) (Or.inl hne)
  refine Outcome.bind_eq_ok.mpr ⟨some owner, hcommon, ?_⟩
  rw [Option.bind_some, hc]
  simp only [hlabel, bne_self_eq_false]
  rfl

/-- A common coface is the only one of each cell, and that of the cells before. -/
theorem commonCoface_holds {before : Option CellId}
    (h : sp.commonCoface label before scaffolds = .ok (some owner)) :
    (∀ o, before = some o → o = owner) ∧
      ∀ x ∈ scaffolds, ∀ y, y ∈ sp.cofacesOf x ↔ y = owner := by
  induction scaffolds generalizing before with
  | nil =>
    cases h
    exact ⟨fun o ho => (Option.some.inj ho).symm, fun x hx => absurd hx List.not_mem_nil⟩
  | cons scaffold rest ih =>
    unfold commonCoface at h
    split at h
    · next found hfound =>
      split at h
      · cases h
      · next hsame =>
        obtain ⟨howner, hrest⟩ := ih h
        obtain rfl := howner found rfl
        refine ⟨fun o ho => ?_, List.forall_mem_cons.mpr ⟨fun y => ?_, hrest⟩⟩
        · simpa [ho] using hsame
        · rw [← Std.TreeSet.mem_toList, hfound, List.mem_singleton]
    · cases h

/-- **A listing that is found is the only coface of each of its scaffolds.** -/
theorem listingOf_holds (h : sp.listingOf scaffolds label = .ok listing) :
    ∃ owner, sp.find? owner = some listing ∧
      ∀ x ∈ scaffolds, ∀ y, y ∈ sp.cofacesOf x ↔ y = owner := by
  obtain ⟨found, hcommon, h⟩ := Outcome.bind_eq_ok.mp h
  cases found with
  | none => cases h
  | some owner =>
    refine ⟨owner, ?_, (commonCoface_holds hcommon).2⟩
    rw [Option.bind_some] at h
    cases hfind : sp.find? owner with
    | none =>
      rw [hfind] at h
      cases h
    | some c =>
      rw [hfind] at h
      dsimp only at h
      split at h
      · cases h
      · cases h
        rfl

/-- It carries the label that was asked for. -/
theorem listingOf_label (h : sp.listingOf scaffolds label = .ok listing) :
    listing.label = label := by
  obtain ⟨found, _, h⟩ := Outcome.bind_eq_ok.mp h
  split at h
  · cases h
  · split at h
    · cases h
    · next hsame =>
      cases h
      simpa using hsame

end Space

section Rule

variable {sp : Space} {rule : CellId} {ids product : List CellId} {listing : Cell} {n : Nat}
variable {slots : List PatternSlot}

/-- How a pattern is read, as soon as its listing is found. -/
theorem readPattern_eq_map
    (hids : sp.cofacesLabeled rule Side.pattern.scaffoldLabel = ids) (hne : ids ≠ [])
    (hlisting : sp.listingOf ids Side.pattern.listingLabel = .ok listing)
    (hsome : listing.boundary.drop ids.length ≠ []) :
    Rule.readPattern sp rule = ((listing.boundary.drop ids.length).mapM sp.readSlot).map
      fun slots => (ids.length, slots) := by
  have hids' : sp.cofacesLabeled rule Label.patternScaffold = ids := hids
  have hlisting' : sp.listingOf ids Label.pattern = .ok listing := hlisting
  have hempty : ids.isEmpty = false := by simpa using hne
  have hempty' : (listing.boundary.drop ids.length).isEmpty = false := by simpa using hsome
  unfold Rule.readPattern
  dsimp only
  rw [hids', hempty, hlisting']
  show (do
    if (listing.boundary.drop ids.length).isEmpty = true then
      throw RuleFault.emptyPattern
    return (ids.length, ← (listing.boundary.drop ids.length).mapM sp.readSlot)) = _
  rw [hempty']
  cases (listing.boundary.drop ids.length).mapM sp.readSlot <;> rfl

/-- How a product is read, when there is one. -/
theorem readProduct_eq_ok (hids : sp.cofacesLabeled rule Side.product.scaffoldLabel = ids)
    (hne : ids ≠ []) (hlisting : sp.listingOf ids Side.product.listingLabel = .ok listing) :
    Rule.readProduct sp rule = .ok (listing.boundary.drop ids.length) := by
  have hids' : sp.cofacesLabeled rule Label.productScaffold = ids := hids
  have hlisting' : sp.listingOf ids Label.product = .ok listing := hlisting
  have hempty : ids.isEmpty = false := by simpa using hne
  unfold Rule.readProduct
  dsimp only
  rw [hids', hempty, hlisting']
  rfl

theorem readProduct_of_none (hnone : sp.cofacesLabeled rule Side.product.scaffoldLabel = []) :
    Rule.readProduct sp rule = .ok [] := by
  have hnone' : sp.cofacesLabeled rule Label.productScaffold = [] := hnone
  unfold Rule.readProduct
  dsimp only
  rw [hnone']
  rfl

/-- How a rule is read, when all goes well. -/
theorem compile_eq_ok {root : Cell} {points : Nat} {slots : List PatternSlot}
    {product : List CellId} {templates : Std.TreeMap CellId Template}
    (hroot : sp.find? rule = some root) (hpattern : Rule.readPattern sp rule = .ok (points, slots))
    (hproduct : Rule.readProduct sp rule = .ok product)
    (htemplates : sp.templatesOf product = .ok templates) :
    Rule.compile sp rule = .ok ⟨rule, points, slots, product, templates⟩ := by
  have hresolve : sp.resolve rule = .ok root := Lookup.resolve_eq_ok.mpr hroot
  unfold Rule.compile
  rw [hresolve, hpattern, hproduct]
  show (sp.templatesOf product >>= _) = _
  rw [htemplates]
  rfl

theorem readPattern_holds (h : Rule.readPattern sp rule = .ok (n, slots)) :
    ∃ ids listing, ids = sp.cofacesLabeled rule Side.pattern.scaffoldLabel ∧
      sp.listingOf ids Side.pattern.listingLabel = .ok listing ∧ n = ids.length ∧
      (listing.boundary.drop ids.length).mapM sp.readSlot = .ok slots := by
  unfold Rule.readPattern at h
  dsimp only at h
  split at h
  · cases h
  · obtain ⟨listing, hlisting, h⟩ := Outcome.bind_eq_ok.mp h
    split at h
    · cases h
    · obtain ⟨slots', hslots, h⟩ := Outcome.bind_eq_ok.mp h
      cases h
      exact ⟨_, listing, rfl, hlisting, rfl, hslots⟩

theorem readProduct_holds (h : Rule.readProduct sp rule = .ok product)
    (hne : sp.cofacesLabeled rule Side.product.scaffoldLabel ≠ []) :
    ∃ ids listing, ids = sp.cofacesLabeled rule Side.product.scaffoldLabel ∧
      sp.listingOf ids Side.product.listingLabel = .ok listing ∧
      product = listing.boundary.drop ids.length := by
  unfold Rule.readProduct at h
  dsimp only at h
  split at h
  · next hnil => exact absurd (List.isEmpty_iff.mp hnil) hne
  · obtain ⟨listing, hlisting, h⟩ := Outcome.bind_eq_ok.mp h
    cases h
    exact ⟨_, listing, rfl, hlisting, rfl⟩

theorem compile_holds {r : Rule} (h : Rule.compile sp rule = .ok r) :
    Rule.readPattern sp rule = .ok (r.points, r.pattern) ∧
      Rule.readProduct sp rule = .ok r.product ∧ sp.templatesOf r.product = .ok r.templates := by
  have hread : ∀ {α : Type} {read : Except RuleFault α} {a : α},
      Rule.faultAt rule read = .ok a → read = .ok a := by
    intro α read a hfault
    cases read with
    | error fault => cases hfault
    | ok b =>
      cases hfault
      rfl
  obtain ⟨_, _, h⟩ := Outcome.bind_eq_ok.mp h
  obtain ⟨⟨n, slots⟩, hpattern, h⟩ := Outcome.bind_eq_ok.mp h
  obtain ⟨product, hproduct, h⟩ := Outcome.bind_eq_ok.mp h
  obtain ⟨templates, htemplates, h⟩ := Outcome.bind_eq_ok.mp h
  cases h
  exact ⟨hread hpattern, hread hproduct, htemplates⟩

end Rule

/-! ## 3. Proper clauses -/

/-- The ids of the cells on a side, in the order of the clauses. -/
def idsOf (side : Side) (said : List (Clause × CellId)) : List CellId :=
  idsWhere (fun clause => clause.side? = some side) said

/-- The cells that a rule makes, unless a matched cell stands for them. A rule without product
points lists none. -/
def productOf (said : List (Clause × CellId)) : List CellId :=
  if idsWhere (·.isPointOf .product) said = [] then [] else idsWhere (·.isListedOn .product) said

theorem mem_of_mem_productOf {said : List (Clause × CellId)} {x : CellId}
    (hx : x ∈ productOf said) : x ∈ idsWhere (·.isListedOn .product) said := by
  unfold productOf at hx
  split at hx
  · cases hx
  · exact hx

/-- **What the clauses of a rule must keep to**: no label is a word of binds, each side lists cells
of its own, a bind is from a pattern cell to a product cell of the same dimension, and there is at
most one for each pattern cell. -/
structure Proper (find : CellId → Option Cell) (said : List (Clause × CellId)) : Prop where
  plain : ∀ e ∈ said, e.1.side? ≠ none → e.1.label ≠ Label.bind ∧ e.1.label ≠ Label.nobind
  within : ∀ e ∈ said, ∀ side, e.1.side? = some side → ∀ b ∈ e.1.boundary, b ∈ idsOf side said
  bind : ∀ pattern replacement id, (Clause.bind pattern replacement, id) ∈ said →
    pattern ∈ idsOf .pattern said ∧ replacement ∈ idsOf .product said ∧
      (find pattern).map Cell.dimension = (find replacement).map Cell.dimension
  once : (said.filterMap fun e => e.1.bound?).Nodup

section Proper

variable {find : CellId → Option Cell} {entries : List (Clause × Cell)} {x : CellId} {side : Side}

theorem mem_idsOf : x ∈ idsOf side (named entries) ↔
    ∃ e ∈ entries, e.1.side? = some side ∧ e.2.id = x := by
  unfold idsOf
  rw [mem_idsWhere]
  simp only [mem_named, decide_eq_true_eq]
  refine ⟨fun h => ?_, fun h => ?_⟩
  · obtain ⟨clause, ⟨c, hc, hid⟩, hside⟩ := h
    exact ⟨(clause, c), hc, hside, hid⟩
  · obtain ⟨e, he, hside, hid⟩ := h
    exact ⟨e.1, ⟨e.2, he, hid⟩, hside⟩

/-- **The cells of clauses list cells of clauses only**, if the clauses name no others. -/
theorem Said.closed (hsaid : Said find entries)
    (hwithin : ∀ e ∈ named entries, ∀ side, e.1.side? = some side →
      ∀ b ∈ e.1.boundary, b ∈ idsOf side (named entries))
    (hbind : ∀ pattern replacement id, (Clause.bind pattern replacement, id) ∈ named entries →
      pattern ∈ idsOf .pattern (named entries) ∧ replacement ∈ idsOf .product (named entries)) :
    ∀ e ∈ entries, ∀ b ∈ e.2.boundary, ∃ e' ∈ entries, e'.2.id = b := by
  intro e he b hb
  have hnamed : (e.1, e.2.id) ∈ named entries := mem_named.mpr ⟨e.2, he, rfl⟩
  have hofSide : ∀ {side x}, x ∈ idsOf side (named entries) → ∃ e' ∈ entries, e'.2.id = x := by
    intro side x hx
    obtain ⟨e', he', _, hid⟩ := mem_idsOf.mp hx
    exact ⟨e', he', hid⟩
  cases hside : e.1.side? with
  | some side =>
    rw [hsaid.boundary e he (by simp [hside])] at hb
    exact hofSide (hwithin _ hnamed side hside b hb)
  | none =>
    obtain ⟨pattern, replacement, hclause⟩ := Clause.eq_bind_of_side? hside
    rw [hclause] at hnamed
    obtain ⟨hpattern, hreplacement⟩ := hbind pattern replacement _ hnamed
    have hentry : (Clause.bind pattern replacement, e.2) ∈ entries := hclause ▸ he
    obtain ⟨cell, extra, _, hboundary, hextra⟩ := hsaid.bind pattern replacement e.2 hentry
    rw [hboundary] at hb
    rcases List.mem_cons.mp hb with rfl | hb
    · exact hofSide hpattern
    rcases List.mem_cons.mp hb with rfl | hb
    · exact hofSide hreplacement
    · obtain ⟨_, _, replacement', c', hc', hid⟩ := hextra b hb
      exact ⟨_, hc', hid⟩

/-- So do the cells of proper clauses. -/
theorem Proper.closed (h : Proper find (named entries)) (hsaid : Said find entries) :
    ∀ e ∈ entries, ∀ b ∈ e.2.boundary, ∃ e' ∈ entries, e'.2.id = b :=
  hsaid.closed h.within fun pattern replacement id hmem =>
    ⟨(h.bind pattern replacement id hmem).1, (h.bind pattern replacement id hmem).2.1⟩

end Proper

/-! ## 4. Who lists whom -/

section Written

variable {s : Store} {root o : Cell} {entries : List (Clause × Cell)} {listings : List Listing}
variable {l l' : Listing} {e : Clause × Cell}

theorem mem_ruleCells : o ∈ ruleCells root entries listings ↔
    o = root ∨ (∃ e ∈ entries, e.2 = o) ∨ ∃ l ∈ listings, o ∈ l.scaffolds ∨ o = l.cell := by
  simp [ruleCells, Listing.cells]

namespace Written

variable (h : Written s root entries listings)
include h

theorem eq_of_side_eq (hl : l ∈ listings) (hl' : l' ∈ listings) (hside : l.side = l'.side) :
    l = l' := List.inj_on_of_nodup_map h.nodup hl hl' hside

/-- The rule cell, the cells of clauses and those of listings have different ids. -/
theorem apart : (∀ e ∈ entries, e.2.id ≠ root.id) ∧
    (∀ l ∈ listings, ∀ o ∈ l.cells, o.id ≠ root.id) ∧
      ∀ e ∈ entries, ∀ l ∈ listings, ∀ o ∈ l.cells, o.id ≠ e.2.id := by
  have hnodup := h.lines.ids_nodup
  unfold ruleCells at hnodup
  rw [List.map_append, List.nodup_append] at hnodup
  obtain ⟨hfirst, _, hdisjoint⟩ := hnodup
  rw [List.map_cons, List.nodup_cons] at hfirst
  have hlisting : ∀ l ∈ listings, ∀ o ∈ l.cells,
      o.id ∈ (listings.flatMap Listing.cells).map Cell.id := fun l hl o ho =>
    List.mem_map_of_mem (List.mem_flatMap.mpr ⟨l, hl, ho⟩)
  have hentry : ∀ e ∈ entries, e.2.id ∈ (entries.map Prod.snd).map Cell.id := fun e he =>
    List.mem_map_of_mem (List.mem_map_of_mem he)
  refine ⟨fun e he hid => hfirst.1 (hid ▸ hentry e he), fun l hl o ho hid => ?_,
    fun e he l hl o ho hid => ?_⟩
  · exact hdisjoint root.id (by simp) o.id (hlisting l hl o ho) hid.symm
  · exact hdisjoint e.2.id (List.mem_cons_of_mem _ (hentry e he)) o.id (hlisting l hl o ho) hid.symm

/-- What a scaffold lists. -/
theorem boundary_scaffold (hl : l ∈ listings) (ho : o ∈ l.scaffolds) :
    o.label = l.side.scaffoldLabel ∧ ∃ point ∈ l.points, o.boundary = [root.id, point] := by
  obtain ⟨point, hpoint, hlabel, hboundary⟩ :=
    Outcome.forall₂_mem_right (h.ties l hl).scaffolds ho
  exact ⟨hlabel, point, hpoint, hboundary⟩

/-- What a clause makes lists no cell of a listing, as these are younger. -/
theorem not_lists (hs : s.Consistent) (he : e ∈ entries) (hl : l ∈ listings) (ho : o ∈ l.cells) :
    o.id ∉ e.2.boundary :=
  h.lines.not_lists hs (List.mem_cons_of_mem _ (List.mem_map_of_mem he))
    (List.mem_flatMap.mpr ⟨l, hl, ho⟩)

/-- **Who lists the rule cell**: scaffolds, and cells of clauses that name it. -/
theorem lists_root_iff (ho : o ∈ ruleCells root entries listings) :
    root.id ∈ o.boundary ↔ (∃ l ∈ listings, o ∈ l.scaffolds) ∨
      ∃ e ∈ entries, e.2 = o ∧ root.id ∈ e.2.boundary := by
  obtain ⟨hentries, hcells, _⟩ := h.apart
  refine ⟨fun hroot => ?_, fun ho => ?_⟩
  · rcases mem_ruleCells.mp ho with rfl | ⟨e, he, rfl⟩ | ⟨l, hl, ho | rfl⟩
    · rw [h.root_boundary] at hroot
      cases hroot
    · exact Or.inr ⟨e, he, rfl, hroot⟩
    · exact Or.inl ⟨l, hl, ho⟩
    · -- a listing lists its scaffolds and cells of clauses
      rw [(h.ties l hl).boundary, List.mem_append] at hroot
      rcases hroot with hroot | hroot
      · obtain ⟨o, ho, hid⟩ := List.mem_map.mp hroot
        exact absurd hid (hcells l hl o (List.mem_append_left _ ho))
      · rw [h.listed l hl] at hroot
        obtain ⟨e, he, _, hid⟩ := exists_entry hroot
        exact absurd hid (hentries e he)
  · rcases ho with ⟨l, hl, ho⟩ | ⟨e, _, rfl, hroot⟩
    · obtain ⟨_, point, _, hboundary⟩ := h.boundary_scaffold hl ho
      simp [hboundary]
    · exact hroot

/-- **Only their listing lists scaffolds.** -/
theorem lists_scaffold (hs : s.Consistent) (hl : l ∈ listings) {x : Cell} (hx : x ∈ l.scaffolds)
    (ho : o ∈ ruleCells root entries listings) : x.id ∈ o.boundary ↔ o = l.cell := by
  obtain ⟨hentries, hcells, hapart⟩ := h.apart
  have hxcells : x ∈ l.cells := List.mem_append_left _ hx
  have hentry : ¬ ∃ e ∈ entries, e.2.id = x.id := by
    rintro ⟨e, he, hid⟩
    exact hapart e he l hl x hxcells hid.symm
  refine ⟨fun hlists => ?_, fun ho => ?_⟩
  · rcases mem_ruleCells.mp ho with rfl | ⟨e, he, rfl⟩ | ⟨l', hl', ho | rfl⟩
    · rw [h.root_boundary] at hlists
      cases hlists
    · exact absurd hlists (h.not_lists hs he hl hxcells)
    · -- a scaffold lists the rule cell and a cell of a clause
      obtain ⟨_, point, hpoint, hboundary⟩ := h.boundary_scaffold hl' ho
      rw [hboundary, List.mem_pair] at hlists
      rcases hlists with hid | hid
      · exact absurd hid (hcells l hl x hxcells)
      · rw [h.points l' hl'] at hpoint
        obtain ⟨e, he, _, hid'⟩ := exists_entry hpoint
        exact absurd ⟨e, he, hid'.trans hid.symm⟩ hentry
    · rw [(h.ties l' hl').boundary, List.mem_append] at hlists
      rcases hlists with hid | hid
      · -- scaffolds of the other side have another label
        obtain ⟨x', hx', hid⟩ := List.mem_map.mp hid
        have hx'cells : x' ∈ ruleCells root entries listings :=
          mem_ruleCells.mpr (Or.inr (Or.inr ⟨l', hl', Or.inl hx'⟩))
        have hxcells' : x ∈ ruleCells root entries listings :=
          mem_ruleCells.mpr (Or.inr (Or.inr ⟨l, hl, Or.inl hx⟩))
        obtain rfl := h.lines.eq_of_id_eq hx'cells hxcells' hid
        have hside : l'.side = l.side := Side.scaffoldLabel_inj.mp <| by
          rw [← (h.boundary_scaffold hl' hx').1, (h.boundary_scaffold hl hx).1]
        rw [h.eq_of_side_eq hl' hl hside]
      · rw [h.listed l' hl'] at hid
        obtain ⟨e, he, _, hid⟩ := exists_entry hid
        exact absurd ⟨e, he, hid⟩ hentry
  · rw [ho, (h.ties l hl).boundary]
    exact List.mem_append_left _ (List.mem_map_of_mem hx)

section Closed

variable (hclosed : ∀ e ∈ entries, ∀ b ∈ e.2.boundary, ∃ e' ∈ entries, e'.2.id = b)
include hclosed

/-- **Only scaffolds list the rule cell**, if no clause names it. -/
theorem lists_root (ho : o ∈ ruleCells root entries listings) :
    root.id ∈ o.boundary ↔ ∃ l ∈ listings, o ∈ l.scaffolds := by
  rw [h.lists_root_iff ho, or_iff_left]
  rintro ⟨e, he, -, hroot⟩
  obtain ⟨e', he', hid⟩ := hclosed e he root.id hroot
  exact h.apart.1 e' he' hid

/-- The cells of a rule list cells of the rule only. -/
theorem ruleCells_closed : ∀ o ∈ ruleCells root entries listings, ∀ b ∈ o.boundary,
    ∃ d ∈ ruleCells root entries listings, d.id = b := by
  have hentry : ∀ {p b}, b ∈ idsWhere p (named entries) →
      ∃ d ∈ ruleCells root entries listings, d.id = b := by
    intro p b hb
    obtain ⟨e, he, _, hid⟩ := exists_entry hb
    exact ⟨e.2, mem_ruleCells.mpr (Or.inr (Or.inl ⟨e, he, rfl⟩)), hid⟩
  intro o ho b hb
  rcases mem_ruleCells.mp ho with rfl | ⟨e, he, rfl⟩ | ⟨l, hl, ho | rfl⟩
  · rw [h.root_boundary] at hb
    cases hb
  · obtain ⟨e', he', hid⟩ := hclosed e he b hb
    exact ⟨e'.2, mem_ruleCells.mpr (Or.inr (Or.inl ⟨e', he', rfl⟩)), hid⟩
  · obtain ⟨_, point, hpoint, hboundary⟩ := h.boundary_scaffold hl ho
    rw [hboundary, List.mem_pair] at hb
    rcases hb with rfl | rfl
    · exact ⟨root, mem_ruleCells.mpr (Or.inl rfl), rfl⟩
    · exact hentry (h.points l hl ▸ hpoint)
  · rw [(h.ties l hl).boundary, List.mem_append] at hb
    rcases hb with hb | hb
    · obtain ⟨d, hd, hid⟩ := List.mem_map.mp hb
      exact ⟨d, mem_ruleCells.mpr (Or.inr (Or.inr ⟨l, hl, Or.inl hd⟩)), hid⟩
    · exact hentry (h.listed l hl ▸ hb)

/-! ## 5. Reading a side -/

variable (hs : s.Consistent)
include hs

theorem mem_scaffolds {side : Side} {y : CellId} :
    y ∈ (Space.indexed (ruleStore s root entries listings)).cofacesLabeled root.id
        side.scaffoldLabel ↔ ∃ l ∈ listings, l.side = side ∧ y ∈ l.scaffolds.map Cell.id := by
  rw [Space.mem_cofacesLabeled_indexed hs h.lines (mem_ruleCells.mpr (Or.inl rfl))]
  refine ⟨fun h' => ?_, fun h' => ?_⟩
  · obtain ⟨o, ho, rfl, hlabel, hlists⟩ := h'
    obtain ⟨l, hl, hscaffold⟩ := (h.lists_root hclosed ho).mp hlists
    have hside : l.side = side := Side.scaffoldLabel_inj.mp <| by
      rw [← hlabel, (h.boundary_scaffold hl hscaffold).1]
    exact ⟨l, hl, hside, List.mem_map_of_mem hscaffold⟩
  · obtain ⟨l, hl, rfl, hy⟩ := h'
    obtain ⟨o, ho, rfl⟩ := List.mem_map.mp hy
    have hmem : o ∈ ruleCells root entries listings :=
      mem_ruleCells.mpr (Or.inr (Or.inr ⟨l, hl, Or.inl ho⟩))
    exact ⟨o, hmem, rfl, (h.boundary_scaffold hl ho).1, (h.lists_root hclosed hmem).mpr ⟨l, hl, ho⟩⟩

omit hclosed hs in
/-- The index shows the cells of a rule. -/
theorem find?_indexed {o : Cell} (ho : o ∈ ruleCells root entries listings) :
    (Space.indexed (ruleStore s root entries listings)).find? o.id = some o :=
  (Space.find?_indexed _ _).trans (h.lines.find?_mem ho)

omit hclosed hs in
theorem scaffolds_nodup (hl : l ∈ listings) : (l.scaffolds.map Cell.id).Nodup := by
  have hnodup := h.lines.ids_nodup
  unfold ruleCells at hnodup
  rw [List.map_append, List.nodup_append, List.map_flatMap, List.nodup_flatMap] at hnodup
  have hcells := hnodup.2.1.1 l hl
  rw [Listing.cells, List.map_append, List.nodup_append] at hcells
  exact hcells.1

/-- The scaffolds of a side are found, in some order. -/
theorem scaffolds_perm (hl : l ∈ listings) :
    ((Space.indexed (ruleStore s root entries listings)).cofacesLabeled root.id
      l.side.scaffoldLabel).Perm (l.scaffolds.map Cell.id) := by
  refine (List.perm_ext_iff_of_nodup Space.cofacesLabeled_nodup (h.scaffolds_nodup hl)).mpr
    fun y => ?_
  rw [h.mem_scaffolds hclosed hs]
  refine ⟨fun h' => ?_, fun hy => ⟨l, hl, rfl, hy⟩⟩
  obtain ⟨l', hl', hside, hy⟩ := h'
  rwa [h.eq_of_side_eq hl' hl hside] at hy

omit hclosed in
/-- Only the listing of its side lists a scaffold. -/
theorem mem_cofacesOf_scaffold {o : Cell} {y : CellId} (hl : l ∈ listings)
    (ho : o ∈ l.scaffolds) :
    y ∈ (Space.indexed (ruleStore s root entries listings)).cofacesOf o.id ↔ y = l.cell.id := by
  have hcell : l.cell ∈ ruleCells root entries listings :=
    mem_ruleCells.mpr (Or.inr (Or.inr ⟨l, hl, Or.inr rfl⟩))
  have hscaffold : o ∈ ruleCells root entries listings :=
    mem_ruleCells.mpr (Or.inr (Or.inr ⟨l, hl, Or.inl ho⟩))
  rw [h.lines.mem_cofacesOf hs hscaffold]
  refine ⟨fun h' => ?_, fun hy => ?_⟩
  · obtain ⟨o', ho', rfl, hlists⟩ := h'
    rw [(h.lists_scaffold hs hl ho ho').mp hlists]
  · exact ⟨l.cell, hcell, hy.symm, (h.lists_scaffold hs hl ho hcell).mpr rfl⟩

/-- **Each side is read back**: its listing is found through its scaffolds, and after as many faces
as there are points it lists the cells of the side. -/
theorem read_listing (hl : l ∈ listings) {ids : List CellId}
    (hids : ids = (Space.indexed (ruleStore s root entries listings)).cofacesLabeled
      root.id l.side.scaffoldLabel) :
    ids ≠ [] ∧ ids.length = l.points.length ∧
      (Space.indexed (ruleStore s root entries listings)).listingOf ids
        l.side.listingLabel = .ok l.cell ∧ l.cell.boundary.drop ids.length = l.listed := by
  have hperm : ids.Perm (l.scaffolds.map Cell.id) := hids ▸ h.scaffolds_perm hclosed hs hl
  have hlength : ids.length = l.scaffolds.length := by
    rw [hperm.length_eq, List.length_map]
  have hpoints : l.points.length = l.scaffolds.length := (h.ties l hl).scaffolds.length_eq
  have hsome : l.points ≠ [] := by
    rw [h.points l hl]
    exact (h.side_iff l.side).mp (List.mem_map_of_mem hl)
  have hne : ids ≠ [] := by
    intro hnil
    rw [hnil, List.length_nil, ← hpoints] at hlength
    exact hsome (List.length_eq_zero_iff.mp hlength.symm)
  have hcell : l.cell ∈ ruleCells root entries listings :=
    mem_ruleCells.mpr (Or.inr (Or.inr ⟨l, hl, Or.inr rfl⟩))
  have hone : ∀ x ∈ ids, ∀ y, y ∈ (Space.indexed
      (ruleStore s root entries listings)).cofacesOf x ↔ y = l.cell.id := by
    intro x hx y
    obtain ⟨o, ho, rfl⟩ := List.mem_map.mp (hperm.mem_iff.mp hx)
    exact h.mem_cofacesOf_scaffold hs hl ho
  refine ⟨hne, hlength.trans hpoints.symm,
    Space.listingOf_eq hone hne (h.find?_indexed hcell) (h.ties l hl).label, ?_⟩
  rw [(h.ties l hl).boundary, hlength, ← List.length_map Cell.id, List.drop_left]

/-- A side without points has no scaffolds. -/
theorem scaffolds_of_none {side : Side} (hside : side ∉ listings.map Listing.side) :
    (Space.indexed (ruleStore s root entries listings)).cofacesLabeled root.id
      side.scaffoldLabel = [] := by
  refine List.eq_nil_iff_forall_not_mem.mpr fun y hy => ?_
  obtain ⟨l, hl, hl', _⟩ := (h.mem_scaffolds hclosed hs).mp hy
  exact hside (hl' ▸ List.mem_map_of_mem hl)

/-- The pattern of a rule is read back as its positions are. -/
theorem readPattern_eq :
    Rule.readPattern (Space.indexed (ruleStore s root entries listings)) root.id =
      ((idsWhere (·.isListedOn .pattern) (named entries)).mapM
        (Space.indexed (ruleStore s root entries listings)).readSlot).map
          fun slots => ((idsWhere (·.isPointOf .pattern) (named entries)).length, slots) := by
  obtain ⟨l, hl, hside⟩ := List.mem_map.mp h.pattern
  have hread := h.read_listing hclosed hs hl rfl
  have hpoints := h.points l hl
  have hlisted := h.listed l hl
  rw [hside] at hread hpoints hlisted
  obtain ⟨hne, hlength, hlisting, hdrop⟩ := hread
  rw [← hpoints, ← hlisted]
  -- every point of the pattern is listed
  have hsome : l.listed ≠ [] := by
    have hsides := (h.side_iff .pattern).mp h.pattern
    obtain ⟨x, hx⟩ := List.exists_mem_of_ne_nil _ hsides
    obtain ⟨clause, hnamed, hpoint⟩ := mem_idsWhere.mp hx
    have hmem : x ∈ l.listed := by
      rw [hlisted]
      refine mem_idsWhere.mpr ⟨clause, hnamed, ?_⟩
      cases clause <;> first | rfl | cases hpoint
    exact List.ne_nil_of_mem hmem
  rw [← hlength, ← hdrop]
  exact readPattern_eq_map rfl hne hlisting (hdrop ▸ hsome)

/-- Of a rule that is read, every position is. -/
theorem readSlot_isOk {rule : Rule} {x : CellId}
    (hrule : Rule.compile (Space.indexed (ruleStore s root entries listings)) root.id = .ok rule)
    (hx : x ∈ idsWhere (·.isListedOn .pattern) (named entries)) :
    ∃ slot, (Space.indexed (ruleStore s root entries listings)).readSlot x = .ok slot := by
  obtain ⟨hpattern, _, _⟩ := compile_holds hrule
  rw [h.readPattern_eq hclosed hs, Outcome.map_eq_ok] at hpattern
  obtain ⟨slots, hslots, _⟩ := hpattern
  obtain ⟨slot, _, hslot⟩ := Outcome.mapM_mem hslots hx
  exact ⟨slot, hslot⟩

/-- So is the product. -/
theorem readProduct_eq :
    Rule.readProduct (Space.indexed (ruleStore s root entries listings)) root.id =
      .ok (productOf (named entries)) := by
  unfold productOf
  split
  · next hnone =>
    have hside : Side.product ∉ listings.map Listing.side := fun hmem =>
      (h.side_iff .product).mp hmem hnone
    exact readProduct_of_none (h.scaffolds_of_none hclosed hs hside)
  · next hsome =>
    obtain ⟨l, hl, hside⟩ := List.mem_map.mp ((h.side_iff .product).mpr hsome)
    have hread := h.read_listing hclosed hs hl rfl
    have hlisted := h.listed l hl
    rw [hside] at hread hlisted
    obtain ⟨hne, _, hlisting, hdrop⟩ := hread
    rw [← hlisted, ← hdrop]
    exact readProduct_eq_ok rfl hne hlisting

end Closed

end Written

end Written

end CellComplex
