import CellComplex.Proofs.Rule.Compile

/-!
# Which product is read back

A side of a rule is read by counting: what looks like a scaffold is counted, and the listing is read
from there on. Whatever cells the clauses of a rule name, two things can go wrong with its product:

* `strays`: cells of clauses look like scaffolds if they list the rule cell under that label; as
  many cells of the listing are skipped;
* a product without points has no listing.

Nothing else does.

* `Written.mem_looks`: what looks like a scaffold of a side; `Written.looks_perm`: how much;
* **`Written.read_strays`**: what is read of a side with points; `Written.drop_listed`: of a
  product;
* `Written.listed_by_hand`: of one without points, if a clause made a listing itself;
* **`product_tellRule`**: which product is read back;
  **`product_tellRule_wrong`**: two that are not.
-/

namespace CellComplex

/-- **The cells that look like scaffolds of a side**: they carry the label and list the rule
cell. -/
def strays (rule : CellId) (side : Side) (cells : List Cell) : List CellId :=
  (cells.filter fun c => c.label == side.scaffoldLabel && c.boundary.contains rule).map Cell.id

section Written

variable {s : Store} {root : Cell} {entries : List (Clause × Cell)} {listings : List Listing}
variable {l : Listing} {side : Side} {y : CellId} {product : List CellId}

theorem mem_strays : y ∈ strays root.id side (entries.map Prod.snd) ↔
    ∃ e ∈ entries, e.2.id = y ∧ e.2.label = side.scaffoldLabel ∧ root.id ∈ e.2.boundary := by
  unfold strays
  simp only [List.mem_map, List.mem_filter, Bool.and_eq_true, beq_iff_eq, List.contains_iff_mem]
  refine ⟨fun h => ?_, fun h => ?_⟩
  · obtain ⟨_, ⟨⟨e, he, rfl⟩, hlooks⟩, hid⟩ := h
    exact ⟨e, he, hid, hlooks⟩
  · obtain ⟨e, he, hid, hlooks⟩ := h
    exact ⟨e.2, ⟨⟨e, he, rfl⟩, hlooks⟩, hid⟩

namespace Written

variable (h : Written s root entries listings)
include h

/-! ## 1. What looks like a scaffold -/

theorem strays_nodup : (strays root.id side (entries.map Prod.snd)).Nodup := by
  have hnodup := h.lines.ids_nodup
  unfold ruleCells at hnodup
  rw [List.map_append, List.nodup_append, List.map_cons, List.nodup_cons] at hnodup
  exact hnodup.1.2.sublist (List.filter_sublist.map Cell.id)

variable (hs : s.Consistent)
include hs

/-- **What looks like a scaffold of a side**: scaffolds, and strays. -/
theorem mem_looks :
    y ∈ (Space.indexed (ruleStore s root entries listings)).cofacesLabeled root.id
        side.scaffoldLabel ↔ (∃ l ∈ listings, l.side = side ∧ y ∈ l.scaffolds.map Cell.id) ∨
      y ∈ strays root.id side (entries.map Prod.snd) := by
  rw [Space.mem_cofacesLabeled_indexed hs h.lines (mem_ruleCells.mpr (Or.inl rfl)), mem_strays]
  refine ⟨fun h' => ?_, fun h' => ?_⟩
  · obtain ⟨o, ho, rfl, hlabel, hlists⟩ := h'
    rcases (h.lists_root_iff ho).mp hlists with ⟨l, hl, hscaffold⟩ | ⟨e, he, rfl, hroot⟩
    · have hside : l.side = side := Side.scaffoldLabel_inj.mp <| by
        rw [← hlabel, (h.boundary_scaffold hl hscaffold).1]
      exact Or.inl ⟨l, hl, hside, List.mem_map_of_mem hscaffold⟩
    · exact Or.inr ⟨e, he, rfl, hlabel, hroot⟩
  · rcases h' with ⟨l, hl, rfl, hy⟩ | ⟨e, he, rfl, hlabel, hroot⟩
    · obtain ⟨o, ho, rfl⟩ := List.mem_map.mp hy
      have hmem : o ∈ ruleCells root entries listings :=
        mem_ruleCells.mpr (Or.inr (Or.inr ⟨l, hl, Or.inl ho⟩))
      exact ⟨o, hmem, rfl, (h.boundary_scaffold hl ho).1,
        (h.lists_root_iff hmem).mpr (Or.inl ⟨l, hl, ho⟩)⟩
    · exact ⟨e.2, mem_cells he, rfl, hlabel, hroot⟩

/-- They are the scaffolds of the listing and the strays, in some order. -/
theorem looks_perm (hl : l ∈ listings) :
    ((Space.indexed (ruleStore s root entries listings)).cofacesLabeled root.id
      l.side.scaffoldLabel).Perm
        (l.scaffolds.map Cell.id ++ strays root.id l.side (entries.map Prod.snd)) := by
  have hnodup : (l.scaffolds.map Cell.id ++
      strays root.id l.side (entries.map Prod.snd)).Nodup := by
    refine List.nodup_append.mpr ⟨h.scaffolds_nodup hl, h.strays_nodup, fun x hx y hy => ?_⟩
    obtain ⟨o, ho, rfl⟩ := List.mem_map.mp hx
    obtain ⟨e, he, rfl, _⟩ := mem_strays.mp hy
    exact h.apart.2.2 e he l hl o (List.mem_append_left _ ho)
  refine (List.perm_ext_iff_of_nodup Space.cofacesLabeled_nodup hnodup).mpr fun y => ?_
  rw [h.mem_looks hs, List.mem_append]
  refine or_congr_left ⟨fun h' => ?_, fun hy => ⟨l, hl, rfl, hy⟩⟩
  obtain ⟨l', hl', hside, hy⟩ := h'
  rwa [h.eq_of_side_eq hl' hl hside] at hy

/-! ## 2. What is read -/

/-- **What is read of a side with points**: its listing, but as many cells are skipped as look like
scaffolds, the strays among them. These are listed too. -/
theorem read_strays (hl : l ∈ listings) {ids : List CellId} {listing : Cell}
    (hids : ids = (Space.indexed (ruleStore s root entries listings)).cofacesLabeled root.id
      l.side.scaffoldLabel)
    (hlisting : (Space.indexed (ruleStore s root entries listings)).listingOf ids
      l.side.listingLabel = .ok listing) :
    (∀ y ∈ strays root.id l.side (entries.map Prod.snd), y ∈ l.listed) ∧
      ids.length = l.points.length + (strays root.id l.side (entries.map Prod.snd)).length ∧
      listing.boundary.drop ids.length =
        l.listed.drop (strays root.id l.side (entries.map Prod.snd)).length := by
  have hperm := hids ▸ h.looks_perm hs hl
  have hcell : l.cell ∈ ruleCells root entries listings :=
    mem_ruleCells.mpr (Or.inr (Or.inr ⟨l, hl, Or.inr rfl⟩))
  have hpoints := (h.ties l hl).scaffolds.length_eq
  have hsome : l.scaffolds ≠ [] := by
    rintro hnil
    rw [hnil, h.points l hl, List.length_nil, List.length_eq_zero_iff] at hpoints
    exact (h.side_iff l.side).mp (List.mem_map_of_mem hl) hpoints
  obtain ⟨o, ho⟩ := List.exists_mem_of_ne_nil _ hsome
  have hmem := hperm.mem_iff.mpr (List.mem_append_left _ (List.mem_map_of_mem ho))
  obtain ⟨owner, howner, hone⟩ := Space.listingOf_holds hlisting
  -- one scaffold is enough to see which listing was found
  obtain rfl : l.cell.id = owner :=
    (hone o.id hmem l.cell.id).mp ((h.mem_cofacesOf_scaffold hs hl ho).mpr rfl)
  obtain rfl : l.cell = listing :=
    Option.some.inj ((h.find?_indexed hcell).symm.trans howner)
  have hlength : ids.length =
      l.scaffolds.length + (strays root.id l.side (entries.map Prod.snd)).length := by
    rw [hperm.length_eq, List.length_append, List.length_map]
  refine ⟨fun y hy => ?_, hpoints ▸ hlength, ?_⟩
  · obtain ⟨e, he, rfl, _⟩ := mem_strays.mp hy
    have hlooks := hperm.mem_iff.mpr (List.mem_append_right _ hy)
    obtain ⟨o', ho', hid, hlists⟩ :=
      (h.lines.mem_cofacesOf hs (mem_cells he)).mp ((hone e.2.id hlooks l.cell.id).mpr rfl)
    obtain rfl := h.lines.eq_of_id_eq ho' hcell hid
    rw [(h.ties l hl).boundary, List.mem_append] at hlists
    refine hlists.resolve_left fun hscaffold => ?_
    obtain ⟨x, hx, hid'⟩ := List.mem_map.mp hscaffold
    exact h.apart.2.2 e he l hl x (List.mem_append_left _ hx) hid'
  · rw [hlength, (h.ties l hl).boundary, List.drop_append, List.length_map]
    simp

/-- **What is read of a product with points.** -/
theorem drop_listed (hl : l ∈ listings) (hside : l.side = .product)
    (hproduct : Rule.readProduct (.indexed (ruleStore s root entries listings)) root.id =
      .ok product) :
    (∀ y ∈ strays root.id .product (entries.map Prod.snd), y ∈ l.listed) ∧
      product = l.listed.drop (strays root.id .product (entries.map Prod.snd)).length := by
  have hlooks : (Space.indexed (ruleStore s root entries listings)).cofacesLabeled root.id
      Side.product.scaffoldLabel ≠ [] := by
    intro hnil
    have hperm := h.looks_perm hs hl
    rw [hside, hnil] at hperm
    have hpoints := (h.ties l hl).scaffolds.length_eq
    rw [List.map_eq_nil_iff.mp (List.append_eq_nil_iff.mp (List.nil_perm.mp hperm)).1,
      h.points l hl, List.length_nil, List.length_eq_zero_iff] at hpoints
    exact (h.side_iff l.side).mp (List.mem_map_of_mem hl) hpoints
  obtain ⟨ids, listing, hids, hlisting, rfl⟩ := readProduct_holds hproduct hlooks
  rw [← hside] at hids hlisting
  obtain ⟨hstrays, _, hdrop⟩ := h.read_strays hs hl hids hlisting
  rw [hside] at hstrays hdrop
  exact ⟨hstrays, hdrop⟩

/-- A product without points looks like its strays. -/
theorem looks_of_none (hnone : Side.product ∉ listings.map Listing.side) :
    ((Space.indexed (ruleStore s root entries listings)).cofacesLabeled root.id
      Side.product.scaffoldLabel).Perm (strays root.id .product (entries.map Prod.snd)) := by
  refine (List.perm_ext_iff_of_nodup Space.cofacesLabeled_nodup h.strays_nodup).mpr fun y => ?_
  rw [h.mem_looks hs, or_iff_right]
  rintro ⟨l, hl, hside, _⟩
  exact hnone (hside ▸ List.mem_map_of_mem hl)

/-- **What is read of a product without points**: nothing, unless there are strays; then a clause
made a listing of all of them, and what follows in it is read. -/
theorem listed_by_hand (hnone : Side.product ∉ listings.map Listing.side)
    (hproduct : Rule.readProduct (.indexed (ruleStore s root entries listings)) root.id =
      .ok product) :
    (strays root.id .product (entries.map Prod.snd) = [] → product = []) ∧
      (strays root.id .product (entries.map Prod.snd) ≠ [] → ∃ e ∈ entries,
        e.2.label = Label.product ∧
        (∀ y ∈ strays root.id .product (entries.map Prod.snd), y ∈ e.2.boundary) ∧
        product = e.2.boundary.drop
          (strays root.id .product (entries.map Prod.snd)).length) := by
  have hperm := h.looks_of_none hs hnone
  refine ⟨fun hnil => ?_, fun hsome => ?_⟩
  · rw [hnil, List.perm_nil] at hperm
    exact Except.ok.inj (hproduct.symm.trans (readProduct_of_none hperm))
  · obtain ⟨y, hy⟩ := List.exists_mem_of_ne_nil _ hsome
    obtain ⟨ids, listing, rfl, hlisting, hdrop⟩ :=
      readProduct_holds hproduct (List.ne_nil_of_mem (hperm.mem_iff.mpr hy))
    obtain ⟨owner, howner, hone⟩ := Space.listingOf_holds hlisting
    have hlabel := Space.listingOf_label hlisting
    -- what lists a stray is a cell of the rule, and only a clause labels it so
    have hlists : ∀ z ∈ strays root.id .product (entries.map Prod.snd),
        ∃ o ∈ ruleCells root entries listings, o.id = owner ∧ z ∈ o.boundary := by
      intro z hz
      obtain ⟨e, he, rfl, _⟩ := mem_strays.mp hz
      exact (h.lines.mem_cofacesOf hs (mem_cells he)).mp
        ((hone e.2.id (hperm.mem_iff.mpr hz) owner).mpr rfl)
    obtain ⟨o, ho, rfl, hboundary⟩ := hlists y hy
    obtain rfl : o = listing := Option.some.inj ((h.find?_indexed ho).symm.trans howner)
    have hall : ∀ z ∈ strays root.id .product (entries.map Prod.snd), z ∈ o.boundary := by
      intro z hz
      obtain ⟨o', ho', hid, hz⟩ := hlists z hz
      rwa [h.lines.eq_of_id_eq ho' ho hid] at hz
    rw [hperm.length_eq] at hdrop
    rcases mem_ruleCells.mp ho with rfl | ⟨e, he, rfl⟩ | ⟨l, hl, ho' | rfl⟩
    · rw [h.root_boundary] at hboundary
      cases hboundary
    · exact ⟨e, he, hlabel, hall, hdrop⟩
    · rw [(h.boundary_scaffold hl ho').1] at hlabel
      cases hside : l.side <;> rw [hside] at hlabel <;> exact absurd hlabel (by decide)
    · rw [(h.ties l hl).label] at hlabel
      cases hside : l.side with
      | pattern => rw [hside] at hlabel; exact absurd hlabel (by decide)
      | product => exact absurd (hside ▸ List.mem_map_of_mem hl) hnone

omit hs in
/-- The cells of the clauses are found under their ids. -/
theorem filterMap_find? : (entries.map (·.2.id)).filterMap
    (ruleStore s root entries listings).find? = entries.map Prod.snd := by
  rw [List.filterMap_map, ← List.filterMap_eq_map]
  exact List.filterMap_congr fun e he => h.find?_entry he

end Written

end Written

/-! ## 3. Rules that are told -/

section Told

variable {s t u : Store} {name : String} {clauses : List Clause} {ids : List CellId}
variable {rule : CellId} {r : Rule}

/-- A side without points, by the clauses. -/
theorem idsWhere_isPointOf_eq_nil {side : Side} {entries : List (Clause × Cell)}
    (hclauses : entries.map Prod.fst = clauses) :
    idsWhere (·.isPointOf side) (named entries) = [] ↔
      ∀ clause ∈ clauses, clause.isPointOf side = false := by
  rw [← List.length_eq_zero_iff, length_idsWhere hclauses, List.countP_eq_zero]
  simp

/-- **Which product is read back** of a rule that was told and could be read. If a clause makes a
product point, it is what was told to be made, in order, without the first few; these are as many as
there are strays, and all strays are among what was told. So nothing is dropped exactly if there is
no stray. If no clause makes a product point, nothing is read, unless there are strays and a clause
made the listing of them. -/
theorem product_tellRule (hs : s.Reachable)
    (htold : (tellRule name clauses).applyTo s = (.ok (ids, rule), t))
    (hindex : Space.buildIndex.applyTo t = (.ok (), u))
    (hcompile : Rule.compile (.ofStore u) rule = .ok r) :
    ((∃ clause ∈ clauses, clause.isPointOf .product = true) →
      (∀ y ∈ strays rule .product (ids.filterMap t.find?),
        y ∈ idsWhere (·.isListedOn .product) (clauses.zip ids)) ∧
      r.product = (idsWhere (·.isListedOn .product) (clauses.zip ids)).drop
        (strays rule .product (ids.filterMap t.find?)).length ∧
      (r.product = idsWhere (·.isListedOn .product) (clauses.zip ids) ↔
        strays rule .product (ids.filterMap t.find?) = [])) ∧
    ((∀ clause ∈ clauses, clause.isPointOf .product = false) →
      (strays rule .product (ids.filterMap t.find?) = [] → r.product = []) ∧
      (strays rule .product (ids.filterMap t.find?) ≠ [] →
        ∃ id ∈ ids, ∃ c, t.find? id = some c ∧ c.label = Label.product ∧
          (∀ y ∈ strays rule .product (ids.filterMap t.find?), y ∈ c.boundary) ∧
          r.product = c.boundary.drop (strays rule .product (ids.filterMap t.find?)).length)) := by
  obtain ⟨root, entries, listings, hwritten, rfl, rfl, hclauses, rfl⟩ := written_of_tellRule htold
  rw [Space.applyTo_buildIndex] at hindex
  cases hindex
  have hproduct := (compile_holds hcompile).2.1
  rw [← named_eq_zip hclauses rfl, hwritten.filterMap_find?]
  refine ⟨fun hpoint => ?_, fun hnone => ?_⟩
  · have hside : Side.product ∈ listings.map Listing.side := by
      rw [hwritten.side_iff, Ne, idsWhere_isPointOf_eq_nil hclauses]
      obtain ⟨clause, hmem, hpoint⟩ := hpoint
      intro hnone
      rw [hnone clause hmem] at hpoint
      cases hpoint
    obtain ⟨l, hl, hside⟩ := List.mem_map.mp hside
    obtain ⟨hstrays, hdrop⟩ := hwritten.drop_listed hs.consistent hl hside hproduct
    rw [hwritten.listed l hl, hside] at hstrays hdrop
    refine ⟨hstrays, hdrop, fun hall => ?_, fun hnil => ?_⟩
    · by_contra hsome
      obtain ⟨y, hy⟩ := List.exists_mem_of_ne_nil _ hsome
      have hlisted := List.length_pos_of_mem (hstrays y hy)
      have hlength := congrArg List.length (hall.symm.trans hdrop)
      rw [List.length_drop] at hlength
      have := List.length_pos_of_mem hy
      omega
    · rw [hdrop, hnil]
      rfl
  · have hside : Side.product ∉ listings.map Listing.side := by
      rw [hwritten.side_iff, Ne, not_not, idsWhere_isPointOf_eq_nil hclauses]
      exact hnone
    obtain ⟨hempty, hmade⟩ := hwritten.listed_by_hand hs.consistent hside hproduct
    refine ⟨hempty, fun hsome => ?_⟩
    obtain ⟨e, he, hlabel, hall, hdrop⟩ := hmade hsome
    exact ⟨e.2.id, List.mem_map_of_mem he, e.2, hwritten.find?_entry he, hlabel, hall, hdrop⟩

/-- A rule that can be told and whose sides can be read can be read. -/
theorem exists_told_read (points : Nat) (slots : List PatternSlot) {product : List CellId}
    (hs : s.Reachable)
    (htold : ((tellRule name clauses).applyTo s).1.toOption = some (ids, rule))
    (hpattern : Rule.readPattern (.indexed ((tellRule name clauses).applyTo s).2) rule =
      .ok (points, slots))
    (hproduct : Rule.readProduct (.indexed ((tellRule name clauses).applyTo s).2) rule =
      .ok product)
    (hknown : ∀ x ∈ product, (((tellRule name clauses).applyTo s).2.find? x).isSome = true) :
    ∃ t u r, (tellRule name clauses).applyTo s = (.ok (ids, rule), t) ∧
      Space.buildIndex.applyTo t = (.ok (), u) ∧ Rule.compile (.ofStore u) rule = .ok r ∧
      r.points = points ∧ r.pattern = slots ∧ r.product = product := by
  have hrun : (tellRule name clauses).applyTo s =
      (.ok (ids, rule), ((tellRule name clauses).applyTo s).2) :=
    Prod.ext (Outcome.toOption_eq_some.mp htold) rfl
  generalize ((tellRule name clauses).applyTo s).2 = t at hrun hpattern hproduct hknown
  obtain ⟨root, entries, listings, hwritten, rfl, rfl, _⟩ := written_of_tellRule hrun
  have hsound : (Space.indexed (ruleStore s root entries listings)).lookup.Sound :=
    (hwritten.lines.consistent hs.consistent).sound_indexed
  obtain ⟨_, hcompile, _⟩ := Space.exists_compile hsound
    (hwritten.find?_indexed (mem_ruleCells.mpr (Or.inl rfl))) hpattern hproduct fun x hx =>
      (Option.isSome_iff_exists.mp (hknown x hx)).imp fun _ hc => (Space.find?_indexed _ _).trans hc
  exact ⟨_, _, _, hrun, Space.applyTo_buildIndex _, hcompile, rfl, rfl, rfl⟩

/-- Its product alone. -/
theorem exists_told (points : Nat) (slots : List PatternSlot) {product : List CellId}
    (hs : s.Reachable)
    (htold : ((tellRule name clauses).applyTo s).1.toOption = some (ids, rule))
    (hpattern : Rule.readPattern (.indexed ((tellRule name clauses).applyTo s).2) rule =
      .ok (points, slots))
    (hproduct : Rule.readProduct (.indexed ((tellRule name clauses).applyTo s).2) rule =
      .ok product)
    (hknown : ∀ x ∈ product, (((tellRule name clauses).applyTo s).2.find? x).isSome = true) :
    ∃ t u r, (tellRule name clauses).applyTo s = (.ok (ids, rule), t) ∧
      Space.buildIndex.applyTo t = (.ok (), u) ∧ Rule.compile (.ofStore u) rule = .ok r ∧
      r.product = product := by
  obtain ⟨t, u, r, hrun, hindex, hcompile, _, _, hr⟩ :=
    exists_told_read points slots hs htold hpattern hproduct hknown
  exact ⟨t, u, r, hrun, hindex, hcompile, hr⟩

/-- "A point is kept, and a new one gets a note." -/
def noteClauses : List Clause :=
  [.patternPoint Label.wildcard, .producePoint "new", .produce "note" [⟨0, 2⟩]]

/-- Both cells are read back. -/
theorem product_tellRule_noteClauses :
    ∃ t u r, (tellRule "note" noteClauses).applyTo (.empty 0) =
        (.ok ([⟨0, 1⟩, ⟨0, 2⟩, ⟨0, 3⟩], ⟨0, 0⟩), t) ∧
      Space.buildIndex.applyTo t = (.ok (), u) ∧ Rule.compile (.ofStore u) ⟨0, 0⟩ = .ok r ∧
      strays ⟨0, 0⟩ .product ([⟨0, 1⟩, ⟨0, 2⟩, ⟨0, 3⟩].filterMap t.find?) = [] ∧
      r.product = [⟨0, 2⟩, ⟨0, 3⟩] := by
  obtain ⟨t, u, r, htold, hindex, hcompile, hread⟩ :
      ∃ t u r, (tellRule "note" noteClauses).applyTo (.empty 0) =
          (.ok ([⟨0, 1⟩, ⟨0, 2⟩, ⟨0, 3⟩], ⟨0, 0⟩), t) ∧
        Space.buildIndex.applyTo t = (.ok (), u) ∧ Rule.compile (.ofStore u) ⟨0, 0⟩ = .ok r ∧
        r.product = [⟨0, 2⟩, ⟨0, 3⟩] :=
    exists_told 1 [⟨⟨0, 1⟩, 0, .any, none⟩] (.empty 0) (by decide +kernel) (by decide +kernel)
      (by decide +kernel) (by decide +kernel)
  obtain ⟨hpoints, _⟩ := product_tellRule (Store.Reachable.empty 0) htold hindex hcompile
  obtain ⟨_, _, hall⟩ := hpoints ⟨_, List.mem_cons_of_mem _ List.mem_cons_self, rfl⟩
  exact ⟨t, u, r, htold, hindex, hcompile, hall.mp hread, hread⟩

/-- **Two products that are not read back.** The first has no point, and all of it is dropped. In
the second a cell to be made looks like a scaffold, and the first cell is dropped. -/
theorem product_tellRule_wrong :
    (∃ t u r, (tellRule "note" [.patternPoint Label.wildcard, .produce "note" []]).applyTo
          (.empty 0) = (.ok ([⟨0, 1⟩, ⟨0, 2⟩], ⟨0, 0⟩), t) ∧
        Space.buildIndex.applyTo t = (.ok (), u) ∧ Rule.compile (.ofStore u) ⟨0, 0⟩ = .ok r ∧
        r.product = []) ∧
      ∃ t u r, (tellRule "stray" [.patternPoint Label.wildcard, .producePoint "new",
            .produce Label.productScaffold [⟨0, 0⟩], .produce "note" [⟨0, 2⟩]]).applyTo
          (.empty 0) = (.ok ([⟨0, 1⟩, ⟨0, 2⟩, ⟨0, 3⟩, ⟨0, 4⟩], ⟨0, 0⟩), t) ∧
        Space.buildIndex.applyTo t = (.ok (), u) ∧ Rule.compile (.ofStore u) ⟨0, 0⟩ = .ok r ∧
        r.product = [⟨0, 3⟩, ⟨0, 4⟩] :=
  ⟨exists_told 1 [⟨⟨0, 1⟩, 0, .any, none⟩] (.empty 0) (by decide +kernel) (by decide +kernel)
      (by decide +kernel) (by decide +kernel),
    exists_told 1 [⟨⟨0, 1⟩, 0, .any, none⟩] (.empty 0) (by decide +kernel) (by decide +kernel)
      (by decide +kernel) (by decide +kernel)⟩

end Told

end CellComplex
