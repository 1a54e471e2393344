import CellComplex.Proofs.Rewrite.Transitive
import CellComplex.Proofs.Rule.Product
import CellComplex.Proofs.Rule.Scaffolds

/-!
# Whether a rule matches its own pattern

The number of points of a rule is the number of its scaffolds, and its positions are what is left of
the listing. A selection matches if it has both in number, and fits position by position. What a
rule was told as its pattern always fits position by position, but the numbers need not agree.

* `Space.fits_iff`: when a selection matches;
* `Written.listedCells`: the cells that a side lists, in order;
* `countP_eq_countP_iff`: of two tests one of which implies the other, when they count the same;
* `Written.countP_points`: the told pattern has as many points as the rule, unless a clause made a
  point that is no point of the pattern;
* **`fits_tellRule`**: exactly when a rule that was told matches what it was told;
  **`fits_tellRule_wrong`**: two that do not.
-/

namespace CellComplex

/-! ## 1. Matching -/

/-- Cells that match have as many points as the rule. -/
theorem matchCells_points {rule : Rule} {cells : List Cell} {m : Matching}
    (h : rule.matchCells cells = .ok m) : cells.countP (·.dimension == 0) = rule.points := by
  unfold Rule.matchCells at h
  split at h
  · cases h
  · dsimp only at h
    split at h
    · cases h
    · next hpoints => exact Decidable.not_not.mp hpoints

/-- **When a selection matches**: its cells are there and alive, as many points and cells as the
rule has, and every one fits its position. -/
theorem Space.fits_iff {sp : Space} {rule : Rule} {selection : List CellId} :
    sp.fits rule selection = true ↔ ∃ cells, selection.mapM sp.lookup.resolve = .ok cells ∧
      (∀ c ∈ cells, c.deleted = false) ∧ cells.countP (·.dimension == 0) = rule.points ∧
      cells.length = rule.pattern.length ∧
      ∀ p ∈ rule.pattern.zip cells, p.1.misfit? p.2 = none := by
  constructor
  · intro h
    unfold fits at h
    cases hmatch : sp.matchRule rule selection with
    | error err =>
      rw [hmatch] at h
      cases h
    | ok m =>
      obtain ⟨cells, hcells, hm⟩ := matchRule_eq_ok hmatch
      obtain ⟨hlive, hlength, hslots⟩ := matchCells_eq_ok hm
      exact ⟨cells, hcells, hlive, matchCells_points hm, hlength, matchSlots_fits hslots⟩
  · rintro ⟨cells, hcells, hlive, hpoints, hlength, hfit⟩
    obtain ⟨m, hm⟩ := exists_matchCells hlive hpoints hlength hfit
    have hmatch : sp.matchRule rule selection = .ok m := by
      refine Outcome.bind_eq_ok.mpr ⟨cells, hcells, ?_⟩
      rw [hm]
      rfl
    unfold fits
    rw [hmatch]
    rfl

/-- Matching looks at nothing but the number of points and the positions. -/
theorem Space.fits_congr {sp : Space} {rule rule' : Rule} (hpoints : rule.points = rule'.points)
    (hpattern : rule.pattern = rule'.pattern) (selection : List CellId) :
    sp.fits rule selection = sp.fits rule' selection := by
  rw [Bool.eq_iff_iff, fits_iff, fits_iff, hpoints, hpattern]

/-! ## 2. What was told -/

/-- Of two tests one of which implies the other, both count the same if nothing passes only one. -/
theorem countP_eq_countP_iff {α : Type} {p q : α → Bool} {xs : List α}
    (h : ∀ x ∈ xs, q x = true → p x = true) :
    xs.countP p = xs.countP q ↔ ∀ x ∈ xs, p x = true → q x = true := by
  induction xs with
  | nil => exact iff_of_true rfl fun x hx => absurd hx List.not_mem_nil
  | cons x xs ih =>
    have ih := ih fun y hy => h y (List.mem_cons_of_mem _ hy)
    have hle : xs.countP q ≤ xs.countP p :=
      List.countP_mono_left fun y hy => h y (List.mem_cons_of_mem _ hy)
    have hx := h x List.mem_cons_self
    rw [List.forall_mem_cons, ← ih, List.countP_cons, List.countP_cons]
    cases hp : p x with
    | false =>
      have hq : q x = false := by simpa [hp] using hx
      simp [hq]
    | true =>
      cases hq : q x with
      | false =>
        have hmore : xs.countP p + 1 ≠ xs.countP q := by omega
        simp [hmore]
      | true => simp

/-- The clauses that list a point in the pattern and tell none. -/
theorem Clause.hollow_iff {clause : Clause} :
    clause.isListedOn .pattern = true ∧ clause.boundary = [] ∧ ¬ clause.isPointOf .pattern = true ↔
      ∃ label, clause = .patternCell label [] := by
  cases clause <;> simp [isListedOn, boundary, isPointOf]

namespace Written

variable {s : Store} {root : Cell} {entries : List (Clause × Cell)} {listings : List Listing}
variable {r : Rule}

/-- **The cells that a side lists**, in order. -/
def listedCells (side : Side) (entries : List (Clause × Cell)) : List Cell :=
  (entries.filter fun e => e.1.isListedOn side).map Prod.snd

theorem map_id_listedCells {side : Side} :
    (listedCells side entries).map Cell.id = idsWhere (·.isListedOn side) (named entries) := by
  unfold listedCells idsWhere named
  rw [List.filter_map, List.map_map, List.map_map]
  rfl

theorem mem_listedCells {side : Side} {c : Cell} :
    c ∈ listedCells side entries ↔ ∃ e ∈ entries, e.1.isListedOn side = true ∧ e.2 = c := by
  simp [listedCells, and_assoc]

variable (h : Written s root entries listings) (hs : s.Consistent)
include h

/-- What was told is found. -/
theorem resolve_listedCells {side : Side} :
    (idsWhere (·.isListedOn side) (named entries)).mapM
      (Space.indexed (ruleStore s root entries listings)).lookup.resolve =
        .ok (listedCells side entries) := by
  rw [← map_id_listedCells]
  refine Outcome.mapM_eq_ok.mpr (List.forall₂_map_left_iff.mpr (List.forall₂_same.mpr ?_))
  intro c hc
  obtain ⟨e, he, _, rfl⟩ := mem_listedCells.mp hc
  exact Lookup.resolve_eq_ok.mpr (h.find?_indexed (mem_cells he))

theorem listedCells_live {side : Side} : ∀ c ∈ listedCells side entries, c.deleted = false := by
  intro c hc
  obtain ⟨e, he, _, rfl⟩ := mem_listedCells.mp hc
  exact Store.isLive_iff.mp (h.lines.isLive (mem_cells he))

include hs

/-- **The told pattern has as many points as clauses that tell a point**, unless another clause made
a point too. -/
theorem countP_points :
    (listedCells .pattern entries).countP (·.dimension == 0) =
        (entries.map Prod.fst).countP (·.isPointOf .pattern) ↔
      ∀ label, Clause.patternCell label [] ∉ entries.map Prod.fst := by
  have hpoint : ∀ e ∈ entries, e.1.isListedOn .pattern = true →
      (e.2.dimension = 0 ↔ e.1.boundary = []) := by
    intro e he hlisted
    have hside : e.1.side? ≠ none := by simp [Clause.side?_of_isListedOn hlisted]
    rw [← h.said.boundary e he hside]
    exact (h.lines.consistent hs).sound.point_iff _ _ (h.find?_entry he)
  have hcount : (listedCells .pattern entries).countP (·.dimension == 0) =
      entries.countP fun e => e.1.isListedOn .pattern && e.2.dimension == 0 := by
    unfold listedCells
    rw [List.countP_map, List.countP_filter]
    exact List.countP_congr fun e _ => by simp [and_comm]
  rw [hcount, List.countP_map, countP_eq_countP_iff]
  · constructor
    · intro hall label hmem
      obtain ⟨e, he, hclause⟩ := List.mem_map.mp hmem
      obtain ⟨hlisted, hempty, hother⟩ := Clause.hollow_iff.mpr ⟨label, hclause⟩
      have hzero := (hpoint e he hlisted).mpr hempty
      exact hother (hall e he (by simp [hlisted, hzero]))
    · intro hnone e he hpassed
      obtain ⟨hlisted, hzero⟩ := Bool.and_eq_true_iff.mp hpassed
      have hempty := (hpoint e he hlisted).mp (beq_iff_eq.mp hzero)
      by_contra hother
      obtain ⟨label, hclause⟩ := Clause.hollow_iff.mp ⟨hlisted, hempty, hother⟩
      exact hnone label (hclause ▸ List.mem_map_of_mem he)
  · intro e he htold
    have hlisted : e.1.isListedOn .pattern = true := by
      rw [Clause.isListedOn_pattern]
      exact decide_eq_true (Clause.side?_of_isPointOf htold)
    have hzero := (hpoint e he hlisted).mpr (Clause.boundary_of_isPointOf htold)
    simp [hlisted, hzero]

/-- What is read of the pattern: as many points too many as there are strays, and as many positions
too few. -/
theorem pattern_strays
    (hrule : Rule.compile (.indexed (ruleStore s root entries listings)) root.id = .ok r) :
    (∀ y ∈ strays root.id .pattern (entries.map Prod.snd),
        y ∈ idsWhere (·.isListedOn .pattern) (named entries)) ∧
      r.points = (entries.map Prod.fst).countP (·.isPointOf .pattern) +
        (strays root.id .pattern (entries.map Prod.snd)).length ∧
      ((idsWhere (·.isListedOn .pattern) (named entries)).drop
        (strays root.id .pattern (entries.map Prod.snd)).length).mapM
          (Space.indexed (ruleStore s root entries listings)).readSlot = .ok r.pattern := by
  obtain ⟨hpattern, _, _⟩ := compile_holds hrule
  obtain ⟨ids, listing, hids, hlisting, hpoints, hslots⟩ := readPattern_holds hpattern
  obtain ⟨l, hl, hside⟩ := List.mem_map.mp h.pattern
  rw [← hside] at hids hlisting
  obtain ⟨hstrays, hlength, hdrop⟩ := h.read_strays hs hl hids hlisting
  rw [hdrop] at hslots
  rw [h.listed l hl, hside] at hstrays hslots
  rw [h.points l hl, hside, length_idsWhere rfl] at hlength
  exact ⟨hstrays, hpoints.trans hlength, hslots⟩

/-- **Exactly when a written rule matches what it was told.** -/
theorem fits_iff
    (hrule : Rule.compile (.indexed (ruleStore s root entries listings)) root.id = .ok r) :
    (Space.indexed (ruleStore s root entries listings)).fits r
        (idsWhere (·.isListedOn .pattern) (named entries)) = true ↔
      strays root.id .pattern (entries.map Prod.snd) = [] ∧
        ∀ label, Clause.patternCell label [] ∉ entries.map Prod.fst := by
  obtain ⟨hstrays, hpoints, hslots⟩ := h.pattern_strays hs hrule
  have hlength := Outcome.mapM_length hslots
  rw [List.length_drop] at hlength
  rw [Space.fits_iff, ← h.countP_points hs]
  constructor
  · rintro ⟨cells, hcells, _, hcount, hcellcount, _⟩
    cases (h.resolve_listedCells).symm.trans hcells
    have hle := (List.subperm_of_subset h.strays_nodup hstrays).length_le
    rw [← map_id_listedCells, List.length_map] at hlength hle
    have hnone : (strays root.id .pattern (entries.map Prod.snd)).length = 0 := by omega
    exact ⟨List.length_eq_zero_iff.mp hnone, by omega⟩
  · rintro ⟨hnone, hcount⟩
    rw [hnone, List.length_nil] at hlength hpoints
    rw [hnone, List.length_nil, List.drop_zero, ← map_id_listedCells] at hslots
    rw [← map_id_listedCells, List.length_map] at hlength
    refine ⟨_, h.resolve_listedCells, h.listedCells_live, hcount.trans hpoints.symm,
      hlength.symm, fun p hp => ?_⟩
    -- every cell fits the position that was read of it
    have hall := List.forall₂_map_left_iff.mp (Outcome.mapM_eq_ok.mp hslots)
    obtain ⟨slot, c⟩ := p
    have hslot := (List.forall₂_iff_zip.mp hall.flip).2 hp
    obtain ⟨d, hd, _, hdimension, hlabel⟩ := Space.readSlot_fields hslot
    obtain ⟨e, he, _, rfl⟩ := mem_listedCells.mp (List.of_mem_zip hp).2
    cases (h.find?_indexed (mem_cells he)).symm.trans hd
    exact PatternSlot.misfit?_eq_none.mpr
      ⟨hdimension, hlabel ▸ LabelPattern.ofLabel_fits e.2.label⟩

end Written

/-! ## 3. Rules that were told -/

section Told

variable {s t u : Store} {name : String} {clauses : List Clause} {ids : List CellId} {rule : CellId}
variable {r : Rule}

/-- **Exactly when a rule matches what it was told as its pattern**: no cell of a clause looks like
a scaffold of the pattern, and every point that was told of the pattern was told as a point. Each cell
that looks like a scaffold is one point more, and takes the place of one position. -/
theorem fits_tellRule (hs : s.Reachable)
    (htold : (tellRule name clauses).applyTo s = (.ok (ids, rule), t))
    (hindex : Space.buildIndex.applyTo t = (.ok (), u))
    (hcompile : Rule.compile (.ofStore u) rule = .ok r) :
    r.points = clauses.countP (·.isPointOf .pattern) +
        (strays rule .pattern (ids.filterMap t.find?)).length ∧
      r.pattern.map PatternSlot.template = (idsWhere (·.isListedOn .pattern) (clauses.zip ids)).drop
        (strays rule .pattern (ids.filterMap t.find?)).length ∧
      ((Space.ofStore u).fits r (idsWhere (·.isListedOn .pattern) (clauses.zip ids)) = true ↔
        strays rule .pattern (ids.filterMap t.find?) = [] ∧
          ∀ label, Clause.patternCell label [] ∉ clauses) := by
  obtain ⟨root, entries, listings, hwritten, rfl, rfl, rfl, rfl⟩ := written_of_tellRule htold
  rw [Space.applyTo_buildIndex] at hindex
  cases hindex
  obtain ⟨_, hpoints, hslots⟩ := hwritten.pattern_strays hs.consistent hcompile
  rw [← named_eq_zip rfl rfl, hwritten.filterMap_find?]
  exact ⟨hpoints, Space.readSlots_templates hslots, hwritten.fits_iff hs.consistent hcompile⟩

/-- "Two points, the second of them of any label, and an edge between them." -/
def edgeClauses : List Clause :=
  [.patternPoint "a", .patternPoint Label.wildcard, .patternCell "is" [⟨0, 1⟩, ⟨0, 2⟩]]

/-- The rule matches the cells that describe its pattern. -/
theorem fits_tellRule_edgeClauses :
    ∃ t u r, (tellRule "edge" edgeClauses).applyTo (.empty 0) =
        (.ok ([⟨0, 1⟩, ⟨0, 2⟩, ⟨0, 3⟩], ⟨0, 0⟩), t) ∧
      Space.buildIndex.applyTo t = (.ok (), u) ∧ Rule.compile (.ofStore u) ⟨0, 0⟩ = .ok r ∧
      (Space.ofStore u).fits r [⟨0, 1⟩, ⟨0, 2⟩, ⟨0, 3⟩] = true := by
  obtain ⟨t, u, r, htold, hindex, hcompile, hproduct⟩ :
      ∃ t u r, (tellRule "edge" edgeClauses).applyTo (.empty 0) =
          (.ok ([⟨0, 1⟩, ⟨0, 2⟩, ⟨0, 3⟩], ⟨0, 0⟩), t) ∧
        Space.buildIndex.applyTo t = (.ok (), u) ∧ Rule.compile (.ofStore u) ⟨0, 0⟩ = .ok r ∧
        r.product = [] :=
    exists_told 2 [⟨⟨0, 1⟩, 0, .exact "a", none⟩, ⟨⟨0, 2⟩, 0, .any, none⟩,
      ⟨⟨0, 3⟩, 1, .exact "is", none⟩] (.empty 0) (by decide +kernel) (by decide +kernel)
      (by decide +kernel) (by decide +kernel)
  obtain ⟨hpoints, _, hfits⟩ := fits_tellRule (Store.Reachable.empty 0) htold hindex hcompile
  have hnone : strays ⟨0, 0⟩ .pattern (([⟨0, 1⟩, ⟨0, 2⟩, ⟨0, 3⟩] : List CellId).filterMap
      ((tellRule "edge" edgeClauses).applyTo (.empty 0)).2.find?) = [] := by decide +kernel
  rw [htold] at hnone
  exact ⟨t, u, r, htold, hindex, hcompile, hfits.mpr ⟨hnone, by simp [edgeClauses]⟩⟩

/-- A rule that was told and what it was told, where both can be evaluated. -/
theorem exists_told_fits (points : Nat) (slots : List PatternSlot) {fits : Bool}
    {selection : List CellId} (hs : s.Reachable)
    (htold : ((tellRule name clauses).applyTo s).1.toOption = some (ids, rule))
    (hpattern : Rule.readPattern (.indexed ((tellRule name clauses).applyTo s).2) rule =
      .ok (points, slots))
    (hproduct : Rule.readProduct (.indexed ((tellRule name clauses).applyTo s).2) rule = .ok [])
    (hfits : (Space.indexed ((tellRule name clauses).applyTo s).2).fits
      ⟨rule, points, slots, [], ∅⟩ selection = fits) :
    ∃ t u r, (tellRule name clauses).applyTo s = (.ok (ids, rule), t) ∧
      Space.buildIndex.applyTo t = (.ok (), u) ∧ Rule.compile (.ofStore u) rule = .ok r ∧
      (Space.ofStore u).fits r selection = fits := by
  obtain ⟨t, u, r, hrun, hindex, hcompile, hpoints, hslots, _⟩ :=
    exists_told_read points slots hs htold hpattern hproduct fun _ hx => absurd hx List.not_mem_nil
  refine ⟨t, u, r, hrun, hindex, hcompile, ?_⟩
  rw [Space.applyTo_buildIndex] at hindex
  cases hindex
  rw [hrun] at hfits
  exact (Space.fits_congr hpoints hslots selection).trans hfits

/-- **Two rules that do not match what they were told.** In the first a cell of the pattern is told
without a boundary, and is a point more than the rule counts. In the second a cell of the pattern
looks like a scaffold: the rule counts a point more than it was told, and has a position less. -/
theorem fits_tellRule_wrong :
    (∃ t u r, (tellRule "bare" [.patternPoint "a", .patternCell "b" [],
            .patternCell "is" [⟨0, 1⟩, ⟨0, 2⟩]]).applyTo (.empty 0) =
          (.ok ([⟨0, 1⟩, ⟨0, 2⟩, ⟨0, 3⟩], ⟨0, 0⟩), t) ∧
        Space.buildIndex.applyTo t = (.ok (), u) ∧ Rule.compile (.ofStore u) ⟨0, 0⟩ = .ok r ∧
        (Space.ofStore u).fits r [⟨0, 1⟩, ⟨0, 2⟩, ⟨0, 3⟩] = false) ∧
      ∃ t u r, (tellRule "stray" [.patternPoint "a",
            .patternCell Label.patternScaffold [⟨0, 0⟩, ⟨0, 1⟩]]).applyTo (.empty 0) =
          (.ok ([⟨0, 1⟩, ⟨0, 2⟩], ⟨0, 0⟩), t) ∧
        Space.buildIndex.applyTo t = (.ok (), u) ∧ Rule.compile (.ofStore u) ⟨0, 0⟩ = .ok r ∧
        (Space.ofStore u).fits r [⟨0, 1⟩, ⟨0, 2⟩] = false :=
  ⟨exists_told_fits 1 [⟨⟨0, 1⟩, 0, .exact "a", none⟩, ⟨⟨0, 2⟩, 0, .exact "b", none⟩,
      ⟨⟨0, 3⟩, 1, .exact "is", none⟩] (.empty 0) (by decide +kernel) (by decide +kernel)
      (by decide +kernel) (by decide +kernel),
    exists_told_fits 2 [⟨⟨0, 2⟩, 1, .exact Label.patternScaffold, none⟩] (.empty 0)
      (by decide +kernel) (by decide +kernel) (by decide +kernel) (by decide +kernel)⟩

end Told

end CellComplex
