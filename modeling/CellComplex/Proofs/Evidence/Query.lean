import CellComplex.Evidence.Query
import CellComplex.Proofs.Evidence.Walk

/-!
# Which edges answer a question

A question "x label y" goes to the coface index and takes the ids in their order. What it finds, by
the cells alone:

* `Cell.Says`: a live edge with the label from `x` to `y`; `make_says`: of two points one is made;
* `Store.Answers`: an id of such a cell;
* **`Reachable.mem_candidates`**: with a fresh index the candidates are the answers, each once, and
  oldest first (`candidates_eq`);
* `query_of_none`, `query_of_one`, `query_of_more`: what is made of them;
* **`query_eq_ambiguous`**: when a question is ambiguous, and what it names then.
-/

namespace CellComplex

/-- **The cell says "x label y"**: it is a live edge with the label from `x` to `y`. -/
structure Cell.Says (c : Cell) (label : String) (x y : CellId) : Prop where
  isLive : c.isLive = true
  dimension : c.dimension = 1
  label_eq : c.label = label
  boundary : c.boundary = [x, y]

/-- An edge of the store that says "x label y". -/
def Store.Answers (s : Store) (label : String) (x y id : CellId) : Prop :=
  ∃ c, s.find? id = some c ∧ c.Says label x y

theorem Store.Answers.mono {s t : Store} {label : String} {x y id : CellId}
    (h : s.Answers label x y id) (hkept : ∀ id c, s.find? id = some c → t.find? id = some c) :
    t.Answers label x y id := by
  obtain ⟨c, hc, hsay⟩ := h
  exact ⟨c, hkept id c hc, hsay⟩

section Says

variable {c : Cell} {label : String} {x y : CellId}

/-- What says "x label y" is an edge. -/
theorem Cell.Says.isEdge (h : c.Says label x y) : c.isEdge = true := by
  have hlen : c.boundary.length = edgeEnds := by rw [h.boundary]; rfl
  exact Space.isEdge_iff.mpr ⟨h.dimension, hlen, h.isLive⟩

/-- The test of a candidate is the statement that it says. -/
theorem says_iff :
    (c.isEdge && c.label == label && c.boundary == [x, y]) = true ↔ c.Says label x y := by
  rw [Bool.and_eq_true, Bool.and_eq_true, beq_iff_eq, beq_iff_eq]
  refine ⟨fun h => ?_, fun h => ⟨⟨h.isEdge, h.label_eq⟩, h.boundary⟩⟩
  obtain ⟨⟨hedge, hlabel⟩, hboundary⟩ := h
  obtain ⟨hdim, _, hlive⟩ := Space.isEdge_iff.mp hedge
  exact ⟨hlive, hdim, hlabel, hboundary⟩

/-- Of two points a cell is made that says so. -/
theorem make_says {look : Lookup} (id : CellId) (label : String) (hs : look.Sound)
    (hx : look.IsPoint x) (hy : look.IsPoint y) :
    ∃ c, Cell.make look id label [x, y] .full = .ok c ∧ c.Says label x y := by
  obtain ⟨c, hmake, hone⟩ := make_edge id label hs hx hy
  obtain ⟨_, hlabel, hboundary, hlive⟩ := make_fields hmake
  exact ⟨c, hmake, Store.isLive_iff.mpr hlive, hone, hlabel, hboundary⟩

end Says

namespace Space

variable {sp : Space} {label l : String} {x y id first second : CellId} {rest : List CellId}
variable {c cx cy : Cell}

/-! ## 1. Candidates -/

theorem candidates_nodup : (sp.candidates label x y).Nodup :=
  (toList_nodup (sp.cofacesOf x)).filter _

theorem mem_candidates :
    id ∈ sp.candidates label x y ↔
      id ∈ sp.cofacesOf x ∧ ∃ c, sp.find? id = some c ∧ c.Says label x y := by
  unfold candidates satisfies
  rw [List.mem_filter, Std.TreeSet.mem_toList, Option.any_eq_true]
  exact and_congr_right fun _ => exists_congr fun c => and_congr_right fun _ => says_iff

/-! ## 2. Answers -/

section Query

variable (hx : sp.find? x = some cx) (hy : sp.find? y = some cy)
include hx hy

/-- A question about known cells is settled by the candidates. -/
theorem query_known :
    sp.query label x y = match sp.candidates label x y with
      | [] => .ok (Embedding.ofTruth .prior)
      | [only] => (sp.resolve only).map Cell.embedding
      | first :: second :: _ => .error (.ambiguous label first second) := by
  have hx' : sp.resolve x = .ok cx := Lookup.resolve_eq_ok.mpr hx
  have hy' : sp.resolve y = .ok cy := Lookup.resolve_eq_ok.mpr hy
  unfold query
  rw [hx', hy']
  show (match sp.candidates label x y with
    | [] => _
    | [only] => _
    | first :: second :: _ => _ : Except StoreError Embedding) = _
  split
  · rfl
  · next only _ => cases sp.resolve only <;> rfl
  · rfl

theorem query_of_none (h : sp.candidates label x y = []) :
    sp.query label x y = .ok (Embedding.ofTruth .prior) := by
  rw [query_known hx hy, h]

theorem query_of_one (h : sp.candidates label x y = [id]) (hc : sp.find? id = some c) :
    sp.query label x y = .ok c.embedding := by
  have hid : sp.resolve id = .ok c := Lookup.resolve_eq_ok.mpr hc
  rw [query_known hx hy, h]
  show (sp.resolve id).map Cell.embedding = _
  rw [hid]
  rfl

theorem query_of_more (h : sp.candidates label x y = first :: second :: rest) :
    sp.query label x y = .error (.ambiguous label first second) := by
  rw [query_known hx hy, h]

end Query

/-- A question about an unknown cell fails, and not because it is ambiguous. -/
theorem query_of_unknown (h : sp.find? x = none ∨ sp.find? y = none) :
    ∃ z, sp.query label x y = .error (.unknownCell z) := by
  unfold query
  cases hx : sp.resolve x with
  | error e =>
    obtain ⟨_, rfl⟩ := Lookup.resolve_eq_error.mp hx
    exact ⟨x, rfl⟩
  | ok cx =>
    cases hy : sp.resolve y with
    | error e =>
      obtain ⟨_, rfl⟩ := Lookup.resolve_eq_error.mp hy
      exact ⟨y, rfl⟩
    | ok cy =>
      have hx' : sp.find? x = some cx := Lookup.resolve_eq_ok.mp hx
      have hy' : sp.find? y = some cy := Lookup.resolve_eq_ok.mp hy
      rw [hx', hy'] at h
      rcases h with h | h <;> cases h

/-! ## 3. Ambiguous questions -/

/-- What a question comes to: an answer, an end that is not in sight, or several answers. -/
theorem query_cases (sp : Space) (label : String) (x y : CellId) :
    (∃ e, sp.query label x y = .ok e) ∨ (∃ z, sp.query label x y = .error (.unknownCell z)) ∨
      ∃ first second rest, sp.contains x = true ∧ sp.contains y = true ∧
        sp.candidates label x y = first :: second :: rest ∧
        sp.query label x y = .error (.ambiguous label first second) := by
  cases hx : sp.find? x with
  | none => exact Or.inr (Or.inl (query_of_unknown (Or.inl hx)))
  | some cx =>
    cases hy : sp.find? y with
    | none => exact Or.inr (Or.inl (query_of_unknown (Or.inr hy)))
    | some cy =>
      match hcands : sp.candidates label x y with
      | [] => exact Or.inl ⟨_, query_of_none hx hy hcands⟩
      | [only] =>
        rw [query_known hx hy, hcands]
        cases honly : sp.resolve only with
        | ok c => exact Or.inl ⟨c.embedding, congrArg (Except.map Cell.embedding) honly⟩
        | error err =>
          obtain ⟨_, rfl⟩ := Lookup.resolve_eq_error.mp honly
          exact Or.inr (Or.inl ⟨only, congrArg (Except.map Cell.embedding) honly⟩)
      | first :: second :: rest =>
        exact Or.inr (Or.inr ⟨first, second, rest, by simp [contains, hx], by simp [contains, hy],
          rfl, query_of_more hx hy hcands⟩)

/-- **A question is ambiguous exactly if its ends are in sight and several edges answer it**; the
first two of them are named. -/
theorem query_eq_ambiguous :
    sp.query label x y = .error (.ambiguous l first second) ↔
      sp.contains x = true ∧ sp.contains y = true ∧ l = label ∧
        ∃ rest, sp.candidates label x y = first :: second :: rest := by
  refine ⟨fun h => ?_, fun h => ?_⟩
  · rcases query_cases sp label x y with ⟨e, hok⟩ | ⟨z, hunknown⟩ | hambiguous
    · cases hok.symm.trans h
    · cases hunknown.symm.trans h
    · obtain ⟨first', second', rest, hx, hy, hcands, hquery⟩ := hambiguous
      cases hquery.symm.trans h
      exact ⟨hx, hy, rfl, rest, hcands⟩
  · obtain ⟨hx, hy, rfl, rest, hcands⟩ := h
    obtain ⟨cx, hcx⟩ := Option.isSome_iff_exists.mp hx
    obtain ⟨cy, hcy⟩ := Option.isSome_iff_exists.mp hy
    exact query_of_more hcx hcy hcands

/-- No question is answered by a complaint about the rounds. -/
theorem query_ne_stalled {n : Nat} :
    sp.query label x y ≠ .error (.resolutionStalled l n) := by
  intro h
  rcases query_cases sp label x y with ⟨e, hok⟩ | ⟨z, hunknown⟩ | ⟨_, _, _, _, _, _, hquery⟩
  · cases hok.symm.trans h
  · cases hunknown.symm.trans h
  · cases hquery.symm.trans h

/-- Where several edges answer and the ends are in sight, the question is ambiguous. -/
theorem exists_ambiguous (hx : sp.contains x = true) (hy : sp.contains y = true)
    (hmany : 2 ≤ (sp.candidates label x y).length) :
    ∃ first second, sp.query label x y = .error (.ambiguous label first second) := by
  match hcands : sp.candidates label x y with
  | first :: second :: rest =>
    exact ⟨first, second, query_eq_ambiguous.mpr ⟨hx, hy, rfl, rest, hcands⟩⟩
  | [] => simp [hcands] at hmany
  | [_] => simp [hcands] at hmany

/-- An ambiguous question has several candidates. -/
theorem two_le_candidates (h : sp.query label x y = .error (.ambiguous l first second)) :
    2 ≤ (sp.candidates label x y).length := by
  obtain ⟨_, _, _, rest, hcands⟩ := query_eq_ambiguous.mp h
  simp [hcands]

end Space

namespace Store

variable {s : Store} {label : String} {x y id : CellId} {edges : List CellId}

/-! ## 4. Stores with a fresh index -/

/-- **With a fresh index the candidates are the answers.** -/
theorem Reachable.mem_candidates (h : s.Reachable) (hfresh : s.isStale = false)
    (hx : ∃ c, s.find? x = some c ∧ c.isLive = true) :
    id ∈ (Space.ofStore s).candidates label x y ↔ s.Answers label x y id := by
  have hcofaces : (Space.ofStore s).cofacesOf x = s.cofacesOf x := rfl
  rw [Space.mem_candidates, hcofaces, h.mem_cofacesOf hfresh, find?_ofStore]
  refine ⟨fun h' => h'.2, fun h' => ⟨⟨hx, ?_⟩, h'⟩⟩
  obtain ⟨c, hc, hsay⟩ := h'
  have hdim : 1 ≤ c.dimension := Nat.le_of_eq hsay.dimension.symm
  have hmem : x ∈ c.boundary := by simp [hsay.boundary]
  exact ⟨c, hc, hsay.isLive, hdim, hmem⟩

/-- A link that is found, orientation counting, is an answer. -/
theorem answers_of_findLink? (h : (Space.ofStore s).findLink? x y label true = some id) :
    s.Answers label x y id := by
  have htest := List.find?_some h
  unfold Space.satisfies Space.joins at htest
  rw [find?_ofStore, Option.any_eq_true] at htest
  obtain ⟨c, hc, htest⟩ := htest
  exact ⟨c, hc, says_iff.mp (by simpa using htest)⟩

/-- **The edges that say "x label y"**, each once, in any order. -/
structure AnsweredBy (s : Store) (label : String) (x y : CellId) (edges : List CellId) : Prop where
  nodup : edges.Nodup
  mem_iff : ∀ id, id ∈ edges ↔ s.Answers label x y id

theorem Reachable.answeredBy_candidates (h : s.Reachable) (hfresh : s.isStale = false)
    (hx : ∃ c, s.find? x = some c ∧ c.isLive = true) :
    s.AnsweredBy label x y ((Space.ofStore s).candidates label x y) where
  nodup := Space.candidates_nodup
  mem_iff _ := h.mem_candidates hfresh hx

/-- Two lists of all answers differ in their order only. -/
theorem AnsweredBy.perm {edges' : List CellId} (h : s.AnsweredBy label x y edges)
    (h' : s.AnsweredBy label x y edges') : edges.Perm edges' := by
  rw [List.perm_ext_iff_of_nodup h.nodup h'.nodup]
  exact fun id => (h.mem_iff id).trans (h'.mem_iff id).symm

end Store

namespace Space

variable {s : Store} {label : String} {x y : CellId} {edges : List CellId}

/-! ## 5. The order of the candidates -/

/-- The answers, each once, oldest first. -/
structure Listed (label : String) (x y : CellId) (s : Store) (edges : List CellId) : Prop extends
    Store.AnsweredBy s label x y edges where
  ascending : edges.Pairwise fun a b => a.index < b.index

/-- **The candidates are the answers, oldest first.** -/
theorem candidates_eq (hs : s.Reachable) (hfresh : s.isStale = false) (hx : s.IsLivePoint x)
    (hedges : Listed label x y s edges) : (ofStore s).candidates label x y = edges := by
  have hcands : s.AnsweredBy label x y ((ofStore s).candidates label x y) :=
    hs.answeredBy_candidates hfresh hx.isLive
  have hstore : ∀ z ∈ (ofStore s).candidates label x y, z.store = s.id := by
    intro z hz
    obtain ⟨c, hc, _⟩ := (hcands.mem_iff z).mp hz
    exact (Store.find?_eq_some_iff.mp hc).1
  have hordered : ((ofStore s).candidates label x y).Pairwise fun a b => compare a b = .lt :=
    Std.TreeSet.ordered_toList.filter _
  have hascending : ((ofStore s).candidates label x y).Pairwise fun a b => a.index < b.index :=
    hordered.imp_of_mem fun ha hb h =>
      (CellId.compare_eq_lt ((hstore _ ha).trans (hstore _ hb).symm)).mp h
  refine (hcands.perm hedges.toAnsweredBy).eq_of_pairwise (fun a b _ _ hab hba => ?_) hascending
    hedges.ascending
  exact absurd hab (Nat.lt_asymm hba)

end Space

end CellComplex
