import CellComplex.Proofs.Space.Apply
import CellComplex.Proofs.Store.Lines

/-!
# What writing a rule leaves in the store

The clauses of a rule make one cell each, and the end of the rule makes the scaffolds and listings.
All of them stand in one line behind the cells that were there.

* `Side`: a rule has a pattern and a product; `Clause.side?`, `Clause.label`, `Clause.boundary`:
  what a clause asks for;
* `RuleDraft.apply_add_eq_ok`: every clause makes its cell in the same way;
* `Said`: the cells of some clauses are what the clauses say; `Drafted`: so is the draft;
* **`Drafted.add`**: one clause more; `Drafted.sayAll`: any number;
* `Listing`: a listing with its scaffolds; `RuleDraft.apply_list_eq_ok`: how one is made;
* **`Drafted.finish`**: what a finished rule looks like (`Written`).
-/

namespace CellComplex

/-! ## 1. Clauses -/

/-- The two sides of a rule. -/
inductive Side where
  | pattern
  | product
  deriving DecidableEq, Repr

namespace Side

/-- The label of the edges from the rule cell to the points of a side. -/
def scaffoldLabel : Side → String
  | pattern => Label.patternScaffold
  | product => Label.productScaffold

/-- The label of the listing of a side. -/
def listingLabel : Side → String
  | pattern => Label.pattern
  | product => Label.product

theorem scaffoldLabel_inj {a b : Side} : a.scaffoldLabel = b.scaffoldLabel ↔ a = b := by
  cases a <;> cases b <;> decide

theorem scaffoldLabel_ne_bind (side : Side) : side.scaffoldLabel ≠ Label.bind := by
  cases side <;> decide

theorem listingLabel_ne_bind (side : Side) : side.listingLabel ≠ Label.bind := by
  cases side <;> decide

end Side

namespace Clause

/-- The side that the cell of a clause is on; a bind is on neither. -/
def side? : Clause → Option Side
  | patternPoint _ | patternCell _ _ => some .pattern
  | replacementPoint _ | replacement _ _ | producePoint _ | produce _ _ => some .product
  | bind _ _ => none

/-- The label of the cell of a clause. -/
def label : Clause → String
  | patternPoint l | patternCell l _ | replacementPoint l | replacement l _ | producePoint l
  | produce l _ => l
  | bind _ _ => Label.bind

/-- The boundary that a clause gives. -/
def boundary : Clause → List CellId
  | patternCell _ ids | replacement _ ids | produce _ ids => ids
  | _ => []

/-- Whether the cell of a clause gets a scaffold on a side. -/
def isPointOf : Side → Clause → Bool
  | .pattern, patternPoint _ => true
  | .product, replacementPoint _ => true
  | .product, producePoint _ => true
  | _, _ => false

/-- Whether the cell of a clause is listed on a side. -/
def isListedOn : Side → Clause → Bool
  | .pattern, patternPoint _ => true
  | .pattern, patternCell _ _ => true
  | .product, producePoint _ => true
  | .product, produce _ _ => true
  | _, _ => false

/-- The pattern cell that a clause binds. -/
def bound? : Clause → Option CellId
  | bind pattern _ => some pattern
  | _ => none

theorem side?_of_isPointOf {side : Side} {clause : Clause} (h : clause.isPointOf side = true) :
    clause.side? = some side := by
  cases side <;> cases clause <;> first | rfl | cases h

theorem side?_of_isListedOn {side : Side} {clause : Clause} (h : clause.isListedOn side = true) :
    clause.side? = some side := by
  cases side <;> cases clause <;> first | rfl | cases h

theorem boundary_of_isPointOf {side : Side} {clause : Clause} (h : clause.isPointOf side = true) :
    clause.boundary = [] := by
  cases side <;> cases clause <;> first | rfl | cases h

theorem isListedOn_pattern {clause : Clause} :
    clause.isListedOn .pattern = decide (clause.side? = some .pattern) := by
  cases clause <;> rfl

theorem eq_bind_of_side? {clause : Clause} (h : clause.side? = none) :
    ∃ pattern replacement, clause = bind pattern replacement := by
  cases clause with
  | bind pattern replacement => exact ⟨pattern, replacement, rfl⟩
  | _ => cases h

end Clause

namespace RuleDraft

open Edit

variable {draft draft' : RuleDraft} {clause : Clause} {sp sp' : Space} {id : CellId}

/-- The points of a side. -/
def pointsOf (draft : RuleDraft) : Side → List CellId
  | .pattern => draft.patternPoints
  | .product => draft.productPoints

/-- The cells that are listed on a side. -/
def listedOn (draft : RuleDraft) : Side → List CellId
  | .pattern => draft.pattern
  | .product => draft.product

/-- The boundary of the cell of a clause. -/
def boundaryIn (draft : RuleDraft) (sp : Space) : Clause → Except StoreError (List CellId)
  | .bind pattern replacement => do
    let cell ← sp.resolve pattern
    return draft.bindBoundary pattern replacement cell.boundary
  | clause => .ok clause.boundary

theorem boundaryIn_of_side (draft : RuleDraft) {sp : Space} {clause : Clause}
    {boundary : List CellId} (hside : clause.side? ≠ none)
    (h : draft.boundaryIn sp clause = .ok boundary) : boundary = clause.boundary := by
  cases clause with
  | bind pattern replacement => exact absurd rfl hside
  | _ => exact (Except.ok.inj h).symm

theorem boundaryIn_bind (draft : RuleDraft) {sp : Space} {pattern replacement : CellId}
    {boundary : List CellId} (h : draft.boundaryIn sp (.bind pattern replacement) = .ok boundary) :
    ∃ cell, sp.find? pattern = some cell ∧
      boundary = draft.bindBoundary pattern replacement cell.boundary := by
  obtain ⟨cell, hcell, hboundary⟩ := Outcome.bind_eq_ok.mp h
  exact ⟨cell, Lookup.resolve_eq_ok.mp hcell, (Except.ok.inj hboundary).symm⟩

/-- The draft with the cell of a clause. -/
def record (draft : RuleDraft) (id : CellId) : Clause → RuleDraft
  | .patternPoint _ => { draft with
      patternPoints := draft.patternPoints ++ [id], pattern := draft.pattern ++ [id] }
  | .patternCell _ _ => { draft with pattern := draft.pattern ++ [id] }
  | .replacementPoint _ => { draft with productPoints := draft.productPoints ++ [id] }
  | .replacement _ _ => draft
  | .producePoint _ => { draft with
      productPoints := draft.productPoints ++ [id], product := draft.product ++ [id] }
  | .produce _ _ => { draft with product := draft.product ++ [id] }
  | .bind pattern _ => { draft with binds := draft.binds.insert pattern id }

@[simp] theorem record_rule : (draft.record id clause).rule = draft.rule := by
  cases clause <;> rfl

theorem pointsOf_record (side : Side) : (draft.record id clause).pointsOf side =
    draft.pointsOf side ++ if clause.isPointOf side then [id] else [] := by
  cases side <;> cases clause <;> simp [record, pointsOf, Clause.isPointOf]

theorem listedOn_record (side : Side) : (draft.record id clause).listedOn side =
    draft.listedOn side ++ if clause.isListedOn side then [id] else [] := by
  cases side <;> cases clause <;> simp [record, listedOn, Clause.isListedOn]

theorem getElem?_binds_bind {pattern replacement face : CellId} :
    (draft.record id (.bind pattern replacement)).binds[face]? =
      if pattern = face then some id else draft.binds[face]? := by
  show (draft.binds.insert pattern id)[face]? = _
  rw [Std.TreeMap.getElem?_insert]
  simp

/-- Only a bind changes what is bound. -/
theorem binds_record {face x : CellId} (h : (draft.record id clause).binds[face]? = some x) :
    draft.binds[face]? = some x ∨ ∃ replacement, clause = .bind face replacement ∧ id = x := by
  cases clause with
  | bind pattern replacement =>
    rw [getElem?_binds_bind] at h
    split at h
    · next heq =>
      subst heq
      exact Or.inr ⟨replacement, rfl, Option.some.inj h⟩
    · exact Or.inl h
  | _ => exact Or.inl h

/-- Every clause makes its cell in the same way. -/
theorem apply_add : (draft.add clause).apply sp = (do
    let boundary ← look (draft.boundaryIn · clause)
    let id ← Space.create clause.label boundary
    return (id, draft.record id clause) : Edit (CellId × RuleDraft)).apply sp := by
  cases clause with
  | bind pattern replacement =>
    cases hcell : sp.resolve pattern with
    | error err =>
      have hboundary : draft.boundaryIn sp (.bind pattern replacement) = .error err := by
        show (sp.resolve pattern >>= fun cell => _) = _
        rw [hcell]
        rfl
      rw [apply_bind_error (apply_look_error hboundary)]
      exact apply_bind_error (apply_look_error hcell)
    | ok cell =>
      have hboundary : draft.boundaryIn sp (.bind pattern replacement) =
          .ok (draft.bindBoundary pattern replacement cell.boundary) := by
        show (sp.resolve pattern >>= fun cell => _) = _
        rw [hcell]
        rfl
      rw [apply_bind_ok (apply_look_ok hboundary)]
      exact apply_bind_ok (apply_look_ok hcell)
  | _ => rfl

/-- A clause that is said has made its cell. -/
theorem apply_add_eq_ok : (draft.add clause).apply sp = (.ok (id, draft'), sp') ↔
    ∃ boundary c, draft.boundaryIn sp clause = .ok boundary ∧
      Cell.make sp.lookup (sp.top.nextId 0) clause.label boundary .full = .ok c ∧ c.id = id ∧
      draft' = draft.record id clause ∧ sp' = { sp with top := sp.top.push c } := by
  rw [apply_add]
  refine ⟨fun h => ?_, fun h => ?_⟩
  · obtain ⟨boundary, mid, hlook, h⟩ := apply_bind_eq_ok.mp h
    obtain ⟨hboundary, rfl⟩ := apply_look_eq_ok.mp hlook
    obtain ⟨id', mid, hcreate, h⟩ := apply_bind_eq_ok.mp h
    obtain ⟨c, hmake, rfl, rfl⟩ := Space.apply_createChecked_eq_ok hcreate
    obtain ⟨hpair, rfl⟩ := apply_pure_eq_ok.mp h
    cases hpair
    exact ⟨boundary, c, hboundary, hmake, rfl, rfl, rfl⟩
  · obtain ⟨boundary, c, hboundary, hmake, rfl, rfl, rfl⟩ := h
    have hcreate : (Space.create clause.label boundary).apply sp =
        (.ok c.id, { sp with top := sp.top.push c }) := Space.apply_createChecked_ok hmake
    rw [apply_bind_ok (apply_look_ok hboundary), apply_bind_ok hcreate, apply_pure]

theorem mem_foldl_appendNew (ids more : List CellId) :
    ∃ extra, more.foldl appendNew ids = ids ++ extra ∧ ∀ x ∈ extra, x ∈ more := by
  induction more generalizing ids with
  | nil => exact ⟨[], (List.append_nil ids).symm, fun x hx => hx⟩
  | cons id more ih =>
    obtain ⟨extra, hextra, hmem⟩ := ih (appendNew ids id)
    rw [List.foldl_cons, hextra]
    unfold appendNew
    split
    · exact ⟨extra, rfl, fun x hx => List.mem_cons_of_mem _ (hmem x hx)⟩
    · refine ⟨id :: extra, by simp, fun x hx => ?_⟩
      rcases List.mem_cons.mp hx with rfl | hx
      · exact List.mem_cons_self
      · exact List.mem_cons_of_mem _ (hmem x hx)

/-- The boundary of a bind begins with the two cells; what follows are binds. -/
theorem bindBoundary_eq (draft : RuleDraft) (pattern replacement : CellId) (faces : List CellId) :
    ∃ extra, draft.bindBoundary pattern replacement faces = pattern :: replacement :: extra ∧
      ∀ x ∈ extra, ∃ face ∈ faces, draft.binds[face]? = some x := by
  obtain ⟨extra, hextra, hmem⟩ :=
    mem_foldl_appendNew [pattern, replacement] (faces.filterMap (draft.binds[·]?))
  exact ⟨extra, hextra, fun x hx => List.mem_filterMap.mp (hmem x hx)⟩

end RuleDraft

/-! ## 2. Drafts -/

/-- Clauses and the ids of their cells. -/
def named (entries : List (Clause × Cell)) : List (Clause × CellId) :=
  entries.map fun e => (e.1, e.2.id)

/-- The ids of the cells of some clauses, in the order of the clauses. -/
def idsWhere (p : Clause → Bool) (said : List (Clause × CellId)) : List CellId :=
  (said.filter fun e => p e.1).map Prod.snd

theorem idsWhere_snoc {p : Clause → Bool} {said : List (Clause × CellId)} {e : Clause × CellId} :
    idsWhere p (said ++ [e]) = idsWhere p said ++ if p e.1 then [e.2] else [] := by
  unfold idsWhere
  rw [List.filter_append, List.map_append]
  cases h : p e.1 <;> simp [h]

theorem mem_idsWhere {p : Clause → Bool} {said : List (Clause × CellId)} {x : CellId} :
    x ∈ idsWhere p said ↔ ∃ clause, (clause, x) ∈ said ∧ p clause = true := by
  simp [idsWhere]

theorem mem_named {entries : List (Clause × Cell)} {clause : Clause} {x : CellId} :
    (clause, x) ∈ named entries ↔ ∃ c, (clause, c) ∈ entries ∧ c.id = x := by
  simp [named]

theorem exists_entry {entries : List (Clause × Cell)} {p : Clause → Bool} {x : CellId}
    (hx : x ∈ idsWhere p (named entries)) :
    ∃ e ∈ entries, p e.1 = true ∧ e.2.id = x := by
  obtain ⟨clause, hnamed, hp⟩ := mem_idsWhere.mp hx
  obtain ⟨c, hc, hid⟩ := mem_named.mp hnamed
  exact ⟨(clause, c), hc, hp, hid⟩

/-- **The cells of some clauses are what the clauses say.** -/
structure Said (find : CellId → Option Cell) (entries : List (Clause × Cell)) : Prop where
  label : ∀ e ∈ entries, e.2.label = e.1.label
  boundary : ∀ e ∈ entries, e.1.side? ≠ none → e.2.boundary = e.1.boundary
  /-- A bind lists the two cells, and binds of the faces of the first. -/
  bind : ∀ pattern replacement c, (Clause.bind pattern replacement, c) ∈ entries →
    ∃ cell extra, find pattern = some cell ∧ c.boundary = pattern :: replacement :: extra ∧
      ∀ x ∈ extra, ∃ face ∈ cell.boundary, ∃ replacement' c',
        (Clause.bind face replacement', c') ∈ entries ∧ c'.id = x

theorem Said.mono {find find' : CellId → Option Cell} {entries : List (Clause × Cell)}
    (h : Said find entries) (hfind : ∀ x c, find x = some c → find' x = some c) :
    Said find' entries where
  label := h.label
  boundary := h.boundary
  bind pattern replacement c hc := by
    obtain ⟨cell, extra, hcell, hextra⟩ := h.bind pattern replacement c hc
    exact ⟨cell, extra, hfind _ _ hcell, hextra⟩

theorem Said.snoc {find : CellId → Option Cell} {entries : List (Clause × Cell)} {clause : Clause}
    {c : Cell} (h : Said find entries) (hlabel : c.label = clause.label)
    (hboundary : clause.side? ≠ none → c.boundary = clause.boundary)
    (hbind : ∀ pattern replacement, clause = .bind pattern replacement →
      ∃ cell extra, find pattern = some cell ∧ c.boundary = pattern :: replacement :: extra ∧
        ∀ x ∈ extra, ∃ face ∈ cell.boundary, ∃ replacement' c',
          (Clause.bind face replacement', c') ∈ entries ∧ c'.id = x) :
    Said find (entries ++ [(clause, c)]) where
  label e he := by
    rcases List.mem_append.mp he with he | he
    · exact h.label e he
    · rw [List.mem_singleton.mp he]
      exact hlabel
  boundary e he := by
    rcases List.mem_append.mp he with he | he
    · exact h.boundary e he
    · rw [List.mem_singleton.mp he]
      exact hboundary
  bind pattern replacement d hd := by
    have hlisted : ∃ cell extra, find pattern = some cell ∧
        d.boundary = pattern :: replacement :: extra ∧ ∀ x ∈ extra, ∃ face ∈ cell.boundary,
          ∃ replacement' c', (Clause.bind face replacement', c') ∈ entries ∧ c'.id = x := by
      rcases List.mem_append.mp hd with hd | hd
      · exact h.bind pattern replacement d hd
      · cases List.mem_singleton.mp hd
        exact hbind pattern replacement rfl
    obtain ⟨cell, extra, hcell, hextra, hmem⟩ := hlisted
    refine ⟨cell, extra, hcell, hextra, fun x hx => ?_⟩
    obtain ⟨face, hface, replacement', c', hc', hid⟩ := hmem x hx
    exact ⟨face, hface, replacement', c', List.mem_append_left _ hc', hid⟩

/-- **The draft of some clauses**, with the cells that were made. -/
structure Drafted (s : Store) (root : Cell) (entries : List (Clause × Cell)) (draft : RuleDraft) :
    Prop where
  lines : Lines [] s (root :: entries.map Prod.snd)
  rule : draft.rule = root.id
  root_boundary : root.boundary = []
  said : Said (s.pushAll (root :: entries.map Prod.snd)).find? entries
  points : ∀ side, draft.pointsOf side = idsWhere (·.isPointOf side) (named entries)
  listed : ∀ side, draft.listedOn side = idsWhere (·.isListedOn side) (named entries)
  binds : ∀ face x, draft.binds[face]? = some x →
    ∃ replacement c, (Clause.bind face replacement, c) ∈ entries ∧ c.id = x

section Drafted

open Edit

variable {s : Store} {root c : Cell} {entries : List (Clause × Cell)} {draft draft' : RuleDraft}
variable {clause : Clause} {boundary : List CellId} {sp sp' : Space} {id : CellId}

/-- The store of a draft. -/
def draftStore (s : Store) (root : Cell) (entries : List (Clause × Cell)) : Store :=
  s.pushAll (root :: entries.map Prod.snd)

theorem draftStore_snoc : draftStore s root (entries ++ [(clause, c)]) =
    (draftStore s root entries).push c := by
  unfold draftStore
  rw [List.map_append, ← List.cons_append]
  exact Store.pushAll_append

/-- **One clause more.** -/
theorem Drafted.add (h : Drafted s root entries draft)
    (hboundary : draft.boundaryIn (.ofStore (draftStore s root entries)) clause = .ok boundary)
    (hmake : Cell.make (draftStore s root entries).lookup ((draftStore s root entries).nextId 0)
      clause.label boundary .full = .ok c) :
    Drafted s root (entries ++ [(clause, c)]) (draft.record c.id clause) := by
  obtain ⟨hid, hlabel, hcells, _⟩ := make_fields hmake
  have hlines : Lines [] s (root :: entries.map Prod.snd ++ [c]) := h.lines.push hmake
  have hkept : ∀ x d, (draftStore s root entries).find? x = some d →
      (draftStore s root (entries ++ [(clause, c)])).find? x = some d := by
    intro x d hd
    rw [draftStore_snoc]
    exact (Store.adds_push hid).find hd
  have hnamed : named (entries ++ [(clause, c)]) = named entries ++ [(clause, c.id)] := by
    simp [named]
  refine ⟨by simpa using hlines, by simp [h.rule], h.root_boundary, ?_, fun side => ?_,
    fun side => ?_, fun face x hx => ?_⟩
  · refine (h.said.snoc hlabel (fun hside => ?_) fun pattern replacement hclause => ?_).mono hkept
    · rw [hcells]
      exact draft.boundaryIn_of_side hside hboundary
    · subst hclause
      obtain ⟨cell, hcell, hlisted⟩ := draft.boundaryIn_bind hboundary
      rw [Store.find?_ofStore] at hcell
      obtain ⟨extra, hextra, hmem⟩ := draft.bindBoundary_eq pattern replacement cell.boundary
      refine ⟨cell, extra, hcell, by rw [hcells, hlisted, hextra], fun x hx => ?_⟩
      obtain ⟨face, hface, hget⟩ := hmem x hx
      exact ⟨face, hface, h.binds face x hget⟩
  · rw [RuleDraft.pointsOf_record, hnamed, idsWhere_snoc, h.points]
  · rw [RuleDraft.listedOn_record, hnamed, idsWhere_snoc, h.listed]
  · rcases RuleDraft.binds_record hx with hold | ⟨replacement, rfl, rfl⟩
    · obtain ⟨replacement, c', hc', hid'⟩ := h.binds face x hold
      exact ⟨replacement, c', List.mem_append_left _ hc', hid'⟩
    · exact ⟨replacement, c, by simp, rfl⟩

/-- Says clauses one after the other. -/
def sayAll (clauses : List Clause) (draft : RuleDraft) : Edit (List CellId × RuleDraft) :=
  (clauses.mapM say).run draft

theorem apply_sayAll_nil : (sayAll [] draft).apply sp = (.ok ([], draft), sp) := rfl

theorem sayAll_cons {clauses : List Clause} : sayAll (clause :: clauses) draft = (do
    let said ← draft.add clause
    let rest ← sayAll clauses said.2
    return (said.1 :: rest.1, rest.2)) := by
  unfold sayAll
  rw [List.mapM_cons]
  rfl

/-- **Any number of clauses more**, if all of them are said. -/
theorem Drafted.sayAll {clauses : List Clause} {ids : List CellId}
    (h : Drafted s root entries draft)
    (hsay : (sayAll clauses draft).apply (.ofStore (draftStore s root entries)) =
      (.ok (ids, draft'), sp')) :
    ∃ more, Drafted s root (entries ++ more) draft' ∧ more.map Prod.fst = clauses ∧
      more.map (·.2.id) = ids ∧ sp' = .ofStore (draftStore s root (entries ++ more)) := by
  induction clauses generalizing entries draft ids with
  | nil =>
    obtain ⟨hpair, rfl⟩ := apply_pure_eq_ok.mp hsay
    cases hpair
    exact ⟨[], by rwa [List.append_nil], rfl, rfl, by rw [List.append_nil]⟩
  | cons clause clauses ih =>
    rw [sayAll_cons] at hsay
    obtain ⟨⟨id, mid⟩, spm, hadd, hsay⟩ := apply_bind_eq_ok.mp hsay
    obtain ⟨⟨rest, last⟩, spr, hrest, hsay⟩ := apply_bind_eq_ok.mp hsay
    obtain ⟨hpair, rfl⟩ := apply_pure_eq_ok.mp hsay
    cases hpair
    obtain ⟨boundary, c, hboundary, hmake, rfl, rfl, rfl⟩ := RuleDraft.apply_add_eq_ok.mp hadd
    rw [Space.lookup_ofStore] at hmake
    have hnext := h.add hboundary hmake
    have hstore : ({ Space.ofStore (draftStore s root entries) with
        top := (Space.ofStore (draftStore s root entries)).top.push c } : Space) =
          .ofStore (draftStore s root (entries ++ [(clause, c)])) := by
      rw [draftStore_snoc]
      rfl
    rw [hstore] at hrest
    obtain ⟨more, hmore, hclauses, hids, hsp⟩ := ih hnext hrest
    refine ⟨(clause, c) :: more, ?_, ?_, ?_, ?_⟩
    · rwa [List.append_cons]
    · rw [List.map_cons, hclauses]
    · rw [List.map_cons, hids]
    · rw [List.append_cons]
      exact hsp

/-- The start of a rule is a draft without clauses. -/
theorem drafted_start {name : String}
    (h : (RuleDraft.start name).apply (.ofStore s) = (.ok draft, sp')) :
    ∃ root, Drafted s root [] draft ∧ sp' = .ofStore (draftStore s root []) := by
  obtain ⟨id, mid, hcreate, h⟩ := apply_bind_eq_ok.mp h
  obtain ⟨c, hmake, rfl, rfl⟩ := Space.apply_createChecked_eq_ok hcreate
  obtain ⟨rfl, rfl⟩ := apply_pure_eq_ok.mp h
  obtain ⟨_, _, hboundary, _⟩ := make_fields hmake
  refine ⟨c, ⟨.cons hmake .nil, rfl, hboundary, ⟨?_, ?_, ?_⟩, ?_, ?_, ?_⟩, rfl⟩
  · exact fun e he => absurd he List.not_mem_nil
  · exact fun e he => absurd he List.not_mem_nil
  · exact fun _ _ c hc => absurd hc List.not_mem_nil
  · exact fun side => by cases side <;> rfl
  · exact fun side => by cases side <;> rfl
  · intro face x hx
    rw [Std.TreeMap.getElem?_emptyc] at hx
    cases hx

end Drafted

/-! ## 3. Listings -/

/-- A listing of the points and cells of a side, with its scaffolds. -/
structure Listing where
  side : Side
  points : List CellId
  listed : List CellId
  scaffolds : List Cell
  cell : Cell

namespace Listing

/-- The cells of a listing, oldest first. -/
def cells (l : Listing) : List Cell := l.scaffolds ++ [l.cell]

/-- **What ties a side to a rule cell**: an edge to each point, and the listing of these edges and
the cells of the side. -/
structure Ties (l : Listing) (rule : CellId) : Prop where
  scaffolds : List.Forall₂ (fun point c =>
    c.label = l.side.scaffoldLabel ∧ c.boundary = [rule, point]) l.points l.scaffolds
  label : l.cell.label = l.side.listingLabel
  boundary : l.cell.boundary = l.scaffolds.map Cell.id ++ l.listed

end Listing

namespace RuleDraft

open Edit

variable {rule id : CellId} {points cells ids : List CellId} {sp sp' : Space} {label : String}

theorem apply_scaffold_eq_ok (h : (scaffold rule label points).apply sp = (.ok ids, sp')) :
    ∃ cs, Lines sp.below sp.top cs ∧ sp' = { sp with top := sp.top.pushAll cs } ∧
      ids = cs.map Cell.id ∧
      List.Forall₂ (fun point c => c.label = label ∧ c.boundary = [rule, point]) points cs := by
  unfold scaffold at h
  induction points generalizing sp ids with
  | nil =>
    obtain ⟨rfl, rfl⟩ := apply_pure_eq_ok.mp h
    exact ⟨[], .nil, rfl, rfl, .nil⟩
  | cons point points ih =>
    rw [List.mapM_cons] at h
    obtain ⟨id, mid, hcreate, h⟩ := apply_bind_eq_ok.mp h
    obtain ⟨rest, mid', hrest, h⟩ := apply_bind_eq_ok.mp h
    obtain ⟨rfl, rfl⟩ := apply_pure_eq_ok.mp h
    obtain ⟨c, hmake, rfl, rfl⟩ := Space.apply_createChecked_eq_ok hcreate
    obtain ⟨_, hlabel, hboundary, _⟩ := make_fields hmake
    obtain ⟨cs, hlines, hsp, hids, hties⟩ := ih hrest
    exact ⟨c :: cs, .cons hmake hlines, hsp, by rw [hids]; rfl, .cons ⟨hlabel, hboundary⟩ hties⟩

theorem apply_list_eq_ok {side : Side}
    (h : (list rule side.scaffoldLabel side.listingLabel points cells).apply sp =
      (.ok id, sp')) :
    ∃ l : Listing, l.side = side ∧ l.points = points ∧ l.listed = cells ∧ l.Ties rule ∧
      Lines sp.below sp.top l.cells ∧ sp' = { sp with top := sp.top.pushAll l.cells } := by
  obtain ⟨ids, mid, hscaffold, h⟩ := apply_bind_eq_ok.mp h
  obtain ⟨cs, hlines, rfl, rfl, hties⟩ := apply_scaffold_eq_ok hscaffold
  obtain ⟨c, hmake, rfl, rfl⟩ := Space.apply_createChecked_eq_ok h
  obtain ⟨_, hlabel, hboundary, _⟩ := make_fields hmake
  refine ⟨⟨side, points, cells, cs, c⟩, rfl, rfl, rfl, ⟨hties, hlabel, hboundary⟩,
    hlines.snoc hmake, ?_⟩
  show _ = ({ sp with top := sp.top.pushAll (cs ++ [c]) } : Space)
  rw [Store.pushAll_append]

end RuleDraft

/-! ## 4. Finished rules -/

/-- The cells of a rule, oldest first. -/
def ruleCells (root : Cell) (entries : List (Clause × Cell)) (listings : List Listing) :
    List Cell := root :: entries.map Prod.snd ++ listings.flatMap Listing.cells

/-- A store with the cells of a rule. -/
abbrev ruleStore (s : Store) (root : Cell) (entries : List (Clause × Cell))
    (listings : List Listing) : Store := s.pushAll (ruleCells root entries listings)

theorem ruleCells_nil {root : Cell} {entries : List (Clause × Cell)} :
    ruleCells root entries [] = root :: entries.map Prod.snd := by simp [ruleCells]

theorem ruleCells_snoc {root : Cell} {entries : List (Clause × Cell)} {listings : List Listing}
    {l : Listing} :
    ruleCells root entries (listings ++ [l]) = ruleCells root entries listings ++ l.cells := by
  simp [ruleCells]

/-- **The clauses of a rule and some listings of them.** -/
structure Tied (s : Store) (root : Cell) (entries : List (Clause × Cell))
    (listings : List Listing) : Prop where
  lines : Lines [] s (ruleCells root entries listings)
  root_boundary : root.boundary = []
  said : Said (ruleStore s root entries listings).find? entries
  ties : ∀ l ∈ listings, l.Ties root.id
  points : ∀ l ∈ listings, l.points = idsWhere (·.isPointOf l.side) (named entries)
  listed : ∀ l ∈ listings, l.listed = idsWhere (·.isListedOn l.side) (named entries)

/-- **A finished rule**: every side with points has one listing, and the pattern has points. -/
structure Written (s : Store) (root : Cell) (entries : List (Clause × Cell))
    (listings : List Listing) : Prop extends Tied s root entries listings where
  nodup : (listings.map Listing.side).Nodup
  side_iff : ∀ side, side ∈ listings.map Listing.side ↔
    idsWhere (·.isPointOf side) (named entries) ≠ []
  pattern : Side.pattern ∈ listings.map Listing.side

section Written

open Edit

variable {s : Store} {root : Cell} {entries : List (Clause × Cell)} {listings : List Listing}
variable {draft : RuleDraft} {sp' : Space} {id rule : CellId}

theorem Drafted.tied (h : Drafted s root entries draft) : Tied s root entries [] where
  lines := ruleCells_nil ▸ h.lines
  root_boundary := h.root_boundary
  said := by
    rw [ruleStore, ruleCells_nil]
    exact h.said
  ties l hl := absurd hl List.not_mem_nil
  points l hl := absurd hl List.not_mem_nil
  listed l hl := absurd hl List.not_mem_nil

/-- One listing more. -/
theorem Tied.list (h : Tied s root entries listings) (hdraft : Drafted s root entries draft)
    {side : Side}
    (hlist : (RuleDraft.list draft.rule side.scaffoldLabel side.listingLabel
      (draft.pointsOf side) (draft.listedOn side)).apply
        (.ofStore (ruleStore s root entries listings)) = (.ok id, sp')) :
    ∃ l : Listing, l.side = side ∧ Tied s root entries (listings ++ [l]) ∧
      sp' = .ofStore (ruleStore s root entries (listings ++ [l])) := by
  obtain ⟨l, rfl, hpoints, hlisted, hties, hlines, hsp⟩ := RuleDraft.apply_list_eq_ok hlist
  have hall : Lines [] s (ruleCells root entries (listings ++ [l])) :=
    ruleCells_snoc ▸ h.lines.append hlines
  refine ⟨l, rfl, ⟨hall, h.root_boundary, h.said.mono fun x c hc => ?_, ?_, ?_, ?_⟩, ?_⟩
  · rw [ruleStore, ruleCells_snoc, ← Store.pushAll_pushAll]
    exact hlines.find?_kept hc
  · exact List.forall_mem_append.mpr ⟨h.ties, by simpa [hdraft.rule] using hties⟩
  · exact List.forall_mem_append.mpr ⟨h.points, by simpa [hdraft.points] using hpoints⟩
  · exact List.forall_mem_append.mpr ⟨h.listed, by simpa [hdraft.listed] using hlisted⟩
  · rw [ruleStore, ruleCells_snoc, ← Store.pushAll_pushAll]
    exact hsp

/-- A rule without a point in its pattern is not finished. -/
theorem RuleDraft.finish_of_none (hnone : draft.patternPoints = []) :
    ∃ err, ∀ sp, draft.finish.apply sp = (.error err, sp) := by
  refine ⟨.malformedRule draft.rule .noPatternPoint, fun sp => ?_⟩
  unfold RuleDraft.finish
  rw [hnone]
  rfl

theorem RuleDraft.finish_eq (hsome : draft.patternPoints ≠ []) : draft.finish = (do
    let _ ← RuleDraft.list draft.rule Side.pattern.scaffoldLabel Side.pattern.listingLabel
      (draft.pointsOf .pattern) (draft.listedOn .pattern)
    if draft.productPoints = [] then
      return draft.rule
    let _ ← RuleDraft.list draft.rule Side.product.scaffoldLabel Side.product.listingLabel
      (draft.pointsOf .product) (draft.listedOn .product)
    return draft.rule) := by
  have hpattern : draft.patternPoints.isEmpty = false := by simpa using hsome
  unfold RuleDraft.finish
  rw [hpattern]
  by_cases hproduct : draft.productPoints = []
  · have hempty : draft.productPoints.isEmpty = true := by simp [hproduct]
    rw [hempty]
    simp only [if_pos hproduct]
    rfl
  · have hempty : draft.productPoints.isEmpty = false := by simpa using hproduct
    rw [hempty]
    simp only [if_neg hproduct]
    rfl

/-- **A finished rule** has one listing for every side with points. -/
theorem Drafted.finish (h : Drafted s root entries draft)
    (hfinish : draft.finish.apply (.ofStore (draftStore s root entries)) = (.ok rule, sp')) :
    ∃ listings, Written s root entries listings ∧ rule = root.id ∧
      sp' = .ofStore (ruleStore s root entries listings) := by
  by_cases hnone : draft.patternPoints = []
  · obtain ⟨err, herr⟩ := RuleDraft.finish_of_none hnone
    rw [herr] at hfinish
    cases hfinish
  rw [RuleDraft.finish_eq hnone] at hfinish
  obtain ⟨_, mid, hlist, hfinish⟩ := apply_bind_eq_ok.mp hfinish
  have hstore : draftStore s root entries = ruleStore s root entries [] := by
    rw [draftStore, ruleStore, ruleCells_nil]
  rw [hstore] at hlist
  obtain ⟨l, hside, htied, rfl⟩ := h.tied.list h hlist
  have hpattern : idsWhere (·.isPointOf .pattern) (named entries) ≠ [] :=
    h.points .pattern ▸ hnone
  by_cases hproduct : draft.productPoints = []
  · rw [if_pos hproduct] at hfinish
    obtain ⟨rfl, rfl⟩ := apply_pure_eq_ok.mp hfinish
    refine ⟨[l], ⟨htied, by simp, fun side => ?_, by simp [hside]⟩, h.rule, rfl⟩
    rw [← h.points]
    cases side <;> simp [hside, RuleDraft.pointsOf, hnone, hproduct]
  · rw [if_neg hproduct] at hfinish
    obtain ⟨_, mid, hlist', hfinish⟩ := apply_bind_eq_ok.mp hfinish
    obtain ⟨rfl, rfl⟩ := apply_pure_eq_ok.mp hfinish
    obtain ⟨l', hside', htied', rfl⟩ := htied.list h hlist'
    refine ⟨[l, l'], ⟨htied', by simp [hside, hside'], fun side => ?_, by simp [hside]⟩, h.rule,
      rfl⟩
    rw [← h.points]
    cases side <;> simp [hside, hside', RuleDraft.pointsOf, hnone, hproduct]

end Written

end CellComplex
