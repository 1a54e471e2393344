import CellComplex.Proofs.Evidence.Settling
import CellComplex.Proofs.Rewrite.Transaction
import CellComplex.Proofs.Space.Link
import CellComplex.Proofs.Space.Shelf

/-!
# One of two duplicates

Two edges that say the same are made one: the more confident one is kept, or a new one takes the
place of both. In a store over others the two may belong to different stores, and what was said of
one store with its answers does not apply.

* `Space.Enters`, `Space.Marks`: one cell is new, some cells are marked, and nothing else is changed,
  in particular no link and no store below (`SameLinks`);
* **`choice_eq_ok`**, **`revision_eq_ok`**: what a resolution that succeeded has done;
* `Space.LeavesOne`: of some cells one is alive, and the rest is as it was;
* `Marks.leavesOne`, `Enters.leavesOne`: either way leaves one;
* **`resolution_leaves_one`**: all ways together, in any store over any others.
-/

namespace CellComplex

namespace Space

open Edit

variable {sp mid sp' : Space} {first second kept dropped r id x : CellId} {ids : List CellId}
variable {a b c : Cell} {v w : Truth Float}

/-! ## 1. New cells and marked cells -/

/-- **The atom links and the stores below are the same.** -/
structure SameLinks (sp sp' : Space) : Prop where
  atoms : ∀ x, sp'.atomsOf x = sp.atomsOf x
  expansions : ∀ x, sp'.expansionsOf x = sp.expansionsOf x
  below : sp'.below = sp.below

theorem SameLinks.trans (h : sp.SameLinks mid) (h' : mid.SameLinks sp') : sp.SameLinks sp' where
  atoms x := (h'.atoms x).trans (h.atoms x)
  expansions x := (h'.expansions x).trans (h.expansions x)
  below := h'.below.trans h.below

/-- **One cell is new**, and nothing else is changed. -/
structure Enters (sp : Space) (c : Cell) (sp' : Space) : Prop extends sp.SameLinks sp' where
  fresh : sp.find? c.id = none
  find : ∀ x, sp'.find? x = if x = c.id then some c else sp.find? x

/-- **Some cells are marked**, none is new, and nothing else is changed. -/
structure Marks (sp : Space) (ids : List CellId) (sp' : Space) : Prop
    extends sp.SameLinks sp' where
  find : ∀ x, sp'.find? x = if x ∈ ids then (sp.find? x).map Cell.marked else sp.find? x

/-- A cell made for the next place of a store with an id of its own. -/
theorem enters_push (hown : ∀ s ∈ sp.below, s.id ≠ sp.top.id) (hid : c.id = sp.top.nextId 0) :
    sp.Enters c ⟨sp.top.push c, sp.below⟩ where
  fresh := hid ▸ find?_nextId hown 0
  find := find?_push hid
  atoms _ := rfl
  expansions _ := rfl
  below := rfl

/-- What the store on top knows as before, the stores know together as before. -/
theorem gather_congr {s t : Store} {below : List Store} {known : Store → CellSet}
    (h : known t = known s) : (Space.mk t below).gather known = (Space.mk s below).gather known :=
  congrArg (fun found => below.foldl (fun found s => found ∪ known s) found) h

/-- Cells are marked one after the other. -/
theorem Marks.cons (h : sp.Marks [id] mid) (h' : mid.Marks ids sp') : sp.Marks (id :: ids) sp' where
  toSameLinks := h.toSameLinks.trans h'.toSameLinks
  find := find_marks_cons h.find h'.find

/-- Marks in the store on top, seen over the stores below. -/
theorem marks_of_top {s t : Store} {below : List Store} (h : s.Marks ids t)
    (hown : ∀ id ∈ ids, s.owns id = true) : (Space.mk s below).Marks ids ⟨t, below⟩ where
  find x := by
    show (t.find? x).or _ = if x ∈ ids then ((s.find? x).or _).map Cell.marked else (s.find? x).or _
    rw [h.find]
    split
    · next hx =>
      obtain ⟨c, hc⟩ := Store.owns_iff.mp (hown x hx)
      rw [hc]
      rfl
    · rfl
  atoms x := gather_congr (congrArg (fun atoms => atoms.getD x ∅) h.atoms)
  expansions x := gather_congr (congrArg (fun expansions => expansions.getD x ∅) h.expansions)
  below := rfl

/-- **A deletion that succeeded marked the cell.** -/
theorem marks_delete (h : (delete id).apply sp = (.ok (), sp')) : sp.Marks [id] sp' := by
  obtain ⟨c, hc, _⟩ := apply_delete_eq_ok h
  have hown : sp.top.owns id = true := Store.owns_iff.mpr ⟨c, hc⟩
  obtain ⟨t, ht, hmarks⟩ := apply_delete_owned hown
  obtain rfl : sp' = { sp with top := t } := congrArg Prod.snd (h.symm.trans ht)
  exact marks_of_top hmarks (by simpa using hown)

/-! ## 2. What a resolution has done -/

/-- **A choice that succeeded marked the less confident of two duplicates**; of equals, the second. -/
theorem choice_eq_ok (h : (choice first second).apply sp = (.ok r, sp')) :
    ∃ a b v w, sp.Duplicates first second a b v w ∧
      ((v.confidence < w.confidence ∧ r = second ∧ sp.Marks [first] sp') ∨
        (¬ v.confidence < w.confidence ∧ r = first ∧ sp.Marks [second] sp')) := by
  obtain ⟨⟨a, v, w⟩, _, hlook, h⟩ := apply_bind_eq_ok.mp h
  obtain ⟨hpair, rfl⟩ := apply_look_eq_ok.mp hlook
  obtain ⟨b, hdup⟩ := duplicatePair_eq_ok.mp hpair
  refine ⟨a, b, v, w, hdup, ?_⟩
  have hdone : ∀ {kept dropped : CellId},
      (delete dropped >>= fun _ => pure kept).apply sp = (.ok r, sp') →
        r = kept ∧ sp.Marks [dropped] sp' := by
    intro kept dropped h
    obtain ⟨_, _, hdelete, h⟩ := apply_bind_eq_ok.mp h
    obtain ⟨rfl, rfl⟩ := apply_pure_eq_ok.mp h
    exact ⟨rfl, marks_delete hdelete⟩
  by_cases hless : v.confidence < w.confidence
  · simp only [if_pos hless] at h
    exact Or.inl ⟨hless, hdone h⟩
  · simp only [if_neg hless] at h
    exact Or.inr ⟨hless, hdone h⟩

/-- **A revision that succeeded made a cell over the ends of two duplicates, gave it the merged truth
value, and marked both.** -/
theorem revision_eq_ok (hown : ∀ s ∈ sp.below, s.id ≠ sp.top.id)
    (h : (revision first second).apply sp = (.ok r, sp')) :
    ∃ a b v w c mid, sp.Duplicates first second a b v w ∧
      Cell.make sp.lookup (sp.top.nextId 0) a.label a.boundary .full = .ok c ∧ c.id = r ∧
      sp.Enters { c with embedding := .ofTruth (Truth.revise Truth.floatThreshold v w) } mid ∧
      mid.Marks [first, second] sp' := by
  obtain ⟨⟨a, v, w⟩, _, hlook, h⟩ := apply_bind_eq_ok.mp h
  obtain ⟨hpair, rfl⟩ := apply_look_eq_ok.mp hlook
  obtain ⟨b, hdup⟩ := duplicatePair_eq_ok.mp hpair
  obtain ⟨_, _, hlook, h⟩ := apply_bind_eq_ok.mp h
  obtain ⟨hfirst, rfl⟩ := apply_look_eq_ok.mp hlook
  obtain ⟨_, _, hlook, h⟩ := apply_bind_eq_ok.mp h
  obtain ⟨hsecond, rfl⟩ := apply_look_eq_ok.mp hlook
  obtain ⟨_, _, hcreate, h⟩ := apply_bind_eq_ok.mp h
  obtain ⟨c, hmake, rfl, rfl⟩ := apply_createChecked_eq_ok hcreate
  have hid : c.id = sp.top.nextId 0 := (make_fields hmake).1
  -- the truth value is set where the cell just entered
  obtain ⟨_, _, hset, h⟩ := apply_bind_eq_ok.mp h
  have hmade : (sp.top.push c).owns c.id = true := Store.owns_iff.mpr ⟨c, Store.find?_push_new hid⟩
  cases hset.symm.trans (apply_modifyCell hmade)
  rw [Store.push_modifyAt hid rfl] at h
  obtain ⟨_, _, hdelete, h⟩ := apply_bind_eq_ok.mp h
  obtain ⟨_, _, hdelete', h⟩ := apply_bind_eq_ok.mp h
  obtain ⟨rfl, rfl⟩ := apply_pure_eq_ok.mp h
  exact ⟨a, b, v, w, c, _, hdup, hmake, rfl, enters_push hown hid,
    (marks_delete hdelete).cons (marks_delete hdelete')⟩

/-! ## 3. One is left -/

/-- **Of some cells `r` alone is alive**, and whatever else there was is as it was. -/
structure LeavesOne (sp : Space) (ids : List CellId) (r : CellId) (sp' : Space) : Prop
    extends sp.SameLinks sp' where
  live : ∀ x ∈ ids, sp'.lookup.IsLive x ↔ x = r
  rest : ∀ x, x ∉ ids → sp'.find? x = sp.find? x

/-- A marked cell is not alive. -/
theorem Marks.not_isLive (h : sp.Marks ids sp') (hx : x ∈ ids) : ¬ sp'.lookup.IsLive x := by
  intro hlive
  obtain ⟨c, hc, hlive⟩ := hlive
  have hmarked : (sp.find? x).map Cell.marked = some c := by
    rw [← hc]
    exact ((h.find x).trans (if_pos hx)).symm
  obtain ⟨d, _, rfl⟩ := Option.map_eq_some_iff.mp hmarked
  cases hlive

/-- The cells that are not marked are as they were. -/
theorem Marks.find_of_not_mem (h : sp.Marks ids sp') (hx : x ∉ ids) : sp'.find? x = sp.find? x :=
  (h.find x).trans (if_neg hx)

/-- **One is marked and the other is left.** -/
theorem Marks.leavesOne (h : sp.Marks [dropped] sp') (hdup : sp.Duplicates kept dropped a b v w)
    (hids : ∀ x, x ∈ ids ↔ x = kept ∨ x = dropped) :
    sp'.find? kept = some a ∧ sp.LeavesOne ids kept sp' := by
  have hkept : sp'.find? kept = some a :=
    (h.find_of_not_mem (by simpa using hdup.ne)).trans hdup.find_first
  refine ⟨hkept, h.toSameLinks, fun x hx => ?_, fun x hx => ?_⟩
  · rcases (hids x).mp hx with rfl | rfl
    · exact iff_of_true ⟨a, hkept, (isEdge_iff.mp hdup.isEdge_first).2.2⟩ rfl
    · exact iff_of_false (h.not_isLive (List.mem_singleton_self x)) hdup.ne.symm
  · exact h.find_of_not_mem fun hmem =>
      hx ((hids x).mpr (Or.inr (List.mem_singleton.mp hmem)))

/-- **Both are marked and the new one is left.** -/
theorem Enters.leavesOne (h : sp.Enters c mid) (hmarks : mid.Marks [first, second] sp')
    (hdup : sp.Duplicates first second a b v w) (hlive : c.isLive = true) :
    sp'.find? c.id = some c ∧ sp.LeavesOne [first, second, c.id] c.id sp' := by
  have hnew : c.id ∉ [first, second] := by
    -- the two were in sight before, the new one was not
    intro hmem
    have hfresh := h.fresh
    rcases List.mem_pair.mp hmem with e | e
    · rw [e, hdup.find_first] at hfresh
      cases hfresh
    · rw [e, hdup.find_second] at hfresh
      cases hfresh
  have hfind : sp'.find? c.id = some c :=
    (hmarks.find_of_not_mem hnew).trans ((h.find c.id).trans (if_pos rfl))
  refine ⟨hfind, h.toSameLinks.trans hmarks.toSameLinks, fun x hx => ?_, fun x hx => ?_⟩
  · by_cases hpair : x ∈ [first, second]
    · exact iff_of_false (hmarks.not_isLive hpair) fun e => hnew (e ▸ hpair)
    · obtain rfl : x = c.id := by
        simp only [List.mem_cons, List.not_mem_nil, or_false, not_or] at hx hpair
        exact (hx.resolve_left hpair.1).resolve_left hpair.2
      exact iff_of_true ⟨c, hfind, hlive⟩ rfl
  · simp only [List.mem_cons, List.not_mem_nil, or_false, not_or] at hx
    have hpair : x ∉ [first, second] := by simp [hx.1, hx.2.1]
    exact (hmarks.find_of_not_mem hpair).trans ((h.find x).trans (if_neg hx.2.2))

/-- A cell that was made over the ends of an edge in sight is an edge. -/
theorem Reachable.isEdge_make (hsp : sp.Reachable) (ha : sp.find? first = some a)
    (hedge : a.isEdge = true) {label : String} {id : CellId}
    (hmake : Cell.make sp.lookup id label a.boundary .full = .ok c) : c.isEdge = true := by
  obtain ⟨hdim, hlen, _⟩ := isEdge_iff.mp hedge
  have hpoint : ∀ x ∈ a.boundary, sp.lookup.IsPoint x := by
    intro x hx
    obtain ⟨_, _, hboundary, _⟩ := make_fields hmake
    obtain ⟨f, hf, _⟩ := make_lower hmake x (hboundary ▸ hx)
    have hlower : f.dimension < a.dimension := hsp.lower ha hx hf
    exact ⟨f, hf, by omega⟩
  obtain ⟨x, y, hends⟩ := List.length_eq_two.mp hlen
  rw [hends] at hmake hpoint
  exact Space.isEdge_make (hpoint x (by simp)) (hpoint y (by simp)) hmake

end Space

/-- **Resolving two duplicates leaves one live edge.** In a store over others, whatever work was done
on all of them, a revision, a choice or a choice between the two by chance succeeds only for two
different live edges with one label, one ordered pair of ends and a truth value each. Then of the two
and the cell that is returned only that one is alive; it is an edge with their label and their ends;
it is one of the two as it was, and the other is marked, or it is the one new cell, with the merged
truth value, and both are marked; and all other cells, the atom links and the stores below are as
they were. -/
theorem resolution_leaves_one {sp sp' : Space} (hsp : sp.Reachable) {first second r : CellId}
    {resolve : Edit CellId}
    (hresolve : resolve = Space.revision first second ∨ resolve = Space.choice first second ∨
      ∃ roll, resolve = Space.randomResolution roll first second)
    (h : resolve.apply sp = (.ok r, sp')) :
    ∃ a b v w c, sp.Duplicates first second a b v w ∧
      (sp'.find? r = some c ∧ c.isEdge = true ∧ c.label = a.label ∧ c.boundary = a.boundary) ∧
      sp.LeavesOne [first, second, r] r sp' ∧
      ((r = first ∧ sp.Marks [second] sp') ∨ (r = second ∧ sp.Marks [first] sp') ∨
        ∃ mid, c.id = r ∧ c.embedding = .ofTruth (Truth.revise Truth.floatThreshold v w) ∧
          sp.Enters c mid ∧ mid.Marks [first, second] sp') := by
  have hways : resolve = Space.revision first second ∨ resolve = Space.choice first second := by
    rcases hresolve with he | he | ⟨roll, he⟩
    · exact Or.inl he
    · exact Or.inr he
    · exact he ▸ Space.randomResolution_cases roll first second
  rcases hways with rfl | rfl
  · obtain ⟨a, b, v, w, c, mid, hdup, hmake, rfl, henters, hmarks⟩ :=
      Space.revision_eq_ok hsp.apart h
    obtain ⟨_, hlabel, hboundary, _⟩ := make_fields hmake
    have hedge : c.isEdge = true := hsp.isEdge_make hdup.find_first hdup.isEdge_first hmake
    have hlive : c.isLive = true := (Space.isEdge_iff.mp hedge).2.2
    obtain ⟨hfind, hone⟩ := henters.leavesOne hmarks hdup hlive
    exact ⟨a, b, v, w, _, hdup, ⟨hfind, hedge, hlabel, hboundary⟩, hone,
      Or.inr (Or.inr ⟨mid, rfl, rfl, henters, hmarks⟩)⟩
  · obtain ⟨a, b, v, w, hdup, ⟨_, rfl, hmarks⟩ | ⟨_, rfl, hmarks⟩⟩ := Space.choice_eq_ok h
    · have hids : ∀ x, x ∈ [first, r, r] ↔ x = r ∨ x = first := fun x => by simp [or_comm]
      obtain ⟨hfind, hone⟩ := hmarks.leavesOne hdup.symm hids
      exact ⟨a, b, v, w, b, hdup, ⟨hfind, hdup.isEdge_second, hdup.label_eq.symm,
        hdup.boundary_eq.symm⟩, hone, Or.inr (Or.inl ⟨rfl, hmarks⟩)⟩
    · have hids : ∀ x, x ∈ [r, second, r] ↔ x = r ∨ x = second := fun x => by
        simp [or_comm, or_left_comm]
      obtain ⟨hfind, hone⟩ := hmarks.leavesOne hdup hids
      exact ⟨a, b, v, w, a, hdup, ⟨hfind, hdup.isEdge_first, rfl, rfl⟩, hone,
        Or.inl ⟨rfl, hmarks⟩⟩

/-- An edge in a store, and its duplicate in a store over it. -/
def twoAccounts : Space :=
  (Shelf.start.after [⟨0, [], .create "frog" [], by decide⟩,
    ⟨0, [], .create "animal" [], by decide⟩,
    ⟨0, [], .create "is" [⟨0, 0⟩, ⟨0, 1⟩], by decide⟩,
    ⟨0, [], .setEmbedding ⟨0, 2⟩ [1, 0.9], by decide⟩,
    ⟨1, [0], .create "is" [⟨0, 0⟩, ⟨0, 1⟩], by decide⟩,
    ⟨1, [0], .setEmbedding ⟨1, 0⟩ [0.5, 0.4], by decide⟩]).space 1 [0]

/-- The more confident one is of the store below, so choice leaves it; chance chooses from the
higher half of the numbers on. -/
theorem resolution_leaves_one_twoAccounts :
    ∃ sp', (Space.randomResolution 9223372036854775808 ⟨1, 0⟩ ⟨0, 2⟩).apply twoAccounts =
        (.ok ⟨0, 2⟩, sp') ∧
      sp'.find? ⟨0, 2⟩ = twoAccounts.find? ⟨0, 2⟩ ∧ ¬ sp'.lookup.IsLive ⟨1, 0⟩ ∧
      sp'.below = twoAccounts.below := by
  have hreach : twoAccounts.Reachable := ⟨_, 1, [0], by decide, rfl⟩
  have hyields : ((Space.randomResolution 9223372036854775808 ⟨1, 0⟩ ⟨0, 2⟩).apply
      twoAccounts).1.toOption = some ⟨0, 2⟩ := by decide +kernel
  have hrun := Outcome.toOption_eq_some.mp hyields
  refine ⟨_, Prod.ext hrun rfl, ?_⟩
  obtain ⟨_, _, _, _, c, hdup, _, hone, hway⟩ := resolution_leaves_one hreach
    (Or.inr (Or.inr ⟨9223372036854775808, rfl⟩)) (Prod.ext hrun rfl)
  have hdead := (hone.live ⟨1, 0⟩ (by decide)).not.mpr (by decide)
  rcases hway with ⟨hfirst, _⟩ | ⟨_, hmarks⟩ | ⟨_, hid, _, henters, _⟩
  · exact absurd hfirst (by decide)
  · exact ⟨hmarks.find_of_not_mem (by decide), hdead, hone.below⟩
  · cases hdup.find_second.symm.trans (hid ▸ henters.fresh)

end CellComplex
