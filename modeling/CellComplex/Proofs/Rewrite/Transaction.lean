import CellComplex.Proofs.Rewrite.Plan
import CellComplex.Proofs.Store.History
import CellComplex.Proofs.Store.Operation

/-!
# Rewriting is all or nothing

A rewrite looks before it changes anything: what can fail fails while the store is as it was. Once
the cells are made on the side, adding them and deleting others cannot fail.

* `apply_delete_owned`, `apply_deletes`: deleting cells of the store succeeds and marks them;
* **`apply_commit`**: so does committing what was prepared;
* **`apply_rewrite_marks`**: what a rewrite leaves is the store with the new cells pushed and the
  unbound ones marked;
* **`rewrite_atomic`**: a rewrite that fails leaves the store as it was, and one whose preparation
  succeeds succeeds.
-/

namespace CellComplex

/-! ## 1. Deleting owned cells -/

/-- The cell, deleted. -/
def Cell.marked (c : Cell) : Cell := { c with deleted := true }

/-- Cells are marked one after the other; marking a marked cell again changes nothing. -/
theorem find_marks_cons {f g h : CellId → Option Cell} {id : CellId} {ids : List CellId}
    (hid : ∀ x, g x = if x ∈ [id] then (f x).map Cell.marked else f x)
    (hids : ∀ x, h x = if x ∈ ids then (g x).map Cell.marked else g x) (x : CellId) :
    h x = if x ∈ id :: ids then (f x).map Cell.marked else f x := by
  rw [hids, hid]
  have hmarked : Cell.marked ∘ Cell.marked = Cell.marked := rfl
  by_cases hx : x = id <;> by_cases hxs : x ∈ ids <;> simp [hx, hxs, hmarked]

namespace Store

variable {s t u : Store} {ids : List CellId} {id x : CellId} {c : Cell}

/-- **Some cells are marked, and nothing else is changed that a store keeps of cells and links.** -/
structure Marks (ids : List CellId) (s t : Store) : Prop where
  find : ∀ x, t.find? x = if x ∈ ids then (s.find? x).map Cell.marked else s.find? x
  atoms : t.atoms = s.atoms
  expansions : t.expansions = s.expansions

theorem marks_nil (s : Store) : Marks [] s s := ⟨fun _ => rfl, rfl, rfl⟩

theorem Marks.cons (h : Marks [id] s t) (h' : Marks ids t u) : Marks (id :: ids) s u :=
  ⟨find_marks_cons h.find h'.find, h'.atoms.trans h.atoms, h'.expansions.trans h.expansions⟩

theorem Marks.owns (h : Marks ids s t) (hx : s.owns x = true) : t.owns x = true := by
  obtain ⟨c, hc⟩ := owns_iff.mp hx
  refine owns_iff.mpr ?_
  rw [h.find, hc]
  split
  · exact ⟨c.marked, rfl⟩
  · exact ⟨c, rfl⟩

theorem marks_deleteAt (hc : s.find? id = some c) : Marks [id] s (s.deleteAt id.index) := by
  refine ⟨fun x => ?_, rfl, rfl⟩
  show (s.modifyAt id.index Cell.marked).find? x = _
  rw [find?_modifyAt_owned (owns_iff.mpr ⟨c, hc⟩)]
  simp only [List.mem_singleton]

theorem marks_deleted (hc : s.find? id = some c) (hdead : c.isLive = false) : Marks [id] s s := by
  refine ⟨fun x => ?_, rfl, rfl⟩
  split
  · next hx =>
    rw [List.mem_singleton.mp hx, hc]
    have hdel : c.deleted = true := by simpa [Cell.isLive] using hdead
    have hsame : c.marked = c := by rw [Cell.marked, ← hdel]
    exact congrArg some hsame.symm
  · rfl

end Store

namespace Space

open Edit

variable {sp : Space} {id : CellId}

/-- Deleting a cell of the store on top succeeds, and marks it. -/
theorem apply_delete_owned (h : sp.top.owns id = true) :
    ∃ t, (delete id).apply sp = (.ok (), { sp with top := t }) ∧ sp.top.Marks [id] t := by
  have hown : sp.requireOwned id = .ok () := requireOwned_eq_ok.mpr h
  obtain ⟨c, hc⟩ := Store.owns_iff.mp h
  have hany : (sp.top.find? id).any Cell.isLive = c.isLive := by
    rw [hc]
    rfl
  unfold delete
  by_cases hlive : (sp.top.find? id).any Cell.isLive = true
  · exact ⟨_, by rw [apply_decide_ok (Outcome.bind_eq_ok.mpr ⟨(), hown, if_pos hlive⟩)],
      Store.marks_deleteAt hc⟩
  · refine ⟨_, by rw [apply_decide_ok (Outcome.bind_eq_ok.mpr ⟨(), hown, if_neg hlive⟩)],
      Store.marks_deleted hc ?_⟩
    rw [← hany]
    exact Bool.not_eq_true _ ▸ hlive

/-- Deleting cells of the store on top succeeds, one after the other, and marks them. -/
theorem apply_deletes {ids : List CellId} (h : ∀ id ∈ ids, sp.top.owns id = true) :
    ∃ t, (ids.forM delete).apply sp = (.ok (), { sp with top := t }) ∧ sp.top.Marks ids t := by
  induction ids generalizing sp with
  | nil => exact ⟨sp.top, rfl, Store.marks_nil sp.top⟩
  | cons id ids ih =>
    obtain ⟨t, ht, hmarks⟩ := apply_delete_owned (h id List.mem_cons_self)
    have hrest : ∀ x ∈ ids, ({ sp with top := t } : Space).top.owns x = true :=
      fun x hx => hmarks.owns (h x (List.mem_cons_of_mem _ hx))
    obtain ⟨u, hu, hmarks'⟩ := ih hrest
    refine ⟨u, ?_, hmarks.cons hmarks'⟩
    show (delete id >>= fun _ => ids.forM delete).apply sp = _
    rw [apply_bind_ok ht]
    exact hu

/-! ## 2. Committing -/

/-- **Cells in a line are committed, and cells of the store deleted, without fail.** -/
theorem apply_commit {cs : List Cell} {unbound : List CellId}
    (hlines : Lines sp.below sp.top cs)
    (howned : ∀ id ∈ unbound, sp.top.owns id = true) :
    ∃ t, (commit cs unbound).apply sp = (.ok (), { sp with top := t }) ∧
      (sp.top.pushAll cs).Marks unbound t := by
  have hext : sp.top.Extends (sp.top.pushAll cs) := hlines.changes.extends
  have hrest : ∀ id ∈ unbound,
      ({ sp with top := sp.top.pushAll cs } : Space).top.owns id = true :=
    fun id hid => hext.owns (howned id hid)
  obtain ⟨t, ht, hmarks⟩ := apply_deletes hrest
  refine ⟨t, ?_, hmarks⟩
  unfold commit
  rw [apply_bind_ok hlines.apply_insert]
  exact ht

/-! ## 3. Rewriting -/

variable {rule : Rule} {selection unbound : List CellId} {st : Staging} {err : StoreError}

theorem apply_rewrite_error (h : sp.prepare rule selection = .error err) :
    (rewrite rule selection).apply sp = (.error err, sp) :=
  apply_bind_error (apply_look_error h)

/-- What a rewrite of a consistent store means to delete belongs to the store. -/
theorem unbound_owned {s : Store} (hs : s.Consistent)
    (h : (ofStore s).prepare rule selection = .ok (st, unbound)) {id : CellId}
    (hid : id ∈ unbound) : s.owns id = true := by
  obtain ⟨x, _, c, hc, e⟩ := unbound_selected h hid
  have hfind : s.find? x = some c := by
    rw [← hc]
    exact Option.or_none.symm
  have hx : id = x := e.symm.trans (hs.id_eq hfind)
  exact Store.owns_iff.mpr ⟨c, hx ▸ hfind⟩

/-- **What was prepared is committed without fail**: the cells made on the side enter, and the
unbound ones are marked. -/
theorem apply_rewrite_marks {s : Store} (hs : s.Consistent)
    (h : (ofStore s).prepare rule selection = .ok (st, unbound)) :
    ∃ t, (commit st.entering unbound).apply (ofStore s) = (.ok (), ofStore t) ∧
      (rewrite rule selection).apply (ofStore s) =
        (.ok ⟨st.created.reverse, unbound⟩, ofStore t) ∧
      (s.pushAll st.entering).Marks unbound t := by
  obtain ⟨t, ht, hmarks⟩ := apply_commit (prepare_lines h) fun id hid => unbound_owned hs h hid
  refine ⟨t, ht, ?_, hmarks⟩
  unfold rewrite
  rw [apply_bind_ok (apply_look_ok h)]
  show (commit st.entering unbound >>= fun _ => pure _).apply _ = _
  rw [apply_bind_ok ht]
  rfl

theorem apply_rewrite_ok {s : Store} (hs : s.Consistent)
    (h : (ofStore s).prepare rule selection = .ok (st, unbound)) :
    ∃ t, (commit st.entering unbound).apply (ofStore s) = (.ok (), ofStore t) ∧
      (rewrite rule selection).apply (ofStore s) =
        (.ok ⟨st.created.reverse, unbound⟩, ofStore t) := by
  obtain ⟨t, hcommit, hrewrite, _⟩ := apply_rewrite_marks hs h
  exact ⟨t, hcommit, hrewrite⟩

/-- Reading a rule changes nothing. -/
theorem applyTo_rewriteBy_ok {s : Store} {id : CellId}
    (h : Rule.compile (.ofStore s) id = .ok rule) :
    (rewriteBy id selection).applyTo s = (rewrite rule selection).applyTo s := by
  unfold applyTo rewriteBy
  rw [apply_bind_ok (apply_look_ok h)]

theorem applyTo_rewriteBy_error {s : Store} {id : CellId}
    (h : Rule.compile (.ofStore s) id = .error err) :
    (rewriteBy id selection).applyTo s = (.error err, s) := by
  unfold applyTo rewriteBy
  rw [apply_bind_error (apply_look_error h)]
  rfl

theorem rewrite_error {s : Store} (hs : s.Consistent) {t : Store}
    (h : (rewrite rule selection).applyTo s = (.error err, t)) : t = s := by
  unfold applyTo at h
  cases hprep : (ofStore s).prepare rule selection with
  | error e =>
    rw [apply_rewrite_error hprep] at h
    cases h
    rfl
  | ok prepared =>
    obtain ⟨st, unbound⟩ := prepared
    obtain ⟨u, _, hu⟩ := apply_rewrite_ok hs hprep
    rw [hu] at h
    cases h

theorem rewriteBy_error {s : Store} (hs : s.Consistent) {id : CellId} {t : Store}
    (h : (rewriteBy id selection).applyTo s = (.error err, t)) : t = s := by
  cases hcompile : Rule.compile (.ofStore s) id with
  | error e =>
    rw [applyTo_rewriteBy_error hcompile] at h
    cases h
    rfl
  | ok rule =>
    rw [applyTo_rewriteBy_ok hcompile] at h
    exact rewrite_error hs h

end Space

/-- **A rewrite that fails leaves the store as it was**, whatever the rule and the selection are and
wherever the rule was read; in particular committing never fails once the cells are made on the
side. -/
theorem rewrite_atomic {s : Store} (hs : s.Reachable) (selection : List CellId) :
    (∀ (rule : Rule) (err : StoreError) (t : Store),
        (Space.rewrite rule selection).applyTo s = (.error err, t) → t = s) ∧
      (∀ (rule : CellId) (err : StoreError) (t : Store),
        (Space.rewriteBy rule selection).applyTo s = (.error err, t) → t = s) ∧
      ∀ (rule : Rule) (st : Staging) (unbound : List CellId),
        (Space.ofStore s).prepare rule selection = .ok (st, unbound) →
          ∃ t, (commit st.entering unbound).applyTo s = (.ok (), t) ∧
            (Space.rewrite rule selection).applyTo s = (.ok ⟨st.created.reverse, unbound⟩, t) := by
  refine ⟨fun rule err t h => Space.rewrite_error hs.consistent h,
    fun rule err t h => Space.rewriteBy_error hs.consistent h, fun rule st unbound h => ?_⟩
  obtain ⟨t, hcommit, hrewrite⟩ := Space.apply_rewrite_ok hs.consistent h
  refine ⟨t, ?_, ?_⟩
  · unfold Edit.applyTo
    rw [hcommit]
    rfl
  · unfold Edit.applyTo
    rw [hrewrite]
    rfl

/-- A store with one point. -/
def onePoint : Store := runAll (.empty 0) [.create "a" []]

/-- A rule for one point: it keeps the point, makes another, and makes a cell over some ends. -/
def spread (ends : List CellId) : Rule where
  cell := ⟨1, 0⟩
  points := 1
  pattern := [⟨⟨1, 1⟩, 0, .any, some ⟨1, 2⟩⟩]
  product := [⟨1, 3⟩, ⟨1, 4⟩]
  templates := ((∅ : Std.TreeMap CellId Template).insert ⟨1, 3⟩ ⟨"b", 0, []⟩).insert ⟨1, 4⟩
    ⟨"ends", 1, ends⟩

/-- The point is bound to its copy on the product side. -/
def spreadBindings : Std.TreeMap CellId CellId :=
  (∅ : Std.TreeMap CellId CellId).insert ⟨1, 2⟩ ⟨0, 0⟩

/-- With three ends the second cell breaks a law after the first was made, and the point is still
alone; with two ends the rule applies. -/
theorem rewrite_atomic_onePoint :
    ((Space.rewrite (spread [⟨1, 2⟩, ⟨1, 3⟩, ⟨1, 2⟩]) [⟨0, 0⟩]).applyTo onePoint).2 = onePoint ∧
      ∃ r t, (Space.rewrite (spread [⟨1, 2⟩, ⟨1, 3⟩]) [⟨0, 0⟩]).applyTo onePoint = (.ok r, t) := by
  have hreach : onePoint.Reachable := (Store.Reachable.empty 0).runAll _
  have hatomic := rewrite_atomic hreach [⟨0, 0⟩]
  have hmatch : ∀ ends, (Space.ofStore onePoint).matchRule (spread ends) [⟨0, 0⟩] =
      .ok ⟨spreadBindings, []⟩ := fun _ => rfl
  have hroots : ∀ ends, (spread ends).unboundProduct spreadBindings.contains =
      .ok [(0, ⟨1, 3⟩), (1, ⟨1, 4⟩)] := fun _ => rfl
  have hplan : ∀ ends, (spread ends).plan spreadBindings.contains =
      (spread ends).planFrom spreadBindings.contains ∅ [] [.enter ⟨1, 3⟩, .enter ⟨1, 4⟩] :=
    fun _ => Rule.plan_of_sorted (hroots _) (by decide)
  constructor
  · have hthree : (spread [⟨1, 2⟩, ⟨1, 3⟩, ⟨1, 2⟩]).plan spreadBindings.contains =
        .ok [⟨1, 3⟩, ⟨1, 4⟩] := (hplan _).trans (by cbv)
    have hprep : (Space.ofStore onePoint).prepare (spread [⟨1, 2⟩, ⟨1, 3⟩, ⟨1, 2⟩]) [⟨0, 0⟩] =
        .error (.tooManyEndpoints "ends" 3) := prepare_planned (hmatch _) hthree
    have hfails : ((Space.rewrite (spread [⟨1, 2⟩, ⟨1, 3⟩, ⟨1, 2⟩]) [⟨0, 0⟩]).applyTo onePoint).1 =
        .error (.tooManyEndpoints "ends" 3) :=
      congrArg Prod.fst (Space.apply_rewrite_error hprep)
    exact hatomic.1 _ _ _ (Prod.ext hfails rfl)
  · have htwo : (spread [⟨1, 2⟩, ⟨1, 3⟩]).plan spreadBindings.contains =
        .ok [⟨1, 3⟩, ⟨1, 4⟩] := (hplan _).trans (by cbv)
    obtain ⟨t, _, ht⟩ := hatomic.2.2 _ _ _ ((prepare_planned (hmatch _) htwo).trans rfl)
    exact ⟨_, t, ht⟩

end CellComplex
