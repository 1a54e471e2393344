import CellComplex.Proofs.Space.Change
import CellComplex.Proofs.Store.Operation

/-!
# Edits that succeed

What an edit that succeeded has done, and when an edit succeeds:

* `Edit.apply_bind_eq_ok`, `Edit.apply_look_eq_ok`: what the success of a compound edit says of its
  parts;
* **`Space.apply_createChecked_eq_ok`**: a cell that was made is the one that its boundary makes;
* `Store.Reachable.applyTo`: what an edit leaves behind that answers an operation is reachable;
* `Space.apply_delete_live`, `Space.apply_modifyCell`: cells of the store on top are changed without
  fail;
* `Space.apply_buildIndex`: the index of a store is built without fail, and is fresh then.
-/

namespace CellComplex

namespace Edit

variable {α β : Type} {e : Edit α} {f : α → Edit β} {sp sp' : Space} {a : α} {b : β}

/-! ## 1. Parts of an edit that succeeded -/

theorem apply_bind_eq_ok :
    (e >>= f).apply sp = (.ok b, sp') ↔
      ∃ a mid, e.apply sp = (.ok a, mid) ∧ (f a).apply mid = (.ok b, sp') := by
  cases h : e.apply sp with
  | mk result mid =>
    cases result with
    | error err =>
      rw [apply_bind_error h]
      refine iff_of_false (fun h' => by cases h') fun h' => ?_
      obtain ⟨_, _, h', _⟩ := h'
      cases h'
    | ok a =>
      rw [apply_bind_ok h]
      refine ⟨fun h' => ⟨a, mid, rfl, h'⟩, fun h' => ?_⟩
      obtain ⟨_, _, e, h'⟩ := h'
      cases e
      exact h'

theorem apply_pure_eq_ok {b : α} :
    (pure a : Edit α).apply sp = (.ok b, sp') ↔ a = b ∧ sp = sp' := by
  rw [apply_pure, Prod.mk.injEq, Except.ok.injEq]

theorem apply_look_eq_ok {read : Space → Except StoreError α} :
    (look read).apply sp = (.ok a, sp') ↔ read sp = .ok a ∧ sp = sp' := by
  cases h : read sp with
  | error err =>
    rw [apply_look_error h]
    exact iff_of_false (fun h' => by cases h') fun h' => by cases h'.1
  | ok b => rw [apply_look_ok h, Prod.mk.injEq]

theorem apply_decide_eq_ok {choose : Space → Except StoreError (α × (Store → Store))} :
    (decide choose).apply sp = (.ok a, sp') ↔
      ∃ change, choose sp = .ok (a, change) ∧ { sp with top := change sp.top } = sp' := by
  cases h : choose sp with
  | error err =>
    rw [apply_decide_error h]
    refine iff_of_false (fun h' => by cases h') fun h' => ?_
    obtain ⟨_, h', _⟩ := h'
    cases h'
  | ok chosen =>
    obtain ⟨b, change⟩ := chosen
    rw [apply_decide_ok h, Prod.mk.injEq, Except.ok.injEq]
    refine ⟨fun h' => ?_, fun h' => ?_⟩
    · obtain ⟨rfl, rfl⟩ := h'
      exact ⟨change, rfl, rfl⟩
    · obtain ⟨_, hchosen, rfl⟩ := h'
      cases hchosen
      exact ⟨rfl, rfl⟩

/-- Of a store with nothing below, a run says what is left on top. -/
theorem applyTo_eq {s t : Store} {result : Except StoreError α}
    (h : e.apply (.ofStore s) = (result, .ofStore t)) : e.applyTo s = (result, t) := by
  unfold applyTo
  rw [h]
  rfl

end Edit

/-- What an operation leaves behind is reachable, however the edit is called that answers it. -/
theorem Store.Reachable.applyTo {α : Type} {s : Store} (h : s.Reachable) {e : Edit α}
    (op : Operation) (hop : op.edit = discard e) : (e.applyTo s).2.Reachable := by
  have hrun : op.run s = (e.applyTo s).2 := by
    unfold Operation.run Edit.applyTo
    show ((op.edit.apply (.ofStore s)).2).top = _
    rw [hop, Edit.apply_discard]
  exact hrun ▸ h.step op

theorem Store.Reachable.of_edit {α : Type} {s t : Store} {e : Edit α} {r : Except StoreError α}
    (h : s.Reachable) (op : Operation) (hop : op.edit = discard e)
    (happly : e.apply (.ofStore s) = (r, .ofStore t)) : t.Reachable := by
  have hleft : (e.applyTo s).2 = t := by rw [Edit.applyTo_eq happly]
  exact hleft ▸ h.applyTo op hop

namespace Space

open Edit

variable {sp sp' : Space} {label : String} {boundary : List CellId} {check : BoundaryCheck}
variable {id : CellId} {c : Cell}

/-! ## 2. New cells -/

theorem apply_createChecked_ok
    (h : Cell.make sp.lookup (sp.top.nextId 0) label boundary check = .ok c) :
    (createChecked label boundary check).apply sp =
      (.ok c.id, { sp with top := sp.top.push c }) := by
  rw [apply_createChecked, h]

/-- The same, of a store with nothing below. -/
theorem apply_createChecked_ofStore {s : Store}
    (h : Cell.make s.lookup (s.nextId 0) label boundary check = .ok c) :
    (createChecked label boundary check).apply (ofStore s) = (.ok c.id, ofStore (s.push c)) := by
  rw [← lookup_ofStore] at h
  exact apply_createChecked_ok h

/-- **A cell that was made is the one that its boundary makes.** -/
theorem apply_createChecked_eq_ok
    (h : (createChecked label boundary check).apply sp = (.ok id, sp')) :
    ∃ c, Cell.make sp.lookup (sp.top.nextId 0) label boundary check = .ok c ∧ c.id = id ∧
      sp' = { sp with top := sp.top.push c } := by
  rw [apply_createChecked] at h
  cases hmake : Cell.make sp.lookup (sp.top.nextId 0) label boundary check with
  | error err =>
    rw [hmake] at h
    cases h
  | ok c =>
    rw [hmake] at h
    cases h
    exact ⟨c, rfl, rfl, rfl⟩

/-! ## 3. Cells of the store on top -/

theorem apply_modifyCell {f : Cell → Cell} (h : sp.top.owns id = true) :
    (modifyCell id f).apply sp = (.ok (), { sp with top := sp.top.modifyAt id.index f }) := by
  have hown : sp.requireOwned id = .ok () := requireOwned_eq_ok.mpr h
  let change : Store → Store := fun s => s.modifyAt id.index f
  have hchange : (sp.requireOwned id >>= fun _ => pure ((), change)) = .ok ((), change) :=
    Outcome.bind_eq_ok.mpr ⟨(), hown, rfl⟩
  unfold modifyCell
  rw [apply_decide_ok hchange]

theorem apply_delete_live (hc : sp.top.find? id = some c) (hlive : c.isLive = true) :
    (delete id).apply sp = (.ok (), { sp with top := sp.top.deleteAt id.index }) := by
  have hown : sp.requireOwned id = .ok () := requireOwned_eq_ok.mpr (Store.owns_iff.mpr ⟨c, hc⟩)
  have hany : (sp.top.find? id).any Cell.isLive = true := by
    rw [hc]
    exact hlive
  unfold delete
  rw [apply_decide_ok (Outcome.bind_eq_ok.mpr ⟨(), hown, if_pos hany⟩)]

/-- **A deletion that succeeded marked a live cell**, or found it deleted. -/
theorem apply_delete_eq_ok (h : (delete id).apply sp = (.ok (), sp')) :
    ∃ c, sp.top.find? id = some c ∧
      ((c.isLive = true ∧ sp' = { sp with top := sp.top.deleteAt id.index }) ∨
        (c.isLive = false ∧ sp' = sp)) := by
  obtain ⟨change, hchoose, rfl⟩ := apply_decide_eq_ok.mp h
  obtain ⟨_, hown, hchoose⟩ := Outcome.bind_eq_ok.mp hchoose
  obtain ⟨c, hc⟩ := Store.owns_iff.mp (requireOwned_eq_ok.mp hown)
  refine ⟨c, hc, ?_⟩
  rw [hc] at hchoose
  split at hchoose
  · next hlive =>
    cases hchoose
    exact Or.inl ⟨hlive, rfl⟩
  · next hdead =>
    cases hchoose
    exact Or.inr ⟨Bool.not_eq_true _ ▸ hdead, rfl⟩

theorem apply_requireDeletable (h : sp.top.owns id = true) :
    (requireDeletable id).apply sp = (.ok (), sp) :=
  apply_look_ok (requireOwned_eq_ok.mpr h)

/-! ## 4. The index -/

theorem apply_buildIndex (s : Store) :
    buildIndex.apply (ofStore s) = (.ok (), ofStore (s.buildIndex s.lookup)) := by
  have hchange : buildIndex.apply (ofStore s) =
      (.ok (), ofStore (s.buildIndex (ofStore s).lookup)) := rfl
  rw [hchange, lookup_ofStore]

theorem applyTo_buildIndex (s : Store) :
    buildIndex.applyTo s = (.ok (), s.buildIndex s.lookup) :=
  applyTo_eq (apply_buildIndex s)

end Space

theorem Store.Reachable.buildIndex {s : Store} (h : s.Reachable) :
    (s.buildIndex s.lookup).Reachable := by
  rw [← Operation.run_buildIndex]
  exact h.step .buildIndex

theorem Store.isStale_buildIndex {s : Store} {look : Lookup} :
    (s.buildIndex look).isStale = false := by
  simp [isStale, Store.buildIndex, CofaceIndex.isStale, CofaceIndex.build]

end CellComplex
