import CellComplex.Proofs.Boundary.Make
import CellComplex.Space.Edit

/-!
# Running edits

What an edit yields and leaves behind, one lemma for each way to build one:

* `Edit.apply_bind_ok`, `Edit.apply_bind_error`: one edit after another;
* `Edit.apply_decide_ok`, `Edit.apply_look_ok` and their failing halves;
* **`Space.apply_createChecked`**: a new cell, or the law that is broken and no change.
-/

namespace CellComplex

namespace Edit

variable {α β : Type} {e : Edit α} {f : α → Edit β} {sp sp' : Space} {a : α} {err : StoreError}

/-! ## 1. One edit after another -/

theorem apply_pure : (pure a : Edit α).apply sp = (.ok a, sp) := rfl

theorem apply_bind_ok (h : e.apply sp = (.ok a, sp')) :
    (e >>= f).apply sp = (f a).apply sp' := Outcome.run_bind_ok h

theorem apply_bind_error (h : e.apply sp = (.error err, sp')) :
    (e >>= f).apply sp = (.error err, sp') := Outcome.run_bind_error h

/-- What an edit yields does not matter to the space that it leaves behind. -/
theorem apply_discard : ((discard e).apply sp).2 = (e.apply sp).2 := by
  show ((e >>= fun _ => pure ()).apply sp).2 = _
  cases h : e.apply sp with
  | mk result sp' =>
    cases result with
    | error err => rw [apply_bind_error h]
    | ok a => rw [apply_bind_ok h, apply_pure]

/-! ## 2. Edits that decide -/

variable {choose : Space → Except StoreError (α × (Store → Store))} {change : Store → Store}
variable {read : Space → Except StoreError α}

theorem apply_decide_ok (h : choose sp = .ok (a, change)) :
    (decide choose).apply sp = (.ok a, { sp with top := change sp.top }) := by
  show decide choose sp = _
  unfold decide
  rw [h]

theorem apply_decide_error (h : choose sp = .error err) :
    (decide choose).apply sp = (.error err, sp) := by
  show decide choose sp = _
  unfold decide
  rw [h]

theorem apply_look_ok (h : read sp = .ok a) : (look read).apply sp = (.ok a, sp) := by
  have hchoose : (read sp).map (fun a => (a, (id : Store → Store))) = .ok (a, id) := by
    rw [h]
    rfl
  unfold look
  rw [apply_decide_ok hchoose]
  rfl

theorem apply_look_error (h : read sp = .error err) : (look read).apply sp = (.error err, sp) := by
  refine apply_decide_error ?_
  rw [h]
  rfl

end Edit

namespace Space

open Edit

variable {sp : Space} {label : String} {boundary : List CellId} {check : BoundaryCheck} {c : Cell}

/-! ## 3. New cells -/

theorem apply_insert_ok (hid : c.id = sp.top.nextId 0) :
    (insert c).apply sp = (.ok c.id, { sp with top := sp.top.push c }) := by
  unfold insert
  rw [apply_decide_ok (if_pos hid)]

/-- **A lawful boundary makes a cell, and no other changes anything.** -/
theorem apply_createChecked :
    (createChecked label boundary check).apply sp =
      match Cell.make sp.lookup (sp.top.nextId 0) label boundary check with
      | .error e => (.error e, sp)
      | .ok c => (.ok c.id, { sp with top := sp.top.push c }) := by
  unfold createChecked
  cases hmake : Cell.make sp.lookup (sp.top.nextId 0) label boundary check with
  | error e => exact apply_bind_error (apply_look_error hmake)
  | ok c =>
    rw [apply_bind_ok (apply_look_ok hmake)]
    exact apply_insert_ok (make_fields hmake).1

theorem apply_createChecked_fst :
    ((createChecked label boundary check).apply sp).1 =
      (Cell.make sp.lookup (sp.top.nextId 0) label boundary check).map Cell.id := by
  rw [apply_createChecked]
  cases Cell.make sp.lookup (sp.top.nextId 0) label boundary check with
  | error e => rfl
  | ok c => rfl

end Space

end CellComplex
