import CellComplex.Knowledge.Report
import CellComplex.Proofs.Rewrite.Shortcut

/-!
# Running tasks

A task may fail on the way, and what was done before stays. What a task leaves behind is told here
for each way to build one.

* `Task.apply_bind_ok`, `Task.apply_bind_error`: one task after another;
* `Task.apply_edit_eq_ok`: an edit that succeeded;
* `Task.apply_forM_append_eq_ok`: a loop in two parts;
* `Task.Keeps`: an invariant of knowledge that a task keeps, failing or not;
* `Task.forM_induction`: what the rounds of a loop keep, if it comes to its end;
* `Task.Still`: a task that changes nothing;
* `Task.leaves_bind`: where a task stands in a sequence decides what the sequence leaves.
-/

namespace CellComplex

namespace Task

variable {α β : Type} {task : Task α} {f : α → Task β} {k k' : Knowledge} {a : α} {b : β}
variable {err : KnowledgeError}

/-! ## 1. One task after another -/

theorem apply_bind_ok (h : task.apply k = (.ok a, k')) :
    (task >>= f).apply k = (f a).apply k' := Outcome.run_bind_ok h

theorem apply_bind_error (h : task.apply k = (.error err, k')) :
    (task >>= f).apply k = (.error err, k') := Outcome.run_bind_error h

theorem apply_ask {question : Knowledge → Except KnowledgeError α} :
    (ask question).apply k = (question k, k) := rfl

theorem ask_bind_ok {question : Knowledge → Except KnowledgeError α} (h : question k = .ok a) :
    (ask question >>= f).apply k = (f a).apply k :=
  apply_bind_ok (by rw [apply_ask, h])

theorem ask_bind_error {question : Knowledge → Except KnowledgeError α}
    (h : question k = .error err) : (ask question >>= f).apply k = (.error err, k) :=
  apply_bind_error (by rw [apply_ask, h])

theorem apply_edit {change : Edit α} :
    (edit change).apply k =
      ((change.applyTo k.store).1.mapError .store, ⟨(change.applyTo k.store).2, k.points⟩) := rfl

/-- An edit of knowledge that succeeded is one of its store. -/
theorem apply_edit_eq_ok {change : Edit α} :
    (edit change).apply k = (.ok a, k') ↔
      ∃ sp, change.apply (.ofStore k.store) = (.ok a, sp) ∧ k' = ⟨sp.top, k.points⟩ := by
  rw [apply_edit]
  show ((change.apply (.ofStore k.store)).1.mapError _,
    (⟨(change.apply (.ofStore k.store)).2.top, k.points⟩ : Knowledge)) = _ ↔ _
  cases change.apply (.ofStore k.store) with
  | mk result sp =>
    cases result with
    | error err =>
      refine iff_of_false (fun h => by cases h) fun h => ?_
      obtain ⟨_, h, _⟩ := h
      cases h
    | ok b =>
      refine ⟨fun h => ?_, fun h => ?_⟩
      · cases h
        exact ⟨sp, rfl, rfl⟩
      · obtain ⟨_, h, rfl⟩ := h
        cases h
        rfl

theorem apply_remember {label : String} {id : CellId} :
    (remember label id).apply k = (.ok (), ⟨k.store, k.points.insert label id⟩) := rfl

theorem apply_bind_eq_ok : (task >>= f).apply k = (.ok b, k') ↔
    ∃ a mid, task.apply k = (.ok a, mid) ∧ (f a).apply mid = (.ok b, k') := by
  cases h : task.apply k with
  | mk result mid =>
    cases result with
    | error err =>
      rw [apply_bind_error h]
      refine iff_of_false (fun h' => by cases h') fun h' => ?_
      obtain ⟨_, _, h', _⟩ := h'
      cases h'
    | ok a =>
      rw [apply_bind_ok h]
      refine ⟨fun h' => ⟨a, mid, rfl, h'⟩, fun h' => ?_⟩
      obtain ⟨_, _, e, h'⟩ := h'
      cases e
      exact h'

section Loops

variable {g : α → Task Unit} {xs ys : List α} {mid : Knowledge}

/-- The second part of a loop begins where the first one ended. -/
theorem apply_forM_append (h : (xs.forM g).apply k = (.ok (), mid)) :
    ((xs ++ ys).forM g).apply k = (ys.forM g).apply mid := by
  have hsplit : (xs ++ ys).forM g = xs.forM g >>= fun _ => ys.forM g := List.forM_append
  rw [hsplit]
  exact apply_bind_ok h

theorem apply_forM_append_eq_ok :
    ((xs ++ ys).forM g).apply k = (.ok (), k') ↔
      ∃ mid, (xs.forM g).apply k = (.ok (), mid) ∧ (ys.forM g).apply mid = (.ok (), k') := by
  have hsplit : (xs ++ ys).forM g = xs.forM g >>= fun _ => ys.forM g := List.forM_append
  rw [hsplit, apply_bind_eq_ok]
  exact ⟨fun h => h.elim fun _ h => h, fun h => ⟨(), h⟩⟩

end Loops

/-! ## 2. What a task keeps -/

/-- **What a task keeps**, failing or not. -/
def Keeps (P : Knowledge → Prop) (task : Task α) : Prop := ∀ k, P k → P (task.apply k).2

variable {P : Knowledge → Prop}

/-- What a sequence leaves, by where it ends. -/
theorem leaves_bind {Q : Knowledge → Prop}
    (hfail : ∀ err k', task.apply k = (.error err, k') → Q k')
    (hgo : ∀ a k', task.apply k = (.ok a, k') → Q ((f a).apply k').2) :
    Q ((task >>= f).apply k).2 := by
  cases h : task.apply k with
  | mk result mid =>
    cases result with
    | error err =>
      rw [apply_bind_error h]
      exact hfail err mid h
    | ok a =>
      rw [apply_bind_ok h]
      exact hgo a mid h

theorem Keeps.bind (h : task.Keeps P) (hf : ∀ a, (f a).Keeps P) : (task >>= f).Keeps P := by
  intro k hk
  refine leaves_bind (fun err k' hfail => ?_) fun a k' hgo => ?_
  · have hmid := h k hk
    rwa [hfail] at hmid
  · have hmid := h k hk
    rw [hgo] at hmid
    exact hf a k' hmid

theorem Keeps.apply {result : Except KnowledgeError α} (h : task.Keeps P) (hk : P k)
    (happly : task.apply k = (result, k')) : P k' := by
  have hleft := h k hk
  rwa [happly] at hleft

theorem keeps_pure (a : α) : (pure a : Task α).Keeps P := fun _ hk => hk

theorem keeps_throw (err : KnowledgeError) : (throw err : Task α).Keeps P := fun _ hk => hk

theorem keeps_ask {question : Knowledge → Except KnowledgeError α} :
    (ask question).Keeps P := fun _ hk => hk

theorem Keeps.discard (h : task.Keeps P) : (discard task).Keeps P :=
  h.bind fun _ => keeps_pure ()

theorem Keeps.forM {xs : List α} {f : α → Task Unit} (hf : ∀ a, (f a).Keeps P) :
    (xs.forM f).Keeps P := by
  induction xs with
  | nil => exact keeps_pure ()
  | cons x xs ih => exact (hf x).bind fun _ => ih

/-- **A loop that came to its end**: what every round that succeeded keeps holds there, where a
round may know which elements the earlier rounds have taken. -/
theorem forM_induction {xs : List α} {f : α → Task Unit} {P : List α → Knowledge → Prop}
    (h : (xs.forM f).apply k = (.ok (), k')) (hstart : P [] k)
    (hstep : ∀ done x k k', P done k → (f x).apply k = (.ok (), k') → P (done ++ [x]) k') :
    P xs k' := by
  have go : ∀ rest done k, P done k → (rest.forM f).apply k = (.ok (), k') →
      P (done ++ rest) k' := by
    intro rest
    induction rest with
    | nil =>
      intro done k hk hrest
      cases hrest
      rwa [List.append_nil]
    | cons x rest ih =>
      intro done k hk hrest
      have hboth : (f x >>= fun _ => rest.forM f).apply k = (.ok (), k') := hrest
      obtain ⟨_, mid, hx, hrest⟩ := apply_bind_eq_ok.mp hboth
      rw [List.append_cons]
      exact ih _ mid (hstep done x k mid hk hx) hrest
  exact go xs [] k hstart h

/-! ## 3. Tasks that change nothing -/

/-- **A task that changes nothing.** -/
def Still (task : Task α) : Prop := ∀ k, task.Keeps (· = k)

theorem still_pure (a : α) : (pure a : Task α).Still := fun _ => keeps_pure a

theorem still_ask {question : Knowledge → Except KnowledgeError α} : (ask question).Still :=
  fun _ => keeps_ask

theorem Still.bind (h : task.Still) (hf : ∀ a, (f a).Still) : (task >>= f).Still :=
  fun k => (h k).bind fun a => hf a k

theorem Still.leaves (h : task.Still) (k : Knowledge) : (task.apply k).2 = k := h k k rfl

/-- What follows without a change does not matter. -/
theorem leaves_still (hf : ∀ a, (f a).Still) : ((task >>= f).apply k).2 = (task.apply k).2 := by
  refine leaves_bind (Q := (· = (task.apply k).2)) (fun err k' hfail => ?_) fun a k' hgo => ?_
  · rw [hfail]
  · rw [hgo]
    exact (hf a).leaves k'

end Task

end CellComplex
