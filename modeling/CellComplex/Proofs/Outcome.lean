import Mathlib.Data.List.Forall2
import Mathlib.Data.List.Perm.Basic

/-!
# When a computation that may fail succeeds

What the success of a compound computation says of its parts:

* `Outcome.bind_eq_ok`: both halves succeed; `Outcome.bind_eq_error`: one of them fails;
* `Outcome.isOk_congr`, `Outcome.error_congr`: what fails or succeeds alike;
* `Outcome.mapM_eq_ok`: every element succeeds; `Outcome.mapM_eq_error`: the first one that fails;
* `Outcome.mapM_get`, `Outcome.mapM_get_right`: the image of a list, position by position;
* `Outcome.forall₂_mem`, `Outcome.exists_mapM`: lists that correspond, and an image that does;
* `Outcome.mapM_perm`: another order of a list has another order of its image;
* **`Outcome.foldlM_induction`**: what every round of a loop keeps holds at its end;
  `Outcome.foldlM_eq_error`: the round in which a loop fails;
* `Outcome.run_bind_ok`, `Outcome.run_bind_error`: with a state, what fails keeps the state it had.
-/

namespace CellComplex

namespace Outcome

variable {ε α β : Type}

/-! ## 1. Two halves -/

theorem bind_eq_ok {x : Except ε α} {f : α → Except ε β} {b : β} :
    (x >>= f) = .ok b ↔ ∃ a, x = .ok a ∧ f a = .ok b := by
  cases x with
  | error e =>
    refine ⟨fun h => (by cases h), fun h => ?_⟩
    obtain ⟨_, h, _⟩ := h
    cases h
  | ok a =>
    refine ⟨?_, fun h' => ?_⟩
    · exact fun h => ⟨a, rfl, h⟩
    · obtain ⟨a', e, h⟩ := h'
      cases e
      exact h

theorem bind_eq_error {x : Except ε α} {f : α → Except ε β} {e : ε} :
    (x >>= f) = .error e ↔ x = .error e ∨ ∃ a, x = .ok a ∧ f a = .error e := by
  cases x with
  | error e' =>
    refine ⟨fun h => Or.inl (congrArg _ (Except.error.inj h)), fun h => ?_⟩
    obtain h | ⟨_, h, _⟩ := h
    · exact congrArg _ (Except.error.inj h)
    · cases h
  | ok a =>
    refine ⟨fun h => Or.inr ⟨a, rfl, h⟩, fun h => ?_⟩
    obtain h | ⟨a', ha, h⟩ := h
    · cases h
    · cases ha
      exact h

/-- Only whether a computation succeeds is asked. -/
theorem discard_eq_ok {x : Except ε α} : (x >>= fun _ => pure ()) = .ok () ↔ ∃ a, x = .ok a := by
  rw [bind_eq_ok]
  exact exists_congr fun a => and_iff_left rfl

theorem map_eq_ok {x : Except ε α} {f : α → β} {b : β} :
    x.map f = .ok b ↔ ∃ a, x = .ok a ∧ f a = b := by
  cases x with
  | error e =>
    refine ⟨fun h => (by cases h), fun h => ?_⟩
    obtain ⟨_, h, _⟩ := h
    cases h
  | ok a =>
    refine ⟨fun h => ⟨a, rfl, Except.ok.inj h⟩, fun h => ?_⟩
    obtain ⟨a', e, h⟩ := h
    cases e
    exact congrArg Except.ok h

/-- A result that is there. -/
theorem toOption_eq_some {x : Except ε α} {a : α} : x.toOption = some a ↔ x = .ok a := by
  cases x with
  | error e => exact iff_of_false (fun h => by cases h) fun h => by cases h
  | ok b => exact ⟨fun h => congrArg _ (Option.some.inj h), fun h => congrArg _ (Except.ok.inj h)⟩

/-- Computations that fail or succeed alike. -/
theorem isOk_congr {x : Except ε α} {y : Except ε β}
    (h : x.map (fun _ => ()) = y.map fun _ => ()) : (∃ a, x = .ok a) ↔ ∃ b, y = .ok b := by
  have hx : x.map (fun _ => ()) = .ok () ↔ ∃ a, x = .ok a :=
    map_eq_ok.trans (exists_congr fun a => and_iff_left rfl)
  have hy : y.map (fun _ => ()) = .ok () ↔ ∃ b, y = .ok b :=
    map_eq_ok.trans (exists_congr fun b => and_iff_left rfl)
  rw [← hx, ← hy, h]

/-- ... fail with the same error. -/
theorem error_congr {x : Except ε α} {y : Except ε β}
    (h : x.map (fun _ => ()) = y.map fun _ => ()) {e : ε} (hx : x = .error e) : y = .error e := by
  rw [hx] at h
  cases y with
  | error e' => exact congrArg _ (Except.error.inj h).symm
  | ok b => cases h

/-! ## 2. Every element of a list -/

theorem mapM_eq_ok {f : α → Except ε β} {xs : List α} {ys : List β} :
    xs.mapM f = .ok ys ↔ List.Forall₂ (fun x y => f x = .ok y) xs ys := by
  induction xs generalizing ys with
  | nil =>
    rw [List.mapM_nil, List.forall₂_nil_left_iff]
    exact ⟨fun h => by cases h; rfl, fun h => by rw [h]; rfl⟩
  | cons x xs ih =>
    rw [List.mapM_cons, bind_eq_ok, List.forall₂_cons_left_iff]
    refine ⟨fun h' => ?_, fun h' => ?_⟩
    · obtain ⟨y, hy, hrest⟩ := h'
      obtain ⟨ys', hys, e⟩ := bind_eq_ok.mp hrest
      cases e
      exact ⟨y, ys', hy, ih.mp hys, rfl⟩
    · obtain ⟨y, ys', hy, hys, rfl⟩ := h'
      exact ⟨y, hy, bind_eq_ok.mpr ⟨ys', ih.mpr hys, rfl⟩⟩

/-- A list without an image has a first element that fails. -/
theorem mapM_eq_error {f : α → Except ε β} {xs : List α} {e : ε} (h : xs.mapM f = .error e) :
    ∃ before x after, xs = before ++ x :: after ∧ f x = .error e ∧
      ∀ y ∈ before, ∃ b, f y = .ok b := by
  induction xs with
  | nil => cases h
  | cons x xs ih =>
    rw [List.mapM_cons] at h
    cases hx : f x with
    | error e' =>
      rw [hx] at h
      cases h
      exact ⟨[], x, xs, rfl, hx, fun y hy => absurd hy List.not_mem_nil⟩
    | ok b =>
      rw [hx] at h
      cases hxs : xs.mapM f with
      | error e' =>
        rw [hxs] at h
        cases h
        obtain ⟨before, z, after, rfl, hz, hbefore⟩ := ih hxs
        exact ⟨x :: before, z, after, rfl, hz, List.forall_mem_cons.mpr ⟨⟨b, hx⟩, hbefore⟩⟩
      | ok ys =>
        rw [hxs] at h
        cases h

theorem mapM_length {f : α → Except ε β} {xs : List α} {ys : List β} (h : xs.mapM f = .ok ys) :
    ys.length = xs.length := (mapM_eq_ok.mp h).length_eq.symm

theorem mapM_get {f : α → Except ε β} {xs : List α} {ys : List β} (h : xs.mapM f = .ok ys)
    {i : Nat} {x : α} (hx : xs[i]? = some x) : ∃ y, ys[i]? = some y ∧ f x = .ok y := by
  have hall := mapM_eq_ok.mp h
  clear h
  induction hall generalizing i with
  | nil => cases hx
  | cons hxy _ ih =>
    cases i with
    | zero =>
      cases hx
      exact ⟨_, rfl, hxy⟩
    | succ i => exact ih hx

theorem mapM_get_right {f : α → Except ε β} {xs : List α} {ys : List β} (h : xs.mapM f = .ok ys)
    {i : Nat} {y : β} (hy : ys[i]? = some y) : ∃ x, xs[i]? = some x ∧ f x = .ok y := by
  obtain ⟨hlt, _⟩ := List.getElem?_eq_some_iff.mp hy
  have hget := List.getElem?_eq_getElem (mapM_length h ▸ hlt)
  obtain ⟨y', hy', hf⟩ := mapM_get h hget
  cases hy.symm.trans hy'
  exact ⟨_, hget, hf⟩

/-- Lists that correspond, by their elements. -/
theorem forall₂_mem {R : α → β → Prop} {xs : List α} {ys : List β} (h : List.Forall₂ R xs ys)
    {x : α} (hx : x ∈ xs) : ∃ y ∈ ys, R x y := by
  induction h with
  | nil => cases hx
  | cons hxy _ ih =>
    rcases List.mem_cons.mp hx with rfl | hx
    · exact ⟨_, List.mem_cons_self, hxy⟩
    · obtain ⟨y, hy, hR⟩ := ih hx
      exact ⟨y, List.mem_cons_of_mem _ hy, hR⟩

theorem forall₂_mem_right {R : α → β → Prop} {xs : List α} {ys : List β} (h : List.Forall₂ R xs ys)
    {y : β} (hy : y ∈ ys) : ∃ x ∈ xs, R x y := forall₂_mem h.flip hy

theorem mapM_mem {f : α → Except ε β} {xs : List α} {ys : List β} (h : xs.mapM f = .ok ys)
    {x : α} (hx : x ∈ xs) : ∃ y ∈ ys, f x = .ok y := forall₂_mem (mapM_eq_ok.mp h) hx

theorem mapM_mem_right {f : α → Except ε β} {xs : List α} {ys : List β} (h : xs.mapM f = .ok ys)
    {y : β} (hy : y ∈ ys) : ∃ x ∈ xs, f x = .ok y := forall₂_mem_right (mapM_eq_ok.mp h) hy

/-- A list has an image that is right at every place, if every element has one. -/
theorem exists_mapM {γ : Type} {f : α → Except ε β} {g : γ → α} {R : γ → β → Prop} {xs : List γ}
    (h : ∀ x ∈ xs, ∃ y, f (g x) = .ok y ∧ R x y) :
    ∃ ys, (xs.map g).mapM f = .ok ys ∧ List.Forall₂ R xs ys := by
  induction xs with
  | nil => exact ⟨[], rfl, .nil⟩
  | cons x xs ih =>
    obtain ⟨y, hy, hR⟩ := h x List.mem_cons_self
    obtain ⟨ys, hys, hall⟩ := ih fun z hz => h z (List.mem_cons_of_mem _ hz)
    exact ⟨y :: ys, mapM_eq_ok.mpr (.cons hy (mapM_eq_ok.mp hys)), .cons hR hall⟩

theorem mapM_isOk {f : α → Except ε β} {xs : List α} (h : ∀ x ∈ xs, ∃ y, f x = .ok y) :
    ∃ ys, xs.mapM f = .ok ys := by
  obtain ⟨ys, hys, _⟩ := exists_mapM (g := id) (R := fun _ _ => True) fun x hx => by
    obtain ⟨y, hy⟩ := h x hx
    exact ⟨y, hy, trivial⟩
  exact ⟨ys, (List.map_id xs) ▸ hys⟩

/-- Another order of a list has another order of its image. -/
theorem mapM_perm {f g : α → Except ε β} {xs xs' : List α} {ys : List β} (h : xs.mapM f = .ok ys)
    (hperm : xs'.Perm xs) (hsame : ∀ x ∈ xs, g x = f x) :
    ∃ ys', xs'.mapM g = .ok ys' ∧ ys'.Perm ys := by
  have hall : List.Forall₂ (fun x y => g x = .ok y) xs ys :=
    ((List.forall₂_and_left xs ys).mpr ⟨hsame, mapM_eq_ok.mp h⟩).imp
      fun _ _ hxy => hxy.1.trans hxy.2
  obtain ⟨ys', hys', hperm'⟩ := List.perm_comp_forall₂ hperm hall
  exact ⟨ys', mapM_eq_ok.mpr hys', hperm'⟩

/-! ## 3. Loops -/

/-- **What every round of a loop keeps holds at its end**, where a round may know which elements the
earlier rounds have taken. -/
theorem foldlM_induction {f : β → α → Except ε β} {P : List α → β → Prop} {xs : List α} {b b' : β}
    (h : xs.foldlM f b = .ok b') (hstart : P [] b)
    (hstep : ∀ done x rest b b', xs = done ++ x :: rest → P done b → f b x = .ok b' →
      P (done ++ [x]) b') : P xs b' := by
  have go : ∀ rest done b, xs = done ++ rest → P done b → rest.foldlM f b = .ok b' → P xs b' := by
    intro rest
    induction rest with
    | nil =>
      intro done b hxs hb hfold
      cases hfold
      rw [hxs, List.append_nil]
      exact hb
    | cons x rest ih =>
      intro done b hxs hb hfold
      rw [List.foldlM_cons] at hfold
      obtain ⟨mid, hmid, hrest⟩ := bind_eq_ok.mp hfold
      refine ih (done ++ [x]) mid ?_ (hstep done x rest b mid hxs hb hmid) hrest
      rw [hxs, List.append_cons]
  exact go xs [] b rfl hstart h

/-- **A loop that fails has a round that fails**, after rounds that did not. -/
theorem foldlM_eq_error {f : β → α → Except ε β} {xs : List α} {b : β} {err : ε}
    (h : xs.foldlM f b = .error err) :
    ∃ done x rest mid, xs = done ++ x :: rest ∧ done.foldlM f b = .ok mid ∧
      f mid x = .error err := by
  induction xs generalizing b with
  | nil => cases h
  | cons x xs ih =>
    rw [List.foldlM_cons] at h
    cases hx : f b x with
    | error e =>
      rw [hx] at h
      exact ⟨[], x, xs, b, rfl, rfl, hx.trans h⟩
    | ok mid =>
      rw [hx] at h
      obtain ⟨done, y, rest, mid', rfl, hdone, hy⟩ := ih h
      exact ⟨x :: done, y, rest, mid', rfl, bind_eq_ok.mpr ⟨mid, hx, hdone⟩, hy⟩

/-! ## 4. Computations with a state -/

section State

variable {σ : Type} {e : ExceptT ε (StateM σ) α} {f : α → ExceptT ε (StateM σ) β} {s s' : σ}

theorem run_bind_ok {a : α} (h : StateT.run (ExceptT.run e) s = (.ok a, s')) :
    StateT.run (ExceptT.run (e >>= f)) s = StateT.run (ExceptT.run (f a)) s' := by
  have h' : e s = (.ok a, s') := h
  show (StateT.bind e (ExceptT.bindCont f)) s = _
  unfold StateT.bind
  rw [h']
  rfl

theorem run_bind_error {err : ε} (h : StateT.run (ExceptT.run e) s = (.error err, s')) :
    StateT.run (ExceptT.run (e >>= f)) s = (.error err, s') := by
  have h' : e s = (.error err, s') := h
  show (StateT.bind e (ExceptT.bindCont f)) s = _
  unfold StateT.bind
  rw [h']
  rfl

end State

end Outcome

end CellComplex
