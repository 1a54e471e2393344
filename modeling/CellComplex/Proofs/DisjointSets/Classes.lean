import CellComplex.DisjointSets
import Mathlib.Logic.Relation

/-!
# The classes of a forest

A forest of parents stands for a partition of its elements: two elements are in one class if their
chains of parents end in the same slot. Walking up a chain redirects slots, so the forest changes
even when it is only read; the classes do not.

* `EndsAt`: a chain of parents and the slot in which it ends -- `root` answers with that slot
  (`endsAt_root`); `EndsAfter`: the same with the length of the chain;
* `Flattens`: what lookups do to a forest -- a slot redirected to its grandparent moves no end and
  makes no chain longer (`EndsAfter.shortcut`);
* `DisjointSets.rep`: the slot that stands for the class of an element, read without a walk;
  `DisjointSets.Same`: two elements with the same slot;
* `union_cases`: what a union can do, after both lookups (`seek`);
* `same_insert`, `same_union`: what the two changes do to the classes;
* **`Partitions`**: a forest holds the classes that some pairs generate, that is the smallest
  equivalence with these pairs; `Partitions.insert` and `Partitions.union` keep it.
-/

namespace CellComplex

namespace DisjointSets

/-! ## 1. Chains -/

/-- The chain of parents from a slot ends in a slot that is its own parent. -/
inductive EndsAt (up : Nat → Nat) : Nat → Nat → Prop where
  | stop {r : Nat} (h : up r = r) : EndsAt up r r
  | step {i r : Nat} (h : up i ≠ i) (hr : EndsAt up (up i) r) : EndsAt up i r

/-- The chain of parents from a slot ends in a slot after so many steps. -/
inductive EndsAfter (up : Nat → Nat) : Nat → Nat → Nat → Prop where
  | stop {r : Nat} (h : up r = r) : EndsAfter up r 0 r
  | step {i n r : Nat} (h : up i ≠ i) (hr : EndsAfter up (up i) n r) : EndsAfter up i (n + 1) r

section Chains

variable {up up' : Nat → Nat} {i j n r : Nat}

theorem EndsAfter.endsAt (h : EndsAfter up i n r) : EndsAt up i r := by
  induction h with
  | stop hr => exact .stop hr
  | step hne _ ih => exact .step hne ih

theorem EndsAt.endsAfter (h : EndsAt up i r) : ∃ n, EndsAfter up i n r := by
  induction h with
  | stop hr => exact ⟨0, .stop hr⟩
  | step hne _ ih =>
    obtain ⟨n, hn⟩ := ih
    exact ⟨n + 1, .step hne hn⟩

theorem EndsAfter.unique {n' r' : Nat} (h : EndsAfter up i n r) (h' : EndsAfter up i n' r') :
    n = n' ∧ r = r' := by
  induction h generalizing n' with
  | stop hr =>
    cases h' with
    | stop => exact ⟨rfl, rfl⟩
    | step hne _ => exact absurd hr hne
  | step hne _ ih =>
    cases h' with
    | stop hr => exact absurd hr hne
    | step _ hr' =>
      obtain ⟨hn, hr⟩ := ih hr'
      exact ⟨congrArg (· + 1) hn, hr⟩

theorem EndsAt.unique {r' : Nat} (h : EndsAt up i r) (h' : EndsAt up i r') : r = r' := by
  obtain ⟨n, hn⟩ := h.endsAfter
  obtain ⟨n', hn'⟩ := h'.endsAfter
  exact (hn.unique hn').2

theorem EndsAt.up_eq (h : EndsAt up i r) : up r = r := by
  induction h with
  | stop hr => exact hr
  | step _ _ ih => exact ih

/-- A slot redirected to its grandparent leaves every chain with its end, and makes none longer. -/
theorem EndsAfter.shortcut (h : EndsAfter up j n r) (hi : up i ≠ i) (hloop : up (up i) ≠ i)
    (hat : up' i = up (up i)) (hoff : ∀ k, k ≠ i → up' k = up k) :
    ∃ m, m ≤ n ∧ EndsAfter up' j m r := by
  induction h with
  | @stop r hr =>
    have hne : r ≠ i := fun e => hi (e ▸ hr)
    exact ⟨0, Nat.le_refl 0, .stop (by rw [hoff r hne, hr])⟩
  | @step j n r hj _ ih =>
    obtain ⟨m, hm, hchain⟩ := ih
    by_cases hji : j = i
    · subst hji
      have hup : up' (up j) = up (up j) := hoff _ hi
      have hne : up' j ≠ j := by rw [hat]; exact hloop
      have hnext : up' j = up' (up j) := by rw [hat, hup]
      -- the parent is skipped; if it is the end itself, the one step to it is still needed
      cases hchain with
      | stop hend =>
        refine ⟨1, Nat.succ_le_succ (Nat.zero_le n), .step hne ?_⟩
        rw [hnext, hend]
        exact .stop hend
      | @step _ m _ _ hrest => exact ⟨m + 1, Nat.le_succ_of_le hm, .step hne (hnext ▸ hrest)⟩
    · refine ⟨m + 1, Nat.succ_le_succ hm, .step ?_ ?_⟩
      · rw [hoff j hji]
        exact hj
      · rw [hoff j hji]
        exact hchain

/-- Hanging the end `i` below the end `p` makes the chains that ended in `i` longer by one. -/
theorem EndsAfter.hang {p : Nat} (h : EndsAfter up j n r) (hi : up i = i) (hp : up p = p)
    (hne : i ≠ p) (hat : up' i = p) (hoff : ∀ k, k ≠ i → up' k = up k) :
    EndsAfter up' j (if r = i then n + 1 else n) (if r = i then p else r) := by
  induction h with
  | @stop r hr =>
    by_cases e : r = i
    · subst e
      rw [if_pos rfl, if_pos rfl]
      refine .step (by rw [hat]; exact hne.symm) ?_
      rw [hat]
      exact .stop (by rw [hoff p hne.symm, hp])
    · rw [if_neg e, if_neg e]
      exact .stop (by rw [hoff r e, hr])
  | @step j n r hj _ ih =>
    have hji : j ≠ i := fun e => hj (e ▸ hi)
    rw [show (if r = i then n + 1 + 1 else n + 1) = (if r = i then n + 1 else n) + 1 by
      split <;> rfl]
    exact .step (by rw [hoff j hji]; exact hj) (by rw [hoff j hji]; exact ih)

end Chains

variable {α : Type} [Ord α]

theorem exists_endsAt (d : DisjointSets α) (i : Nat) : ∃ r, EndsAt d.parent i r := by
  -- the sizes rise along a chain and never exceed their sum
  induction hn : total d.sizes - d.sizeOf i using Nat.strongRecOn generalizing i with
  | _ n ih =>
    by_cases h : d.parent i = i
    · exact ⟨i, .stop h⟩
    · have hrise : d.sizeOf i < d.sizeOf (d.parent i) := d.rises i h
      have hle : d.sizeOf (d.parent i) ≤ total d.sizes := getD_le_total _ _
      obtain ⟨r, hr⟩ := ih _ (by omega) (d.parent i) rfl
      exact ⟨r, .step h hr⟩

theorem exists_endsAfter (d : DisjointSets α) (i : Nat) : ∃ n r, EndsAfter d.parent i n r := by
  obtain ⟨r, hr⟩ := d.exists_endsAt i
  obtain ⟨n, hn⟩ := hr.endsAfter
  exact ⟨n, r, hn⟩

theorem grandparent_ne (d : DisjointSets α) {i : Nat} (h : d.parent i ≠ i) :
    d.parent (d.parent i) ≠ i := by
  intro e
  have := d.sizeOf_lt_grandparent h
  rw [e] at this
  exact Nat.lt_irrefl _ this

/-- **Lookups flatten a forest**: the sizes stay, every chain keeps its end, and none is longer. -/
structure Flattens (d d' : DisjointSets α) : Prop where
  sizes : d'.sizes = d.sizes
  chain : ∀ i n r, EndsAfter d.parent i n r → ∃ m, m ≤ n ∧ EndsAfter d'.parent i m r

theorem Flattens.refl (d : DisjointSets α) : Flattens d d :=
  ⟨rfl, fun _ n _ h => ⟨n, Nat.le_refl n, h⟩⟩

theorem Flattens.trans {d d₁ d₂ : DisjointSets α} (h : Flattens d d₁) (h' : Flattens d₁ d₂) :
    Flattens d d₂ := by
  refine ⟨h'.sizes.trans h.sizes, fun i n r hn => ?_⟩
  obtain ⟨m, hm, hchain⟩ := h.chain i n r hn
  obtain ⟨k, hk, hchain'⟩ := h'.chain i m r hchain
  exact ⟨k, Nat.le_trans hk hm, hchain'⟩

theorem Flattens.endsAt {d d' : DisjointSets α} (h : Flattens d d') {i r : Nat}
    (hr : EndsAt d.parent i r) : EndsAt d'.parent i r := by
  obtain ⟨n, hn⟩ := hr.endsAfter
  obtain ⟨m, _, hm⟩ := h.chain i n r hn
  exact hm.endsAt

theorem flattens_redirect (d : DisjointSets α) {i : Nat} (h : d.parent i ≠ i) (hi hp hs) :
    Flattens d (d.redirect i (d.parent (d.parent i)) hi hp hs) := by
  refine ⟨rfl, fun j n r hn => hn.shortcut h (d.grandparent_ne h) ?_ fun k hk => ?_⟩
  · rw [redirect_parent, if_pos rfl]
  · rw [redirect_parent, if_neg hk]

theorem flattens_root (d : DisjointSets α) (i : Nat) : Flattens d (d.root i).2 := by
  fun_induction root d i with
  | case1 d => exact .refl d
  | case2 d i hne hi ih => exact (d.flattens_redirect hne _ _ _).trans ih

/-- **A walk up answers with the end of the chain.** -/
theorem endsAt_root (d : DisjointSets α) (i : Nat) : EndsAt d.parent i (d.root i).1 := by
  fun_induction root d i with
  | case1 d i h => exact .stop h
  | case2 d i h hi ih =>
    obtain ⟨r, hr⟩ := d.exists_endsAt i
    have hr' := (d.flattens_redirect h hi (d.parent_lt (d.parent_lt hi))
      (d.sizeOf_lt_grandparent h)).endsAt hr
    cases hr' with
    | stop hend => rw [redirect_parent, if_pos rfl] at hend; exact absurd hend (d.grandparent_ne h)
    | step _ hrest =>
      rw [redirect_parent, if_pos rfl] at hrest
      rw [← hrest.unique ih]
      exact hr

theorem root_eq_iff {d : DisjointSets α} {i r : Nat} : (d.root i).1 = r ↔ EndsAt d.parent i r :=
  ⟨fun h => h ▸ d.endsAt_root i, fun h => (d.endsAt_root i).unique h⟩

theorem root_eq_self {d : DisjointSets α} {r : Nat} : (d.root r).1 = r ↔ d.parent r = r :=
  root_eq_iff.trans ⟨EndsAt.up_eq, .stop⟩

section Flat

variable {d d' : DisjointSets α}

theorem Flattens.size (h : Flattens d d') : d'.size = d.size := by
  have hsizes : d'.sizes.size = d.sizes.size := congrArg Array.size h.sizes
  rwa [d'.sizes_size, d.sizes_size] at hsizes

theorem Flattens.sizeOf (h : Flattens d d') (i : Nat) : d'.sizeOf i = d.sizeOf i := by
  rw [DisjointSets.sizeOf, h.sizes, DisjointSets.sizeOf]

theorem Flattens.root_fst (h : Flattens d d') (i : Nat) : (d'.root i).1 = (d.root i).1 :=
  root_eq_iff.mpr (h.endsAt (d.endsAt_root i))

end Flat

/-! ## 2. Classes -/

/-- The slot that stands for the class of an element. -/
def rep (d : DisjointSets α) (a : α) : Option Nat := (d.slots[a]?).map fun i => (d.root i).1

/-- Two elements are there and in one class. -/
def Same (d : DisjointSets α) (a b : α) : Prop := ∃ r, d.rep a = some r ∧ d.rep b = some r

theorem rep_eq_some {d : DisjointSets α} {a : α} {r : Nat} :
    d.rep a = some r ↔ ∃ i, d.slots[a]? = some i ∧ EndsAt d.parent i r := by
  simp [rep, root_eq_iff]

theorem rep_lt {d : DisjointSets α} {a : α} {r : Nat} (h : d.rep a = some r) : r < d.size := by
  obtain ⟨i, hi, hr⟩ := rep_eq_some.mp h
  rw [← root_eq_iff.mpr hr]
  exact d.root_lt (d.slots_lt a i hi)

theorem rep_congr {d d' : DisjointSets α} {a : α} (hs : d'.slots[a]? = d.slots[a]?)
    (hp : ∀ i r, EndsAt d.parent i r → EndsAt d'.parent i r) : d'.rep a = d.rep a := by
  unfold rep
  rw [hs]
  cases d.slots[a]? with
  | none => rfl
  | some i => exact congrArg some (root_eq_iff.mpr (hp i _ (d.endsAt_root i)))

theorem Same.symm {d : DisjointSets α} {a b : α} (h : d.Same a b) : d.Same b a := by
  obtain ⟨r, ha, hb⟩ := h
  exact ⟨r, hb, ha⟩

theorem Same.trans {d : DisjointSets α} {a b c : α} (h : d.Same a b) (h' : d.Same b c) :
    d.Same a c := by
  obtain ⟨r, ha, hb⟩ := h
  obtain ⟨r', hb', hc⟩ := h'
  cases hb.symm.trans hb'
  exact ⟨r, ha, hc⟩

theorem rep_isSome [Std.TransOrd α] {d : DisjointSets α} {a : α} :
    (∃ r, d.rep a = some r) ↔ a ∈ d.slots := by
  rw [Std.TreeMap.mem_iff_isSome_getElem?, Option.isSome_iff_exists]
  unfold rep
  cases d.slots[a]? <;> simp

theorem Same.mem [Std.TransOrd α] {d : DisjointSets α} {a b : α} (h : d.Same a b) :
    a ∈ d.slots ∧ b ∈ d.slots := by
  obtain ⟨r, ha, hb⟩ := h
  exact ⟨rep_isSome.mp ⟨r, ha⟩, rep_isSome.mp ⟨r, hb⟩⟩

theorem same_self [Std.TransOrd α] {d : DisjointSets α} {a : α} (h : a ∈ d.slots) :
    d.Same a a := by
  obtain ⟨r, hr⟩ := rep_isSome.mpr h
  exact ⟨r, hr, hr⟩

/-! ## 3. Reading -/

theorem find_fst (d : DisjointSets α) (a : α) : (d.find a).1 = d.rep a := by
  unfold find rep
  cases d.slots[a]? <;> rfl

theorem find_slots (d : DisjointSets α) (a : α) : (d.find a).2.slots = d.slots := by
  unfold find
  split
  · rfl
  · exact d.root_slots _

theorem flattens_find (d : DisjointSets α) (a : α) : Flattens d (d.find a).2 := by
  unfold find
  split
  · exact .refl d
  · exact d.flattens_root _

/-- Looking an element up moves no class. -/
theorem rep_find (d : DisjointSets α) (a b : α) : (d.find a).2.rep b = d.rep b :=
  rep_congr (by rw [find_slots]) fun _ _ => (d.flattens_find a).endsAt

/-- The forest after two elements are looked up. -/
def seek (d : DisjointSets α) (a b : α) : DisjointSets α := ((d.find a).2.find b).2

theorem flattens_seek (d : DisjointSets α) (a b : α) : Flattens d (d.seek a b) :=
  (d.flattens_find a).trans ((d.find a).2.flattens_find b)

@[simp] theorem rep_seek (d : DisjointSets α) (a b c : α) : (d.seek a b).rep c = d.rep c := by
  rw [seek, rep_find, rep_find]

@[simp] theorem seek_slots (d : DisjointSets α) (a b : α) : (d.seek a b).slots = d.slots := by
  rw [seek, find_slots, find_slots]

@[simp] theorem seek_size (d : DisjointSets α) (a b : α) : (d.seek a b).size = d.size := by
  rw [seek, find_size, find_size]

theorem seek_root_left {d : DisjointSets α} {a b : α} {i : Nat} (h : d.rep a = some i) :
    (d.seek a b).parent i = i :=
  find_keeps_root _ _ (find_root _ (by rw [find_fst, h]))

theorem seek_root_right {d : DisjointSets α} {a b : α} {j : Nat} (h : d.rep b = some j) :
    (d.seek a b).parent j = j :=
  find_root _ (by rw [find_fst, rep_find, h])

theorem connected_fst {d : DisjointSets α} {a b : α} :
    (d.connected a b).1 = true ↔ d.Same a b := by
  unfold connected Same
  simp only [find_fst, rep_find]
  cases d.rep a with
  | none => simp
  | some i =>
    cases d.rep b with
    | none => simp
    | some j => simpa using eq_comm

theorem connected_snd (d : DisjointSets α) (a b : α) : (d.connected a b).2 = d.seek a b := by
  unfold connected
  dsimp only
  split <;> rfl

theorem rep_connected (d : DisjointSets α) (a b c : α) : (d.connected a b).2.rep c = d.rep c := by
  rw [connected_snd, rep_seek]

theorem same_connected {d : DisjointSets α} {a b x y : α} :
    (d.connected a b).2.Same x y ↔ d.Same x y := by
  unfold Same
  simp only [rep_connected]

/-! ## 4. Changing -/

theorem hang_parent {d : DisjointSets α} {i p : Nat} {hi hp hroot h} (j : Nat) :
    (d.hang i p hi hp hroot h).parent j = if j = i then p else d.parent j :=
  getD_set hi

/-- Hanging one slot below another makes the chains that ended in the one longer by one. -/
theorem hang_endsAfter {d : DisjointSets α} {i p : Nat} {hi hp hroot h} (hri : d.parent i = i)
    (hne : i ≠ p) {j n r : Nat} (hn : EndsAfter d.parent j n r) :
    EndsAfter (d.hang i p hi hp hroot h).parent j (if r = i then n + 1 else n)
      (if r = i then p else r) := by
  refine hn.hang hri hroot hne ?_ fun k hk => ?_
  · rw [hang_parent, if_pos rfl]
  · rw [hang_parent, if_neg hk]

theorem hang_root_fst {d : DisjointSets α} {i p : Nat} {hi hp hroot h} (hri : d.parent i = i)
    (hne : i ≠ p) (j : Nat) :
    ((d.hang i p hi hp hroot h).root j).1 = if (d.root j).1 = i then p else (d.root j).1 := by
  obtain ⟨n, hn⟩ := (d.endsAt_root j).endsAfter
  exact root_eq_iff.mpr (hang_endsAfter hri hne hn).endsAt

/-- Hanging one slot below another moves the class of the one to the other. -/
theorem rep_hang {d : DisjointSets α} {i p : Nat} {hi hp hroot h} (hri : d.parent i = i)
    (hne : i ≠ p) (c : α) :
    (d.hang i p hi hp hroot h).rep c = (d.rep c).map fun r => if r = i then p else r := by
  unfold rep
  rw [show (d.hang i p hi hp hroot h).slots = d.slots from rfl]
  cases d.slots[c]? with
  | none => rfl
  | some j => exact congrArg some (hang_root_fst hri hne j)

theorem map_move_self (o : Option Nat) (i : Nat) : (o.map fun r => if r = i then i else r) = o := by
  cases o with
  | none => rfl
  | some r =>
    by_cases h : r = i
    · simp [h]
    · simp [h]

/-- **What a union can do**, after it has looked both elements up: nothing, if one is absent or both
are in one class, and else hang the class that is not the larger below the other. -/
theorem union_cases (d : DisjointSets α) (a b : α) :
    ((d.rep a = none ∨ d.rep b = none) ∧ d.union a b = (false, d.seek a b)) ∨
    (∃ i, d.rep a = some i ∧ d.rep b = some i ∧ d.union a b = (true, d.seek a b)) ∨
    ∃ i j k l, d.rep a = some i ∧ d.rep b = some j ∧ i ≠ j ∧
      (k = i ∧ l = j ∧ ¬ (d.seek a b).sizeOf j < (d.seek a b).sizeOf i ∨
        k = j ∧ l = i ∧ (d.seek a b).sizeOf j < (d.seek a b).sizeOf i) ∧
      (d.seek a b).parent k = k ∧
      ∃ hk hl hroot h, d.union a b = (true, (d.seek a b).hang k l hk hl hroot h) := by
  have hfst : (d.find a).1 = d.rep a := d.find_fst a
  have hsnd : ((d.find a).2.find b).1 = d.rep b := by rw [find_fst, rep_find]
  unfold union
  split
  next ra d₁ hfa =>
  split
  next rb d₂ hfb =>
  have h₁ : d₁ = (d.find a).2 := by rw [hfa]
  subst h₁
  have h₂ : d₂ = d.seek a b := by rw [seek, hfb]
  subst h₂
  rw [hfa] at hfst
  rw [hfb] at hsnd
  cases ra with
  | none => exact Or.inl ⟨Or.inl hfst.symm, rfl⟩
  | some i =>
    cases rb with
    | none => exact Or.inl ⟨Or.inr hsnd.symm, rfl⟩
    | some j =>
      have hi : i < (d.seek a b).size := by rw [seek_size]; exact rep_lt hfst.symm
      have hj : j < (d.seek a b).size := by rw [seek_size]; exact rep_lt hsnd.symm
      have hri : (d.seek a b).parent i = i := seek_root_left hfst.symm
      have hrj : (d.seek a b).parent j = j := seek_root_right hsnd.symm
      dsimp only
      split
      · next e => exact Or.inr (Or.inl ⟨i, hfst.symm, e ▸ hsnd.symm, rfl⟩)
      · next e =>
        refine Or.inr (Or.inr ?_)
        split
        · next hlt =>
          exact ⟨i, j, j, i, hfst.symm, hsnd.symm, e, Or.inr ⟨rfl, rfl, hlt⟩, hrj, hj, hi, hri,
            Nat.le_of_lt hlt, rfl⟩
        · next hle =>
          exact ⟨i, j, i, j, hfst.symm, hsnd.symm, e, Or.inl ⟨rfl, rfl, hle⟩, hri, hi, hj, hrj,
            Nat.le_of_not_lt hle, rfl⟩

/-- A union hangs one of the two slots below the other. -/
theorem rep_union {d : DisjointSets α} {a b : α} {i j : Nat} (ha : d.rep a = some i)
    (hb : d.rep b = some j) :
    ∃ k l, (k = i ∧ l = j ∨ k = j ∧ l = i) ∧
      ∀ c, (d.union a b).2.rep c = (d.rep c).map fun r => if r = k then l else r := by
  rcases d.union_cases a b with ⟨h, _⟩ | ⟨i', hi, hj, h⟩ |
    ⟨i', j', k, l, hi, hj, hne, hkl, hroot, _, _, _, _, h⟩
  · simp [ha, hb] at h
  · cases ha.symm.trans hi
    cases hb.symm.trans hj
    exact ⟨i, i, Or.inl ⟨rfl, rfl⟩, fun c => by rw [h, map_move_self, rep_seek]⟩
  · cases ha.symm.trans hi
    cases hb.symm.trans hj
    refine ⟨k, l, hkl.imp (fun h => ⟨h.1, h.2.1⟩) (fun h => ⟨h.1, h.2.1⟩), fun c => ?_⟩
    have hkl' : k ≠ l := by rcases hkl with ⟨rfl, rfl, _⟩ | ⟨rfl, rfl, _⟩ <;> omega
    rw [h, rep_hang hroot hkl', rep_seek]

/-- A union of elements that are not both there moves no class. -/
theorem rep_union_of_not_mem [Std.TransOrd α] {d : DisjointSets α} {a b : α}
    (h : ¬ (a ∈ d.slots ∧ b ∈ d.slots)) (c : α) : (d.union a b).2.rep c = d.rep c := by
  rcases d.union_cases a b with ⟨_, h'⟩ | ⟨i, ha, hb, _⟩ | ⟨i, j, _, _, ha, hb, _⟩
  · rw [h', rep_seek]
  · exact absurd ⟨rep_isSome.mp ⟨i, ha⟩, rep_isSome.mp ⟨i, hb⟩⟩ h
  · exact absurd ⟨rep_isSome.mp ⟨i, ha⟩, rep_isSome.mp ⟨j, hb⟩⟩ h

theorem union_fst [Std.TransOrd α] {d : DisjointSets α} {a b : α} :
    (d.union a b).1 = true ↔ a ∈ d.slots ∧ b ∈ d.slots := by
  rw [← rep_isSome, ← rep_isSome]
  rcases d.union_cases a b with ⟨hnone, h⟩ | ⟨i, ha, hb, h⟩ |
    ⟨i, j, _, _, ha, hb, _, _, _, _, _, _, _, h⟩
  · rcases hnone with hnone | hnone <;> simp [h, hnone]
  · simp [h, ha, hb]
  · simp [h, ha, hb]

theorem union_slots (d : DisjointSets α) (a b : α) : (d.union a b).2.slots = d.slots := by
  rcases d.union_cases a b with ⟨_, h⟩ | ⟨_, _, _, h⟩ | ⟨_, _, _, _, _, _, _, _, _, _, _, _, _, h⟩
  · rw [h, seek_slots]
  · rw [h, seek_slots]
  · rw [h]
    exact d.seek_slots a b

theorem union_size (d : DisjointSets α) (a b : α) : (d.union a b).2.size = d.size := by
  rcases d.union_cases a b with ⟨_, h⟩ | ⟨_, _, _, h⟩ | ⟨_, _, _, _, _, _, _, _, _, _, _, _, _, h⟩
  · rw [h, seek_size]
  · rw [h, seek_size]
  · rw [h, ← d.seek_size a b]
    exact Array.size_setIfInBounds

theorem insert_of_mem [Std.TransOrd α] {d : DisjointSets α} {a : α} (h : a ∈ d.slots) :
    d.insert a = d :=
  if_pos h

theorem insert_slots [Std.TransOrd α] {d : DisjointSets α} {a : α} (h : a ∉ d.slots) :
    (d.insert a).slots = d.slots.insert a d.size := by
  rw [insert, if_neg (show ¬ d.slots.contains a = true from h), size]

theorem insert_size [Std.TransOrd α] {d : DisjointSets α} {a : α} (h : a ∉ d.slots) :
    (d.insert a).size = d.size + 1 := by
  rw [insert, if_neg (show ¬ d.slots.contains a = true from h)]
  exact Array.size_push _

theorem insert_parent [Std.TransOrd α] (d : DisjointSets α) (a : α) (i : Nat) :
    (d.insert a).parent i = d.parent i := by
  unfold insert
  split
  · rfl
  · -- a new slot is its own parent, which is what a slot without one is already
    show (d.parents.push d.parents.size).getD i i = d.parents.getD i i
    rw [getD_push]
    split
    · next e => rw [e, getD_of_size_le (Nat.le_refl _)]
    · rfl

theorem parent_insert [Std.TransOrd α] (d : DisjointSets α) (a : α) :
    (d.insert a).parent = d.parent :=
  funext (d.insert_parent a)

theorem rep_insert_self [Std.TransOrd α] {d : DisjointSets α} {a : α} (ha : a ∉ d.slots) :
    (d.insert a).rep a = some d.size := by
  refine rep_eq_some.mpr ⟨d.size, ?_, .stop ?_⟩
  · rw [insert_slots ha]
    exact Std.TreeMap.getElem?_insert_self
  · rw [insert_parent]
    exact d.parent_of_size_le (Nat.le_refl _)

/-- **A union merges two classes**, and no other class changes. -/
theorem same_union [Std.TransOrd α] {d : DisjointSets α} {a b x y : α} (ha : a ∈ d.slots)
    (hb : b ∈ d.slots) :
    (d.union a b).2.Same x y ↔
      d.Same x y ∨ (d.Same x a ∧ d.Same b y) ∨ (d.Same x b ∧ d.Same a y) := by
  obtain ⟨i, hi⟩ := rep_isSome.mpr ha
  obtain ⟨j, hj⟩ := rep_isSome.mpr hb
  obtain ⟨k, l, hkl, hrep⟩ := rep_union hi hj
  unfold Same
  rw [hrep x, hrep y, hi, hj]
  cases d.rep x with
  | none => simp
  | some rx =>
    cases d.rep y with
    | none => simp
    | some ry =>
      have hmove : (if rx = k then l else rx) = (if ry = k then l else ry) ↔
          rx = ry ∨ (rx = i ∧ j = ry) ∨ (rx = j ∧ i = ry) := by
        split <;> split <;> omega
      simp only [Option.map_some, Option.some.injEq, exists_eq_left']
      rw [eq_comm, hmove]
      omega

section Changes

variable [Std.TransOrd α] [Std.LawfulEqOrd α]

theorem mem_slots_insert {d : DisjointSets α} {a b : α} :
    b ∈ (d.insert a).slots ↔ b ∈ d.slots ∨ b = a := by
  unfold insert
  split
  · next h => exact ⟨Or.inl, fun hb => hb.elim id fun e => e ▸ h⟩
  · rw [Std.TreeMap.mem_insert, Std.LawfulEqCmp.compare_eq_iff_eq]
    exact ⟨fun hb => hb.elim (fun e => Or.inr e.symm) Or.inl,
      fun hb => hb.elim Or.inr fun e => Or.inl e.symm⟩

theorem rep_insert_of_mem {d : DisjointSets α} (a : α) {b : α} (hb : b ∈ d.slots) :
    (d.insert a).rep b = d.rep b := by
  refine rep_congr ?_ fun i r h => by rwa [parent_insert]
  unfold insert
  split
  · rfl
  · next h =>
    have hne : a ≠ b := fun e => h (by rw [e]; exact hb)
    rw [Std.TreeMap.getElem?_insert, if_neg (by rwa [Std.LawfulEqCmp.compare_eq_iff_eq])]

/-- The slot of a new element is none of the old ones. -/
theorem not_same_insert {d : DisjointSets α} {a b : α} (hb : b ∈ d.slots) (ha : a ∉ d.slots) :
    ¬ (d.insert a).Same b a := by
  intro h
  obtain ⟨r, hr, hra⟩ := h
  rw [rep_insert_of_mem a hb] at hr
  rw [rep_insert_self ha] at hra
  cases hra
  exact Nat.lt_irrefl _ (rep_lt hr)

/-- **A new element is in a class of its own**, and no other class changes. -/
theorem same_insert {d : DisjointSets α} {a x y : α} :
    (d.insert a).Same x y ↔ d.Same x y ∨ (x = a ∧ y = a) := by
  have hself : (d.insert a).Same a a := same_self (mem_slots_insert.mpr (Or.inr rfl))
  by_cases ha : a ∈ d.slots
  · rw [insert_of_mem ha]
    refine ⟨Or.inl, fun h => h.elim id fun hxy => ?_⟩
    rw [hxy.1, hxy.2]
    exact same_self ha
  have hapart : ∀ b ∈ d.slots, ¬ (d.insert a).Same b a := fun b hb => not_same_insert hb ha
  refine ⟨fun h => ?_, fun h' => ?_⟩
  · have hmem := h.mem
    rcases mem_slots_insert.mp hmem.1 with hx | rfl
    · rcases mem_slots_insert.mp hmem.2 with hy | rfl
      · obtain ⟨r, hrx, hry⟩ := h
        rw [rep_insert_of_mem a hx] at hrx
        rw [rep_insert_of_mem a hy] at hry
        exact Or.inl ⟨r, hrx, hry⟩
      · exact absurd h (hapart x hx)
    · rcases mem_slots_insert.mp hmem.2 with hy | rfl
      · exact absurd h.symm (hapart y hy)
      · exact Or.inr ⟨rfl, rfl⟩
  · rcases h' with ⟨r, hx, hy⟩ | ⟨rfl, rfl⟩
    · have hmem := Same.mem ⟨r, hx, hy⟩
      exact ⟨r, by rw [rep_insert_of_mem _ hmem.1, hx], by rw [rep_insert_of_mem _ hmem.2, hy]⟩
    · exact hself

end Changes

/-! ## 5. The classes that pairs generate -/

section Generated

variable [Std.TransOrd α]

/-- **The forest holds the classes that the pairs `R` generate**: two elements that are there are
in one class exactly if the smallest equivalence with these pairs relates them. -/
structure Partitions (d : DisjointSets α) (R : α → α → Prop) : Prop where
  mem : ∀ x y, R x y → x ∈ d.slots ∧ y ∈ d.slots
  same : ∀ x y, d.Same x y ↔ x ∈ d.slots ∧ Relation.EqvGen R x y

omit [Std.TransOrd α] in
theorem Partitions.congr {d : DisjointSets α} {R R' : α → α → Prop} (h : d.Partitions R)
    (e : ∀ x y, R x y ↔ R' x y) : d.Partitions R' := by
  have hR : R = R' := funext fun x => funext fun y => propext (e x y)
  exact hR ▸ h

omit [Ord α] [Std.TransOrd α] in
/-- What pairs generate, apart from a thing with itself, lies in every symmetric and transitive
relation that has the pairs. -/
theorem eq_or_of_eqvGen {R T : α → α → Prop} {x y : α} (hxy : Relation.EqvGen R x y)
    (hR : ∀ x y, R x y → T x y) (hsymm : ∀ x y, T x y → T y x)
    (htrans : ∀ x y z, T x y → T y z → T x z) : x = y ∨ T x y := by
  induction hxy with
  | rel x y hxy => exact Or.inr (hR x y hxy)
  | refl x => exact Or.inl rfl
  | symm x y _ ih => exact ih.imp Eq.symm (hsymm x y)
  | trans x y z _ _ ih ih' =>
    rcases ih with rfl | hxy
    · exact ih'
    · rcases ih' with rfl | hyz
      · exact Or.inr hxy
      · exact Or.inr (htrans x y z hxy hyz)

omit [Std.TransOrd α] in
/-- Generated pairs are pairs of elements, or of a thing with itself. -/
theorem Partitions.eq_or_mem {d : DisjointSets α} {R : α → α → Prop} (h : d.Partitions R) {x y : α}
    (hxy : Relation.EqvGen R x y) : x = y ∨ (x ∈ d.slots ∧ y ∈ d.slots) :=
  eq_or_of_eqvGen hxy h.mem (fun _ _ => And.symm) fun _ _ _ hx hy => ⟨hx.1, hy.2⟩

theorem partitions_empty (R : α → α → Prop) (hR : ∀ x y, ¬ R x y) :
    (empty : DisjointSets α).Partitions R where
  mem x y h := absurd h (hR x y)
  same x y := by
    have hx : x ∉ (empty : DisjointSets α).slots := Std.TreeMap.not_mem_emptyc
    exact ⟨fun h => absurd h.mem.1 hx, fun h => absurd h.1 hx⟩

theorem Partitions.insert [Std.LawfulEqOrd α] {d : DisjointSets α} {R : α → α → Prop}
    (h : d.Partitions R) (a : α) : (d.insert a).Partitions R where
  mem x y hxy :=
    ⟨mem_slots_insert.mpr (Or.inl (h.mem x y hxy).1),
      mem_slots_insert.mpr (Or.inl (h.mem x y hxy).2)⟩
  same x y := by
    rw [same_insert, h.same, mem_slots_insert]
    refine ⟨fun h' => ?_, fun h' => ?_⟩
    · rcases h' with ⟨hx, hxy⟩ | ⟨rfl, rfl⟩
      · exact ⟨Or.inl hx, hxy⟩
      · exact ⟨Or.inr rfl, .refl _⟩
    · obtain ⟨hx, hxy⟩ := h'
      rcases hx with hx | rfl
      · exact Or.inl ⟨hx, hxy⟩
      · rcases h.eq_or_mem hxy with rfl | ⟨hx, _⟩
        · exact Or.inr ⟨rfl, rfl⟩
        · exact Or.inl ⟨hx, hxy⟩

theorem Partitions.union {d : DisjointSets α} {R : α → α → Prop} (h : d.Partitions R) {a b : α}
    (ha : a ∈ d.slots) (hb : b ∈ d.slots) :
    (d.union a b).2.Partitions fun x y => R x y ∨ (x = a ∧ y = b) where
  mem x y hxy := by
    rw [union_slots]
    rcases hxy with hxy | ⟨rfl, rfl⟩
    · exact h.mem x y hxy
    · exact ⟨ha, hb⟩
  same x y := by
    have hold : ∀ {x y}, Relation.EqvGen R x y →
        Relation.EqvGen (fun x y => R x y ∨ (x = a ∧ y = b)) x y :=
      fun hxy => hxy.mono fun _ _ => Or.inl
    have hab : Relation.EqvGen (fun x y => R x y ∨ (x = a ∧ y = b)) a b :=
      .rel a b (Or.inr ⟨rfl, rfl⟩)
    rw [union_slots]
    refine ⟨fun hxy => ?_, fun hyp => ?_⟩
    · refine ⟨(union_slots d a b ▸ hxy.mem).1, ?_⟩
      rcases (same_union ha hb).mp hxy with hxy | ⟨hxa, hby⟩ | ⟨hxb, hay⟩
      · exact hold ((h.same x y).mp hxy).2
      · exact (hold ((h.same x a).mp hxa).2).trans _ _ _
          (hab.trans _ _ _ (hold ((h.same b y).mp hby).2))
      · exact (hold ((h.same x b).mp hxb).2).trans _ _ _
          ((hab.symm _ _).trans _ _ _ (hold ((h.same a y).mp hay).2))
    · obtain ⟨hx, hxy⟩ := hyp
      have hpair : ∀ x y, R x y ∨ (x = a ∧ y = b) → (d.union a b).2.Same x y := by
        intro x y hxy
        rw [same_union ha hb]
        rcases hxy with hxy | ⟨rfl, rfl⟩
        · exact Or.inl ((h.same x y).mpr ⟨(h.mem x y hxy).1, .rel x y hxy⟩)
        · exact Or.inr (Or.inl ⟨same_self ha, same_self hb⟩)
      rcases eq_or_of_eqvGen hxy hpair (fun _ _ => Same.symm) (fun _ _ _ => Same.trans) with
        rfl | hsame
      · exact same_self (by rw [union_slots]; exact hx)
      · exact hsame

end Generated

end DisjointSets

end CellComplex
