import Std.Data.TreeMap

/-!
# Disjoint sets

A partition of elements into classes that only ever merge. Every element has a slot, numbered by
insertion, every slot a parent, and the slot at the end of a chain of parents stands for its class.

* `find` shortens the chain it walks: each slot on it is redirected to its grandparent.
* `union` hangs the smaller class below the larger, the first below the second if they are equal.
* The sizes rise strictly along every chain. That is kept in the type (`rises`), and is why a walk
  up a chain ends.
-/

namespace CellComplex

/-- A forest of slots over the elements `α`. -/
structure DisjointSets (α : Type) [Ord α] where
  slots : Std.TreeMap α Nat
  parents : Array Nat
  /-- The size of the class of every slot that stands for one. -/
  sizes : Array Nat
  sizes_size : sizes.size = parents.size
  slots_lt : ∀ (a : α) (i : Nat), slots[a]? = some i → i < parents.size
  parents_lt : ∀ i, i < parents.size → parents.getD i i < parents.size
  sizes_pos : ∀ i, i < parents.size → 0 < sizes.getD i 0
  rises : ∀ i, parents.getD i i ≠ i → sizes.getD i 0 < sizes.getD (parents.getD i i) 0

namespace DisjointSets

variable {α : Type} [Ord α]

/-- No elements. -/
def empty [Std.TransOrd α] : DisjointSets α where
  slots := ∅
  parents := #[]
  sizes := #[]
  sizes_size := rfl
  slots_lt := fun a i h => by
    rw [Std.TreeMap.getElem?_emptyc] at h
    cases h
  parents_lt := by simp
  sizes_pos := by simp
  rises := by simp

/-- The parent of a slot; a slot without one is its own. -/
def parent (d : DisjointSets α) (i : Nat) : Nat := d.parents.getD i i

/-- The recorded size of a slot. -/
def sizeOf (d : DisjointSets α) (i : Nat) : Nat := d.sizes.getD i 0

/-- The number of elements. -/
def size (d : DisjointSets α) : Nat := d.parents.size

/-! ## 1. Arrays read with a default -/

theorem getD_set {a : Array Nat} {i j v e : Nat} (h : i < a.size) :
    (a.setIfInBounds i v).getD j e = if j = i then v else a.getD j e := by
  simp only [Array.getD_eq_getD_getElem?, Array.getElem?_setIfInBounds]
  by_cases hj : i = j
  · subst hj; simp [h]
  · simp [hj, Ne.symm hj]

theorem getD_push {a : Array Nat} {j v e : Nat} :
    (a.push v).getD j e = if j = a.size then v else a.getD j e := by
  simp only [Array.getD_eq_getD_getElem?, Array.getElem?_push]
  by_cases hj : j = a.size <;> simp [hj]

theorem getD_of_size_le {a : Array Nat} {j e : Nat} (h : a.size ≤ j) : a.getD j e = e := by
  simp [Array.getD_eq_getD_getElem?, Array.getElem?_eq_none h]

/-- The sum of all entries. -/
def total (a : Array Nat) : Nat := a.toList.foldr (· + ·) 0

theorem getD_le_total (a : Array Nat) (i : Nat) : a.getD i 0 ≤ total a := by
  unfold total
  rw [Array.getD_eq_getD_getElem?, ← Array.getElem?_toList]
  generalize a.toList = l
  induction l generalizing i with
  | nil => simp
  | cons x l ih =>
    cases i with
    | zero => simp
    | succ i => simpa using Nat.le_trans (ih i) (Nat.le_add_left _ _)

theorem parent_of_size_le (d : DisjointSets α) {i : Nat} (h : d.size ≤ i) : d.parent i = i :=
  getD_of_size_le h

theorem lt_size_of_parent_ne (d : DisjointSets α) {i : Nat} (h : d.parent i ≠ i) : i < d.size :=
  Nat.lt_of_not_le fun hle => h (d.parent_of_size_le hle)

/-! ## 2. Walking up -/

/-- Gives a slot a new parent of larger size. -/
def redirect (d : DisjointSets α) (i p : Nat) (hi : i < d.size) (hp : p < d.size)
    (h : d.sizeOf i < d.sizeOf p) : DisjointSets α where
  slots := d.slots
  parents := d.parents.setIfInBounds i p
  sizes := d.sizes
  sizes_size := by simpa using d.sizes_size
  slots_lt a j hj := by simpa using d.slots_lt a j hj
  parents_lt j hj := by
    simp only [Array.size_setIfInBounds] at hj ⊢
    rw [getD_set hi]
    by_cases e : j = i
    · rw [if_pos e]; exact hp
    · rw [if_neg e]; exact d.parents_lt j hj
  sizes_pos j hj := d.sizes_pos j (by simpa using hj)
  rises j hj := by
    rw [getD_set hi] at hj ⊢
    by_cases e : j = i
    · rw [if_pos e, e]; exact h
    · rw [if_neg e] at hj ⊢; exact d.rises j hj

@[simp] theorem redirect_size (d : DisjointSets α) (i p : Nat) (hi hp h) :
    (d.redirect i p hi hp h).size = d.size := by
  simp [redirect, size]

theorem parent_lt (d : DisjointSets α) {i : Nat} (h : i < d.size) : d.parent i < d.size :=
  d.parents_lt i h

theorem sizeOf_lt_grandparent (d : DisjointSets α) {i : Nat} (h : d.parent i ≠ i) :
    d.sizeOf i < d.sizeOf (d.parent (d.parent i)) := by
  have h₁ : d.sizeOf i < d.sizeOf (d.parent i) := d.rises i h
  by_cases h₂ : d.parent (d.parent i) = d.parent i
  · rw [h₂]; exact h₁
  · exact Nat.lt_trans h₁ (d.rises _ h₂)

/-- The slot at the end of a chain of parents, and the forest with every slot on the way redirected
to its grandparent. -/
def root (d : DisjointSets α) (i : Nat) : Nat × DisjointSets α :=
  if h : d.parent i = i then (i, d)
  else
    let hi := d.lt_size_of_parent_ne h
    (d.redirect i (d.parent (d.parent i)) hi (d.parent_lt (d.parent_lt hi))
      (d.sizeOf_lt_grandparent h)).root (d.parent (d.parent i))
termination_by total d.sizes - d.sizeOf i
decreasing_by
  have h₁ := d.sizeOf_lt_grandparent h
  have h₂ : d.sizeOf (d.parent (d.parent i)) ≤ total d.sizes := getD_le_total _ _
  simp only [redirect, sizeOf] at *
  omega

theorem root_size (d : DisjointSets α) (i : Nat) : (d.root i).2.size = d.size := by
  fun_induction root d i with
  | case1 => rfl
  | case2 d i h hi ih => simpa using ih

theorem root_lt (d : DisjointSets α) {i : Nat} (hi : i < d.size) : (d.root i).1 < d.size := by
  fun_induction root d i with
  | case1 => exact hi
  | case2 d i h hi' ih => simpa using ih (by simpa using d.parent_lt (d.parent_lt hi'))

theorem redirect_parent (d : DisjointSets α) (i p : Nat) (hi hp h) (j : Nat) :
    (d.redirect i p hi hp h).parent j = if j = i then p else d.parent j :=
  getD_set hi

theorem root_keeps_root (d : DisjointSets α) (i : Nat) {j : Nat} (hj : d.parent j = j) :
    (d.root i).2.parent j = j := by
  fun_induction root d i with
  | case1 => exact hj
  | case2 d i h hi ih =>
    refine ih ?_
    have hne : j ≠ i := fun e => h (by rw [← e]; exact hj)
    rw [redirect_parent, if_neg hne]
    exact hj

theorem parent_root (d : DisjointSets α) (i : Nat) :
    (d.root i).2.parent (d.root i).1 = (d.root i).1 := by
  fun_induction root d i with
  | case1 d i h => exact h
  | case2 d i h hi ih => exact ih

theorem root_slots (d : DisjointSets α) (i : Nat) : (d.root i).2.slots = d.slots := by
  fun_induction root d i with
  | case1 => rfl
  | case2 d i h hi ih => exact ih

/-! ## 3. Elements -/

/-- Adds an element in a class of its own; an element that is there already stays where it is. -/
def insert [Std.TransOrd α] (d : DisjointSets α) (a : α) : DisjointSets α :=
  if d.slots.contains a then d
  else
    { slots := d.slots.insert a d.parents.size
      parents := d.parents.push d.parents.size
      sizes := d.sizes.push 1
      sizes_size := by simp [d.sizes_size]
      slots_lt := fun b i hi => by
        rw [Std.TreeMap.getElem?_insert] at hi
        rw [Array.size_push]
        split at hi
        · have : d.parents.size = i := by simpa using hi
          omega
        · have := d.slots_lt b i hi
          omega
      parents_lt := fun i hi => by
        rw [Array.size_push] at hi ⊢
        rw [getD_push]
        by_cases e : i = d.parents.size
        · rw [if_pos e]; omega
        · have := d.parents_lt i (by omega)
          rw [if_neg e]; omega
      sizes_pos := fun i hi => by
        rw [Array.size_push] at hi
        rw [getD_push, d.sizes_size]
        by_cases e : i = d.parents.size
        · rw [if_pos e]; omega
        · rw [if_neg e]; exact d.sizes_pos i (by omega)
      rises := fun i hi => by
        rw [getD_push] at hi
        have hne : i ≠ d.parents.size := fun e => by simp [e] at hi
        simp only [hne, if_false] at hi
        have hlt : i < d.parents.size := d.lt_size_of_parent_ne hi
        have hp := d.parents_lt i hlt
        have := d.rises i hi
        rw [getD_push, getD_push, getD_push, d.sizes_size, if_neg hne, if_neg hne,
          if_neg (Nat.ne_of_lt hp)]
        exact this }

/-- The elements of a list, each in a class of its own. -/
def ofList [Std.TransOrd α] (as : List α) : DisjointSets α := as.foldl insert empty

/-- The slot that stands for the class of an element. -/
def find (d : DisjointSets α) (a : α) : Option Nat × DisjointSets α :=
  match d.slots[a]? with
  | none => (none, d)
  | some i => let r := d.root i; (some r.1, r.2)

theorem find_size (d : DisjointSets α) (a : α) : (d.find a).2.size = d.size := by
  unfold find
  split
  · rfl
  · exact d.root_size _

theorem find_lt (d : DisjointSets α) {a : α} {i : Nat} (h : (d.find a).1 = some i) :
    i < d.size := by
  unfold find at h
  split at h
  · cases h
  · next j hj =>
    cases h
    exact d.root_lt (d.slots_lt a j hj)

/-- Hangs a slot below another one of no smaller size that stands for its class. -/
def hang (d : DisjointSets α) (i p : Nat) (hi : i < d.size) (hp : p < d.size)
    (hroot : d.parent p = p) (h : d.sizeOf i ≤ d.sizeOf p) : DisjointSets α where
  slots := d.slots
  parents := d.parents.setIfInBounds i p
  sizes := d.sizes.setIfInBounds p (d.sizeOf p + d.sizeOf i)
  sizes_size := by simpa using d.sizes_size
  slots_lt a j hj := by simpa using d.slots_lt a j hj
  parents_lt j hj := by
    simp only [Array.size_setIfInBounds] at hj ⊢
    rw [getD_set hi]
    by_cases e : j = i
    · rw [if_pos e]; exact hp
    · rw [if_neg e]; exact d.parents_lt j hj
  sizes_pos j hj := by
    rw [getD_set (by rw [d.sizes_size]; exact hp)]
    by_cases e : j = p
    · rw [if_pos e]; exact Nat.lt_of_lt_of_le (d.sizes_pos p hp) (Nat.le_add_right _ _)
    · rw [if_neg e]; exact d.sizes_pos j (by simpa using hj)
  rises j hj := by
    have hpos : 0 < d.sizeOf p := d.sizes_pos p hp
    have hps : p < d.sizes.size := by rw [d.sizes_size]; exact hp
    rw [getD_set hi] at hj ⊢
    simp only [getD_set hps]
    by_cases hji : j = i
    · subst hji
      simp only [if_true] at hj ⊢
      rw [if_neg (Ne.symm hj)]
      show d.sizeOf j < _
      omega
    · simp only [if_neg hji] at hj ⊢
      have hjp : j ≠ p := fun e => hj (by rw [e]; exact hroot)
      have hrise : d.sizeOf j < d.sizeOf (d.parent j) := d.rises j hj
      rw [if_neg hjp]
      change d.sizeOf j < if d.parent j = p then _ else d.sizeOf (d.parent j)
      split
      · next e => rw [e] at hrise; omega
      · exact hrise

theorem find_root (d : DisjointSets α) {a : α} {i : Nat} (h : (d.find a).1 = some i) :
    (d.find a).2.parent i = i := by
  unfold find at h ⊢
  split at h
  · cases h
  · next j hj =>
    cases h
    exact d.parent_root j

theorem find_keeps_root (d : DisjointSets α) (a : α) {i : Nat} (h : d.parent i = i) :
    (d.find a).2.parent i = i := by
  unfold find
  split
  · exact h
  · exact d.root_keeps_root _ h

/-- Merges the classes of two elements, if both are there. -/
def union (d : DisjointSets α) (a b : α) : Bool × DisjointSets α :=
  match hfa : d.find a with
  | (ra, d₁) =>
    match hfb : d₁.find b with
    | (rb, d₂) =>
      match ra, rb with
      | some i, some j =>
        have h₁ : d₁ = (d.find a).2 := by rw [hfa]
        have h₂ : d₂ = (d₁.find b).2 := by rw [hfb]
        have hi : i < d₂.size := by
          rw [h₂, find_size, h₁, find_size]
          exact d.find_lt (by rw [hfa])
        have hj : j < d₂.size := by
          rw [h₂, find_size]
          exact d₁.find_lt (by rw [hfb])
        have hri : d₂.parent i = i := by
          rw [h₂]
          exact find_keeps_root _ _ (by rw [h₁]; exact find_root _ (by rw [hfa]))
        have hrj : d₂.parent j = j := by
          rw [h₂]
          exact find_root _ (by rw [hfb])
        if i = j then (true, d₂)
        else if h : d₂.sizeOf j < d₂.sizeOf i then
          (true, d₂.hang j i hj hi hri (Nat.le_of_lt h))
        else (true, d₂.hang i j hi hj hrj (Nat.le_of_not_lt h))
      | _, _ => (false, d₂)

/-- Whether two elements are there and in one class. -/
def connected (d : DisjointSets α) (a b : α) : Bool × DisjointSets α :=
  let fa := d.find a
  let fb := fa.2.find b
  match fa.1, fb.1 with
  | some i, some j => (i == j, fb.2)
  | _, _ => (false, fb.2)

end DisjointSets

end CellComplex
