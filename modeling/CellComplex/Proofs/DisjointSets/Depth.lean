import CellComplex.Proofs.DisjointSets.Calls
import Mathlib.Algebra.Order.BigOperators.Group.Finset
import Mathlib.Data.Nat.Log

/-!
# The depth of a forest

A union hangs a class below one of no smaller size, so a chain that gets longer by a step gets into
a class of at least twice the size; a lookup only makes chains shorter. So no chain has more steps
than the number of elements can be halved.

* `Weighed`: the sizes of a forest count what they should, and its chains are low; a lookup, an
  insertion and a union keep it (`Weighed.flattens`, `Weighed.insert`, `Weighed.union`), so every
  sequence of calls does (`Weighed.after`);
* `Weighed.sum_sizeOf`: the sizes at the ends of all chains make up the number of elements;
* `Weighed.turns`: the turns of a walk, which are no more than the logarithm of that number;
* **`shallow_after`**: the shape of the forest after any calls on the empty one (`Shallow`).
-/

namespace CellComplex

namespace DisjointSets

variable {α : Type} [Ord α]

/-! ## 1. What the sizes count -/

/-- The slots whose chains end in a slot. -/
def below (d : DisjointSets α) (r : Nat) : Finset Nat :=
  {i ∈ Finset.range d.size | (d.root i).1 = r}

theorem mem_below {d : DisjointSets α} {i r : Nat} :
    i ∈ d.below r ↔ i < d.size ∧ (d.root i).1 = r := by
  rw [below, Finset.mem_filter, Finset.mem_range]

/-- **The sizes count what they should**: the size at the end of a chain is the number of slots
whose chains end there, and these can be halved as often as such a chain has steps. -/
structure Weighed (d : DisjointSets α) : Prop where
  counts : ∀ r, r < d.size → d.parent r = r → d.sizeOf r = (d.below r).card
  low : ∀ i n r, i < d.size → EndsAfter d.parent i n r → 2 ^ n ≤ d.sizeOf r

theorem Weighed.flattens {d d' : DisjointSets α} (h : Weighed d) (hd : Flattens d d') :
    Weighed d' where
  counts r hr hend := by
    have hbelow : d'.below r = d.below r := by
      ext i
      rw [mem_below, mem_below, hd.size, hd.root_fst]
    rw [hd.sizeOf, hbelow]
    refine h.counts r (hd.size ▸ hr) ?_
    rw [← root_eq_self, ← hd.root_fst, root_eq_self]
    exact hend
  low i n r hi hn := by
    obtain ⟨m, s, hm⟩ := d.exists_endsAfter i
    obtain ⟨n', hle, hn'⟩ := hd.chain i m s hm
    obtain ⟨rfl, rfl⟩ := hn.unique hn'
    calc 2 ^ n ≤ 2 ^ m := Nat.pow_le_pow_right (by omega) hle
      _ ≤ d.sizeOf r := h.low i m r (hd.size ▸ hi) hm
      _ = d'.sizeOf r := (hd.sizeOf r).symm

/-! ### A new element -/

section Insert

variable [Std.TransOrd α] {d : DisjointSets α} {a : α}

theorem insert_sizeOf (ha : a ∉ d.slots) (i : Nat) :
    (d.insert a).sizeOf i = if i = d.size then 1 else d.sizeOf i := by
  rw [insert, if_neg (show ¬ d.slots.contains a = true from ha), sizeOf, sizeOf, getD_push,
    d.sizes_size, size]

theorem insert_root_fst (d : DisjointSets α) (a : α) (i : Nat) :
    ((d.insert a).root i).1 = (d.root i).1 := by
  rw [root_eq_iff, parent_insert]
  exact d.endsAt_root i

theorem below_insert_self (ha : a ∉ d.slots) : (d.insert a).below d.size = {d.size} := by
  ext i
  rw [mem_below, insert_size ha, insert_root_fst, Finset.mem_singleton]
  refine ⟨fun h => ?_, fun h => ?_⟩
  · -- an old slot ends in an old one
    rcases Nat.lt_succ_iff_lt_or_eq.mp h.1 with hi | hi
    · exact absurd h.2 (Nat.ne_of_lt (d.root_lt hi))
    · exact hi
  · subst h
    exact ⟨Nat.lt_succ_self _, root_eq_self.mpr (d.parent_of_size_le (Nat.le_refl _))⟩

theorem below_insert (ha : a ∉ d.slots) {r : Nat} (hr : r < d.size) :
    (d.insert a).below r = d.below r := by
  ext i
  rw [mem_below, mem_below, insert_size ha, insert_root_fst]
  refine and_congr_left fun h => ⟨fun hi => ?_, Nat.lt_succ_of_lt⟩
  refine Nat.lt_of_le_of_ne (Nat.lt_succ_iff.mp hi) fun e => ?_
  subst e
  rw [root_eq_self.mpr (d.parent_of_size_le (Nat.le_refl _))] at h
  exact Nat.ne_of_gt hr h

theorem Weighed.insert (h : Weighed d) (a : α) : Weighed (d.insert a) := by
  by_cases ha : a ∈ d.slots
  · rw [insert_of_mem ha]
    exact h
  refine ⟨fun r hr hend => ?_, fun i n r hi hn => ?_⟩
  · rw [insert_sizeOf ha]
    rw [insert_size ha] at hr
    rw [insert_parent] at hend
    rcases Nat.lt_succ_iff_lt_or_eq.mp hr with hr | rfl
    · rw [if_neg (Nat.ne_of_lt hr), below_insert ha hr]
      exact h.counts r hr hend
    · rw [if_pos rfl, below_insert_self ha, Finset.card_singleton]
  · rw [insert_sizeOf ha]
    rw [insert_size ha] at hi
    rw [parent_insert] at hn
    rcases Nat.lt_succ_iff_lt_or_eq.mp hi with hi | rfl
    · have hr : r < d.size := root_eq_iff.mpr hn.endsAt ▸ d.root_lt hi
      rw [if_neg (Nat.ne_of_lt hr)]
      exact h.low i n r hi hn
    · obtain ⟨rfl, rfl⟩ := hn.unique (.stop (d.parent_of_size_le (Nat.le_refl _)))
      rw [if_pos rfl, Nat.pow_zero]

end Insert

/-! ### One slot hung below another -/

section Hang

variable {d : DisjointSets α} {i p : Nat} {hi : i < d.size} {hp : p < d.size}
  {hroot : d.parent p = p} {hle : d.sizeOf i ≤ d.sizeOf p}

theorem hang_sizeOf (j : Nat) :
    (d.hang i p hi hp hroot hle).sizeOf j =
      if j = p then d.sizeOf p + d.sizeOf i else d.sizeOf j := by
  have hp' : p < d.sizes.size := by rw [d.sizes_size]; exact hp
  exact getD_set hp'

theorem hang_size : (d.hang i p hi hp hroot hle).size = d.size :=
  Array.size_setIfInBounds

theorem below_hang_self (hri : d.parent i = i) (hne : i ≠ p) :
    (d.hang i p hi hp hroot hle).below p = d.below p ∪ d.below i := by
  ext j
  rw [Finset.mem_union, mem_below, mem_below, mem_below, hang_size, hang_root_fst hri hne]
  split <;> simp [*]

theorem below_hang (hri : d.parent i = i) (hne : i ≠ p) {r : Nat} (hr : r ≠ i) (hrp : r ≠ p) :
    (d.hang i p hi hp hroot hle).below r = d.below r := by
  ext j
  rw [mem_below, mem_below, hang_size, hang_root_fst hri hne]
  split
  · next e => simp [e, hr.symm, hrp.symm]
  · rfl

theorem disjoint_below (d : DisjointSets α) {r s : Nat} (h : r ≠ s) :
    Disjoint (d.below r) (d.below s) := by
  rw [Finset.disjoint_left]
  intro j hr hs
  exact h ((mem_below.mp hr).2.symm.trans (mem_below.mp hs).2)

theorem Weighed.hang (h : Weighed d) (hri : d.parent i = i) (hne : i ≠ p) :
    Weighed (d.hang i p hi hp hroot hle) where
  counts r hr hend := by
    rw [hang_parent] at hend
    rw [hang_size] at hr
    have hr' : r ≠ i := fun e => by
      rw [if_pos e, e] at hend
      exact hne hend.symm
    rw [if_neg hr'] at hend
    rw [hang_sizeOf]
    by_cases hrp : r = p
    · subst hrp
      rw [if_pos rfl, below_hang_self hri hne,
        Finset.card_union_of_disjoint (d.disjoint_below hne.symm), h.counts r hr hend,
        h.counts i hi hri]
    · rw [if_neg hrp, below_hang hri hne hr' hrp]
      exact h.counts r hr hend
  low j n r hj hn := by
    rw [hang_size] at hj
    obtain ⟨m, s, hm⟩ := d.exists_endsAfter j
    have hlow := h.low j m s hj hm
    obtain ⟨rfl, rfl⟩ := hn.unique (hang_endsAfter hri hne hm)
    rw [hang_sizeOf]
    by_cases hsi : s = i
    · -- one step more, and a size that is doubled at least
      subst hsi
      rw [if_pos rfl, if_pos rfl, if_pos rfl]
      calc 2 ^ (m + 1) = 2 ^ m + 2 ^ m := by rw [Nat.pow_succ, Nat.mul_two]
        _ ≤ d.sizeOf p + d.sizeOf s := Nat.add_le_add (Nat.le_trans hlow hle) hlow
    · rw [if_neg hsi, if_neg hsi]
      by_cases hsp : s = p
      · subst hsp
        rw [if_pos rfl]
        exact Nat.le_add_right_of_le hlow
      · rw [if_neg hsp]
        exact hlow

end Hang

theorem Weighed.union {d : DisjointSets α} (h : Weighed d) (a b : α) :
    Weighed (d.union a b).2 := by
  have hseek : Weighed (d.seek a b) := h.flattens (d.flattens_seek a b)
  rcases d.union_cases a b with ⟨_, e⟩ | ⟨_, _, _, e⟩ |
    ⟨i, j, k, l, _, _, hne, hkl, hk, hk', hl', hl, hle, e⟩
  · rw [e]
    exact hseek
  · rw [e]
    exact hseek
  · have hne' : k ≠ l := by rcases hkl with ⟨rfl, rfl, _⟩ | ⟨rfl, rfl, _⟩ <;> omega
    rw [e]
    show Weighed ((d.seek a b).hang k l hk' hl' hl hle)
    exact hseek.hang hk hne'

section Runs

variable [Std.TransOrd α]

theorem weighed_empty : Weighed (empty : DisjointSets α) where
  counts r hr _ := absurd hr (Nat.not_lt_zero r)
  low i _ _ hi _ := absurd hi (Nat.not_lt_zero i)

/-- **One call** keeps what the sizes count. -/
theorem Weighed.perform {d : DisjointSets α} (h : Weighed d) (call : Call α) :
    Weighed (d.perform call).2 := by
  cases call with
  | insert a => exact h.insert a
  | union a b => exact h.union a b
  | find a => exact h.flattens (d.flattens_find a)
  | connected a b =>
    show Weighed (d.connected a b).2
    rw [connected_snd]
    exact h.flattens (d.flattens_seek a b)

/-- **Every sequence of calls** does. -/
theorem Weighed.after {d : DisjointSets α} (h : Weighed d) (calls : List (Call α)) :
    Weighed (d.after calls) := by
  induction calls generalizing d with
  | nil => exact h
  | cons call calls ih => exact ih (h.perform call)

end Runs

/-! ## 2. All sizes together -/

/-- The slots that end chains. -/
def ends (d : DisjointSets α) : Finset Nat := {r ∈ Finset.range d.size | d.parent r = r}

theorem mem_ends {d : DisjointSets α} {r : Nat} : r ∈ d.ends ↔ r < d.size ∧ d.parent r = r := by
  rw [ends, Finset.mem_filter, Finset.mem_range]

theorem root_mem_ends (d : DisjointSets α) {i : Nat} (hi : i < d.size) : (d.root i).1 ∈ d.ends :=
  mem_ends.mpr ⟨d.root_lt hi, (d.endsAt_root i).up_eq⟩

theorem Weighed.sum_sizeOf {d : DisjointSets α} (h : Weighed d) :
    ∑ r ∈ d.ends, d.sizeOf r = d.size := by
  have hends : Set.MapsTo (fun i => (d.root i).1) (Finset.range d.size) d.ends :=
    fun i hi => d.root_mem_ends (by simpa using hi)
  calc ∑ r ∈ d.ends, d.sizeOf r = ∑ r ∈ d.ends, (d.below r).card :=
        Finset.sum_congr rfl fun r hr => h.counts r (mem_ends.mp hr).1 (mem_ends.mp hr).2
    _ = (Finset.range d.size).card := (Finset.card_eq_sum_card_fiberwise hends).symm
    _ = d.size := Finset.card_range d.size

theorem Weighed.sizeOf_le {d : DisjointSets α} (h : Weighed d) {r : Nat} (hr : r ∈ d.ends) :
    d.sizeOf r ≤ d.size :=
  h.sum_sizeOf ▸ Finset.single_le_sum (fun _ _ => Nat.zero_le _) hr

/-- What a union writes is no more than the number of elements. -/
theorem Weighed.sizeOf_add_le {d : DisjointSets α} (h : Weighed d) {r s : Nat} (hr : r ∈ d.ends)
    (hs : s ∈ d.ends) (hne : r ≠ s) : d.sizeOf r + d.sizeOf s ≤ d.size :=
  h.sum_sizeOf ▸ Finset.add_le_sum (fun _ _ => Nat.zero_le _) hr hs hne

theorem Weighed.length_le_log {d : DisjointSets α} (h : Weighed d) {i n r : Nat} (hi : i < d.size)
    (hn : EndsAfter d.parent i n r) : n ≤ Nat.log 2 d.size := by
  have hr : r ∈ d.ends := root_eq_iff.mpr hn.endsAt ▸ d.root_mem_ends hi
  exact Nat.le_log_of_pow_le (by omega) (Nat.le_trans (h.low i n r hi hn) (h.sizeOf_le hr))

/-- There is one number of turns, and at most the logarithm of the number of elements. -/
theorem Weighed.turns {d : DisjointSets α} (h : Weighed d) {i : Nat} (hi : i < d.size) :
    ∃ n, n ≤ Nat.log 2 d.size ∧ ∀ m r parents, ClimbsIn d.parents i m r parents ↔
      m = n ∧ r = (d.root i).1 ∧ parents = (d.root i).2.parents := by
  obtain ⟨n, s, hn⟩ := d.exists_endsAfter i
  have hwalk := d.climbsIn_root hi hn
  have hlog : n ≤ Nat.log 2 d.size := h.length_le_log hi hn
  refine ⟨(n + 1) / 2, by omega, fun m r parents => ⟨fun hm => ?_, ?_⟩⟩
  · exact hm.unique hwalk
  · rintro ⟨rfl, rfl, rfl⟩
    exact hwalk

/-! ## 3. The shape of a forest -/

section Shape

variable [Std.TransOrd α]

/-- The elements whose chains end in a slot. -/
def members (d : DisjointSets α) (r : Nat) : List α :=
  d.slots.keys.filter fun a => d.rep a == some r

variable {calls : List (Call α)} {d : DisjointSets α}

/-- Every slot is the slot of one element. -/
theorem Holds.slots_perm [Std.LawfulEqOrd α] (h : Holds calls d) :
    (List.range d.size).Perm (d.slots.toList.map Prod.snd) := by
  have hsub : List.range d.size ⊆ d.slots.toList.map Prod.snd := fun i hi => by
    obtain ⟨a, ha⟩ := h.named i (List.mem_range.mp hi)
    exact List.mem_map.mpr ⟨(a, i), Std.TreeMap.mem_toList_iff_getElem?_eq_some.mpr ha, rfl⟩
  refine (List.subperm_of_subset List.nodup_range hsub).perm_of_length_le ?_
  rw [List.length_map, Std.TreeMap.length_toList, h.count, List.length_range]

theorem Holds.length_members [Std.LawfulEqOrd α] (h : Holds calls d) (r : Nat) :
    (d.members r).length = (d.below r).card := by
  have hslot : ∀ e ∈ d.slots.toList, d.rep e.1 = some (d.root e.2).1 := fun e he => by
    rw [rep, Std.TreeMap.mem_toList_iff_getElem?_eq_some.mp he, Option.map_some]
  calc (d.members r).length = d.slots.toList.countP fun e => d.rep e.1 == some r := by
        rw [members, ← List.countP_eq_length_filter, ← Std.TreeMap.map_fst_toList_eq_keys,
          List.countP_map]
        rfl
    _ = d.slots.toList.countP fun e => (d.root e.2).1 == r :=
        List.countP_congr fun e he => by simp [hslot e he]
    _ = (List.range d.size).countP fun i => (d.root i).1 == r := by
        rw [h.slots_perm.countP_eq, List.countP_map]
        rfl
    _ = (d.below r).card := by
        rw [List.countP_eq_length_filter, below]
        rfl

/-- The shape of a forest, told by the calls so far. -/
structure Shallow (calls : List (Call α)) (d : DisjointSets α) : Prop where
  /-- The size at the end of a chain is the number of elements whose chains end there. -/
  counts : ∀ r, r < d.size → d.parent r = r → ∃ members : List α, members.Nodup ∧
    (∀ a, a ∈ members ↔ .insert a ∈ calls ∧ ∃ i, d.slots[a]? = some i ∧ EndsAt d.parent i r) ∧
    d.sizeOf r = members.length
  sum : ∑ r ∈ d.ends, d.sizeOf r = d.size
  /-- So the sum that a union writes never exceeds the number of elements. -/
  fits : ∀ r ∈ d.ends, ∀ s ∈ d.ends, r ≠ s → d.sizeOf r + d.sizeOf s ≤ d.size
  /-- The chain of every element ends, and its class can be halved once for each step. -/
  low : ∀ a, .insert a ∈ calls → ∃ i n r, d.slots[a]? = some i ∧ EndsAfter d.parent i n r ∧
    2 ^ n ≤ d.sizeOf r
  /-- The walk from a slot takes one number of turns, at most the logarithm of the number of
  elements. -/
  turns : ∀ i, i < d.size → ∃ n, n ≤ Nat.log 2 d.size ∧ ∀ m r parents,
    ClimbsIn d.parents i m r parents ↔
      m = n ∧ r = (d.root i).1 ∧ parents = (d.root i).2.parents

theorem Holds.shallow [Std.LawfulEqOrd α] (h : Holds calls d) (hd : Weighed d) :
    Shallow calls d where
  counts r hr hend := by
    refine ⟨d.members r, d.slots.nodup_keys.filter _, fun a => ?_, ?_⟩
    · rw [members, List.mem_filter, Std.TreeMap.mem_keys, h.mem, beq_iff_eq, rep_eq_some]
    · rw [hd.counts r hr hend, h.length_members]
  sum := hd.sum_sizeOf
  fits r hr s hs hne := hd.sizeOf_add_le hr hs hne
  low a ha := by
    obtain ⟨r, hr⟩ := rep_isSome.mpr ((h.mem a).mpr ha)
    obtain ⟨i, hi, hend⟩ := rep_eq_some.mp hr
    obtain ⟨n, hn⟩ := hend.endsAfter
    exact ⟨i, n, r, hi, hn, hd.low i n r (d.slots_lt a i hi) hn⟩
  turns i hi := hd.turns hi

/-- **The shape of the forest after any calls on the empty one.** -/
theorem shallow_after [Std.LawfulEqOrd α] (calls : List (Call α)) :
    Shallow calls ((empty : DisjointSets α).after calls) :=
  (holds_nil.after calls).shallow (weighed_empty.after calls)

end Shape

/-- Four numbers are merged in pairs, and then the pairs. -/
def pairing : List (Call Nat) :=
  [.insert 0, .insert 1, .insert 2, .insert 3, .union 0 1, .union 2 3, .union 1 3]

/-- A chain of two steps over four elements: no bound can be lower. -/
theorem shallow_after_pairing :
    let d := (empty : DisjointSets Nat).after pairing
    Shallow pairing d ∧ EndsAfter d.parent 0 2 3 ∧ d.sizeOf 3 = 2 ^ 2 := by
  intro d
  have h₀ : d.parent 0 = 1 := by decide +kernel
  have h₁ : d.parent 1 = 3 := by decide +kernel
  have h₃ : d.parent 3 = 3 := by decide +kernel
  refine ⟨shallow_after pairing, ?_, by decide +kernel⟩
  refine .step (by rw [h₀]; decide) ?_
  rw [h₀]
  refine .step (by rw [h₁]; decide) ?_
  rw [h₁]
  exact .stop h₃

end DisjointSets

end CellComplex
