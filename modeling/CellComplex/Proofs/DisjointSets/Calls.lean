import CellComplex.Proofs.DisjointSets.Classes

/-!
# Calls on a forest

A forest is used by calls in any order: elements are inserted and merged, and looked up in between,
which rewrites the parents each time. What the calls have done so far fixes every answer.

* `Climbs`, `Finds`, `Executes`: the calls as they run on the bare arrays, every read checked and
  the walk taken turn by turn; **`executes_perform`**: a forest performs every call so, which is
  that no read misses its array and no walk goes on forever;
* `ClimbsIn`: the walk with its turns counted; it takes one turn for two steps of the chain
  (`climbsIn_root`), since every turn ends at the grandparent;
* `Joined`: the pairs that were merged while both were there;
* `Holds`: what a forest keeps of the calls so far -- its elements, its classes, and one element
  for each slot; one call keeps it (`Holds.perform`), so every sequence does (`Holds.after`);
* **`answers_after`**: the answers after any sequence of calls on the empty forest (`Answers`).
-/

namespace CellComplex

namespace DisjointSets

/-- A call on a forest. -/
inductive Call (α : Type) where
  | insert (a : α)
  | union (a b : α)
  | find (a : α)
  | connected (a b : α)

/-- What a call answers. -/
inductive Answer where
  | nothing
  | truth (b : Bool)
  | slot (r : Option Nat)

/-- A call that only looks elements up. -/
inductive Call.Reads {α : Type} : Call α → Prop where
  | find (a : α) : Reads (.find a)
  | connected (a b : α) : Reads (.connected a b)

variable {α : Type} [Ord α]

section Runs

variable [Std.TransOrd α]

/-- One call: its answer, and the forest it leaves. -/
def perform (d : DisjointSets α) : Call α → Answer × DisjointSets α
  | .insert a => (.nothing, d.insert a)
  | .union a b => (.truth (d.union a b).1, (d.union a b).2)
  | .find a => (.slot (d.find a).1, (d.find a).2)
  | .connected a b => (.truth (d.connected a b).1, (d.connected a b).2)

/-- The forest that calls leave, one after the other. -/
def after (d : DisjointSets α) (calls : List (Call α)) : DisjointSets α :=
  calls.foldl (fun d call => (d.perform call).2) d

end Runs

/-! ## 1. The calls on bare arrays -/

/-- The fields of a forest, with nothing known of them. -/
structure Arrays (α : Type) [Ord α] where
  slots : Std.TreeMap α Nat
  parents : Array Nat
  sizes : Array Nat

/-- The fields of a forest. -/
def arrays (d : DisjointSets α) : Arrays α := ⟨d.slots, d.parents, d.sizes⟩

/-- The walk up from a slot, turn by turn and with every read checked: the slot in which it ends and
the parents it leaves. A walk that misses the array, or goes on forever, has no derivation. -/
inductive Climbs : Array Nat → Nat → Nat → Array Nat → Prop where
  | stop {parents : Array Nat} {i : Nat} (h : parents[i]? = some i) : Climbs parents i i parents
  | turn {parents parents' : Array Nat} {i p g r : Nat} (hp : parents[i]? = some p) (hne : p ≠ i)
      (hg : parents[p]? = some g) (rest : Climbs (parents.setIfInBounds i g) g r parents') :
      Climbs parents i r parents'

/-- The walk up from a slot with its turns counted. -/
inductive ClimbsIn : Array Nat → Nat → Nat → Nat → Array Nat → Prop where
  | stop {parents : Array Nat} {i : Nat} (h : parents[i]? = some i) : ClimbsIn parents i 0 i parents
  | turn {parents parents' : Array Nat} {i p g n r : Nat} (hp : parents[i]? = some p) (hne : p ≠ i)
      (hg : parents[p]? = some g) (rest : ClimbsIn (parents.setIfInBounds i g) g n r parents') :
      ClimbsIn parents i (n + 1) r parents'

/-- A lookup on the bare arrays. -/
inductive Finds : Arrays α → α → Option Nat → Arrays α → Prop where
  | absent {t : Arrays α} {a : α} (h : t.slots[a]? = none) : Finds t a none t
  | present {t : Arrays α} {a : α} {i r : Nat} {parents : Array Nat} (h : t.slots[a]? = some i)
      (walk : Climbs t.parents i r parents) : Finds t a (some r) { t with parents := parents }

/-- **A call on the bare arrays**, with every read checked. A union looks both elements up before it
fails, and hangs the first slot below the second unless the second has the smaller size. -/
inductive Executes : Arrays α → Call α → Answer → Arrays α → Prop where
  | keep {t : Arrays α} {a : α} (h : a ∈ t.slots) : Executes t (.insert a) .nothing t
  | add {t : Arrays α} {a : α} (h : a ∉ t.slots) :
      Executes t (.insert a) .nothing
        ⟨t.slots.insert a t.parents.size, t.parents.push t.parents.size, t.sizes.push 1⟩
  | find {t t' : Arrays α} {a : α} {o : Option Nat} (h : Finds t a o t') :
      Executes t (.find a) (.slot o) t'
  | compare {t t₁ t₂ : Arrays α} {a b : α} {o o' : Option Nat} (ha : Finds t a o t₁)
      (hb : Finds t₁ b o' t₂) : Executes t (.connected a b) (.truth (o.isSome && o == o')) t₂
  | miss {t t₁ t₂ : Arrays α} {a b : α} {o o' : Option Nat} (ha : Finds t a o t₁)
      (hb : Finds t₁ b o' t₂) (h : o = none ∨ o' = none) :
      Executes t (.union a b) (.truth false) t₂
  | agree {t t₁ t₂ : Arrays α} {a b : α} {i : Nat} (ha : Finds t a (some i) t₁)
      (hb : Finds t₁ b (some i) t₂) : Executes t (.union a b) (.truth true) t₂
  | hang {t t₁ t₂ : Arrays α} {a b : α} {i j m n : Nat} (ha : Finds t a (some i) t₁)
      (hb : Finds t₁ b (some j) t₂) (hne : i ≠ j) (hm : t₂.sizes[i]? = some m)
      (hn : t₂.sizes[j]? = some n) (hle : ¬ n < m) (hi : i < t₂.parents.size) :
      Executes t (.union a b) (.truth true)
        ⟨t₂.slots, t₂.parents.setIfInBounds i j, t₂.sizes.setIfInBounds j (n + m)⟩
  | swap {t t₁ t₂ : Arrays α} {a b : α} {i j m n : Nat} (ha : Finds t a (some i) t₁)
      (hb : Finds t₁ b (some j) t₂) (hne : i ≠ j) (hm : t₂.sizes[i]? = some m)
      (hn : t₂.sizes[j]? = some n) (hlt : n < m) (hj : j < t₂.parents.size) :
      Executes t (.union a b) (.truth true)
        ⟨t₂.slots, t₂.parents.setIfInBounds j i, t₂.sizes.setIfInBounds i (m + n)⟩

theorem parents_getElem? (d : DisjointSets α) {i : Nat} (h : i < d.size) :
    d.parents[i]? = some (d.parent i) := by
  rw [parent, Array.getD_eq_getD_getElem?, Array.getElem?_eq_getElem h, Option.getD_some]

theorem sizes_getElem? (d : DisjointSets α) {i : Nat} (h : i < d.size) :
    d.sizes[i]? = some (d.sizeOf i) := by
  have h' : i < d.sizes.size := by rw [d.sizes_size]; exact h
  rw [sizeOf, Array.getD_eq_getD_getElem?, Array.getElem?_eq_getElem h', Option.getD_some]

theorem ClimbsIn.climbs {parents parents' : Array Nat} {i n r : Nat}
    (h : ClimbsIn parents i n r parents') : Climbs parents i r parents' := by
  induction h with
  | stop h => exact .stop h
  | turn hp hne hg _ ih => exact .turn hp hne hg ih

theorem Climbs.climbsIn {parents parents' : Array Nat} {i r : Nat}
    (h : Climbs parents i r parents') : ∃ n, ClimbsIn parents i n r parents' := by
  induction h with
  | stop h => exact ⟨0, .stop h⟩
  | turn hp hne hg _ ih =>
    obtain ⟨n, hn⟩ := ih
    exact ⟨n + 1, .turn hp hne hg hn⟩

/-- Redirecting a slot leaves the chains above it alone. -/
theorem EndsAfter.redirect {d : DisjointSets α} {i p j n r : Nat} {hi hp hs}
    (h : EndsAfter d.parent j n r) (hlt : d.sizeOf i < d.sizeOf j) :
    EndsAfter (d.redirect i p hi hp hs).parent j n r := by
  induction h with
  | @stop r hr =>
    have hne : r ≠ i := fun e => Nat.lt_irrefl _ (e ▸ hlt)
    exact .stop (by rw [redirect_parent, if_neg hne, hr])
  | @step j n r hj _ ih =>
    have hne : j ≠ i := fun e => Nat.lt_irrefl _ (e ▸ hlt)
    have hrise : d.sizeOf j < d.sizeOf (d.parent j) := d.rises j hj
    have hup : (d.redirect i p hi hp hs).parent j = d.parent j := by
      rw [redirect_parent, if_neg hne]
    exact .step (by rw [hup]; exact hj) (by rw [hup]; exact ih (Nat.lt_trans hlt hrise))

/-- **The walk takes one turn for two steps of the chain**, and one for a last single step. -/
theorem climbsIn_root (d : DisjointSets α) {i n r : Nat} (hi : i < d.size)
    (h : EndsAfter d.parent i n r) :
    ClimbsIn d.parents i ((n + 1) / 2) (d.root i).1 (d.root i).2.parents := by
  fun_induction root d i generalizing n with
  | case1 d i hend =>
    obtain ⟨rfl, rfl⟩ := h.unique (.stop hend)
    exact .stop (by rw [d.parents_getElem? hi, hend])
  | case2 d i hne hi' ih =>
    have hp : d.parent i < d.size := d.parent_lt hi
    have hg : d.parent (d.parent i) < d.size := d.parent_lt hp
    have hturn : ∀ m, EndsAfter d.parent (d.parent (d.parent i)) m r →
        ClimbsIn d.parents i ((m + 1) / 2 + 1) _ _ := fun m hm =>
      .turn (d.parents_getElem? hi) hne (d.parents_getElem? hp)
        (ih (by simpa using hg) (hm.redirect (d.sizeOf_lt_grandparent hne)))
    cases h with
    | stop hend => exact absurd hend hne
    | @step _ n _ _ hrest =>
      cases hrest with
      | stop hend => exact hturn 0 (by rw [hend]; exact .stop hend)
      | @step _ n _ _ hrest =>
        rw [show (n + 1 + 1 + 1) / 2 = (n + 1) / 2 + 1 by omega]
        exact hturn n hrest

/-- The walk of a forest takes every turn inside the array, and ends. -/
theorem climbs_root (d : DisjointSets α) {i : Nat} (hi : i < d.size) :
    Climbs d.parents i (d.root i).1 (d.root i).2.parents := by
  obtain ⟨n, r, hn⟩ := d.exists_endsAfter i
  exact (d.climbsIn_root hi hn).climbs

theorem finds_find (d : DisjointSets α) (a : α) :
    Finds d.arrays a (d.find a).1 (d.find a).2.arrays := by
  unfold find
  split
  · next h => exact .absent h
  · next i h =>
    have harr : (d.root i).2.arrays = { d.arrays with parents := (d.root i).2.parents } := by
      rw [arrays, root_slots, (d.flattens_root i).sizes, arrays]
    dsimp only
    rw [harr]
    exact .present h (d.climbs_root (d.slots_lt a i h))

/-- **A forest performs every call on its arrays with no read out of range**, and every walk ends. -/
theorem executes_perform [Std.TransOrd α] (d : DisjointSets α) (call : Call α) :
    Executes d.arrays call (d.perform call).1 (d.perform call).2.arrays := by
  cases call with
  | insert a =>
    show Executes d.arrays (.insert a) .nothing (d.insert a).arrays
    by_cases ha : a ∈ d.slots
    · rw [insert_of_mem ha]
      exact .keep ha
    · unfold insert
      rw [if_neg (show ¬ d.slots.contains a = true from ha)]
      exact .add ha
  | find a => exact .find (d.finds_find a)
  | connected a b =>
    have hfst : (d.connected a b).1 =
        ((d.find a).1.isSome && (d.find a).1 == ((d.find a).2.find b).1) := by
      unfold connected
      dsimp only
      cases (d.find a).1 <;> cases ((d.find a).2.find b).1 <;> simp
    show Executes d.arrays (.connected a b) (.truth (d.connected a b).1) (d.connected a b).2.arrays
    rw [hfst, connected_snd]
    exact .compare (d.finds_find a) ((d.find a).2.finds_find b)
  | union a b =>
    have ha : Finds d.arrays a (d.rep a) (d.find a).2.arrays := d.find_fst a ▸ d.finds_find a
    have hb : Finds (d.find a).2.arrays b (d.rep b) (d.seek a b).arrays := by
      rw [← rep_find d a b, ← find_fst]
      exact (d.find a).2.finds_find b
    show Executes d.arrays (.union a b) (.truth (d.union a b).1) (d.union a b).2.arrays
    rcases d.union_cases a b with ⟨hnone, h⟩ | ⟨i, hi, hj, h⟩ |
      ⟨i, j, k, l, hi, hj, hne, hkl, -, hk, hl, hroot, hle, h⟩
    · rw [h]
      exact .miss ha hb hnone
    · rw [h]
      rw [hi] at ha
      rw [hj] at hb
      exact .agree ha hb
    · rw [h]
      rw [hi] at ha
      rw [hj] at hb
      rcases hkl with ⟨rfl, rfl, hsize⟩ | ⟨rfl, rfl, hsize⟩
      · exact .hang ha hb hne (sizes_getElem? _ hk) (sizes_getElem? _ hl) hsize hk
      · exact .swap ha hb hne (sizes_getElem? _ hl) (sizes_getElem? _ hk) hsize hk

/-- There is one walk from a slot. -/
theorem ClimbsIn.unique {parents ps ps' : Array Nat} {i n n' r r' : Nat}
    (h : ClimbsIn parents i n r ps) (h' : ClimbsIn parents i n' r' ps') :
    n = n' ∧ r = r' ∧ ps = ps' := by
  induction h generalizing n' with
  | stop hi =>
    cases h' with
    | stop => exact ⟨rfl, rfl, rfl⟩
    | turn hp hne => exact absurd (Option.some.inj (hp.symm.trans hi)) hne
  | turn hp hne hg _ ih =>
    cases h' with
    | stop hi => exact absurd (Option.some.inj (hp.symm.trans hi)) hne
    | turn hp' _ hg' rest =>
      cases hp.symm.trans hp'
      cases hg.symm.trans hg'
      obtain ⟨rfl, rfl, rfl⟩ := ih rest
      exact ⟨rfl, rfl, rfl⟩

theorem Climbs.unique {parents ps ps' : Array Nat} {i r r' : Nat} (h : Climbs parents i r ps)
    (h' : Climbs parents i r' ps') : r = r' ∧ ps = ps' := by
  obtain ⟨n, hn⟩ := h.climbsIn
  obtain ⟨n', hn'⟩ := h'.climbsIn
  exact (hn.unique hn').2

theorem Finds.unique {t t₁ t₂ : Arrays α} {a : α} {o o' : Option Nat} (h : Finds t a o t₁)
    (h' : Finds t a o' t₂) : o = o' ∧ t₁ = t₂ := by
  cases h with
  | absent hnone =>
    cases h' with
    | absent => exact ⟨rfl, rfl⟩
    | present hi => exact nomatch hnone.symm.trans hi
  | present hi walk =>
    cases h' with
    | absent hnone => exact nomatch hnone.symm.trans hi
    | present hi' walk' =>
      cases hi.symm.trans hi'
      obtain ⟨rfl, rfl⟩ := walk.unique walk'
      exact ⟨rfl, rfl⟩

/-- A call runs in one way. -/
theorem Executes.unique [Std.TransOrd α] {t t₁ t₂ : Arrays α} {call : Call α}
    {answer answer' : Answer} (h : Executes t call answer t₁)
    (h' : Executes t call answer' t₂) : answer = answer' ∧ t₁ = t₂ := by
  cases h with
  | keep h =>
    cases h' with
    | keep => exact ⟨rfl, rfl⟩
    | add h' => exact absurd h h'
  | add h =>
    cases h' with
    | keep h' => exact absurd h' h
    | add => exact ⟨rfl, rfl⟩
  | find h =>
    cases h' with
    | find h' =>
      obtain ⟨rfl, rfl⟩ := h.unique h'
      exact ⟨rfl, rfl⟩
  | compare ha hb =>
    cases h' with
    | compare ha' hb' =>
      obtain ⟨rfl, rfl⟩ := ha.unique ha'
      obtain ⟨rfl, rfl⟩ := hb.unique hb'
      exact ⟨rfl, rfl⟩
  | miss ha hb hnone => cases h' <;> grind [Finds.unique]
  | agree ha hb => cases h' <;> grind [Finds.unique]
  | hang ha hb hne hm hn hle hi => cases h' <;> grind [Finds.unique]
  | swap ha hb hne hm hn hlt hj => cases h' <;> grind [Finds.unique]

/-- **The arrays of a forest run every call, in one way**, and leave the forest the call leaves. -/
theorem executes_iff [Std.TransOrd α] {d : DisjointSets α} {call : Call α} {answer : Answer}
    {t : Arrays α} :
    Executes d.arrays call answer t ↔
      answer = (d.perform call).1 ∧ t = (d.perform call).2.arrays :=
  ⟨fun h => h.unique (d.executes_perform call), fun ⟨h, h'⟩ => h ▸ h' ▸ d.executes_perform call⟩

/-! ## 2. What the calls have done -/

omit [Ord α] in
/-- The pair was merged by one of the calls, with both elements inserted before it. -/
def Joined (calls : List (Call α)) (x y : α) : Prop :=
  ∃ earlier later, calls = earlier ++ .union x y :: later ∧
    .insert x ∈ earlier ∧ .insert y ∈ earlier

omit [Ord α] in
theorem joined_append_singleton {calls : List (Call α)} {call : Call α} {x y : α} :
    Joined (calls ++ [call]) x y ↔
      Joined calls x y ∨ (call = .union x y ∧ .insert x ∈ calls ∧ .insert y ∈ calls) := by
  constructor
  · rintro ⟨earlier, later, h, hx, hy⟩
    rcases List.eq_nil_or_concat later with rfl | ⟨later, last, rfl⟩
    · obtain ⟨rfl, hcall⟩ := List.append_inj' h rfl
      exact Or.inr ⟨List.singleton_inj.mp hcall, hx, hy⟩
    · rw [List.concat_eq_append, ← List.cons_append, ← List.append_assoc] at h
      exact Or.inl ⟨earlier, later, (List.append_inj' h rfl).1, hx, hy⟩
  · rintro (⟨earlier, later, rfl, hx, hy⟩ | ⟨rfl, hx, hy⟩)
    · exact ⟨earlier, later ++ [call], by simp, hx, hy⟩
    · exact ⟨calls, [], rfl, hx, hy⟩

variable [Std.TransOrd α]

/-- **What a forest keeps of the calls so far**: the elements they inserted, the classes of the
pairs they merged, and one element for each slot. -/
structure Holds (calls : List (Call α)) (d : DisjointSets α) : Prop where
  mem : ∀ a, a ∈ d.slots ↔ .insert a ∈ calls
  partitions : d.Partitions (Joined calls)
  named : ∀ i, i < d.size → ∃ a : α, d.slots[a]? = some i
  count : d.slots.size = d.size

theorem holds_nil : Holds [] (empty : DisjointSets α) where
  mem a := by
    have ha : a ∉ (empty : DisjointSets α).slots := Std.TreeMap.not_mem_emptyc
    simp [ha]
  partitions := partitions_empty _ fun x y ⟨earlier, later, h, _⟩ => by
    exact absurd h.symm (List.append_ne_nil_of_right_ne_nil _ (List.cons_ne_nil _ _))
  named i hi := absurd hi (Nat.not_lt_zero i)
  count := Std.TreeMap.size_emptyc

omit [Std.TransOrd α] in
/-- A call that leaves the slots and the classes alone, and inserts and merges nothing. -/
theorem Holds.keep {calls : List (Call α)} {d d' : DisjointSets α} {call : Call α}
    (h : Holds calls d) (hslots : d'.slots = d.slots) (hsize : d'.size = d.size)
    (hrep : ∀ a, d'.rep a = d.rep a) (hinsert : ∀ a, call ≠ .insert a)
    (hunion : ∀ x y, call = .union x y → ¬ (x ∈ d.slots ∧ y ∈ d.slots)) :
    Holds (calls ++ [call]) d' where
  mem a := by simp [hslots, h.mem, (hinsert a).symm]
  partitions := by
    have hjoined : ∀ x y, Joined calls x y ↔ Joined (calls ++ [call]) x y := fun x y => by
      rw [joined_append_singleton, or_iff_left]
      rintro ⟨hcall, hx, hy⟩
      exact hunion x y hcall ⟨(h.mem x).mpr hx, (h.mem y).mpr hy⟩
    refine Partitions.congr ⟨fun x y hxy => ?_, fun x y => ?_⟩ hjoined
    · rw [hslots]
      exact h.partitions.mem x y hxy
    · rw [hslots, ← h.partitions.same]
      unfold Same
      simp only [hrep]
  named i hi := by
    rw [hslots]
    exact h.named i (hsize ▸ hi)
  count := by rw [hslots, hsize, h.count]

theorem Holds.insert [Std.LawfulEqOrd α] {calls : List (Call α)} {d : DisjointSets α}
    (h : Holds calls d) (a : α) : Holds (calls ++ [.insert a]) (d.insert a) where
  mem b := by
    rw [mem_slots_insert, h.mem]
    simp
  partitions := by
    refine (h.partitions.insert a).congr fun x y => ?_
    rw [joined_append_singleton]
    simp
  named i hi := by
    by_cases ha : a ∈ d.slots
    · rw [insert_of_mem ha] at hi ⊢
      exact h.named i hi
    rw [insert_slots ha]
    rcases Nat.lt_succ_iff_lt_or_eq.mp (insert_size ha ▸ hi) with hi | rfl
    · obtain ⟨b, hb⟩ := h.named i hi
      have hne : b ≠ a := fun e => ha (e ▸ Std.TreeMap.mem_iff_isSome_getElem?.mpr (by simp [hb]))
      exact ⟨b, by simp [Std.TreeMap.getElem?_insert, hne.symm, hb]⟩
    · exact ⟨a, Std.TreeMap.getElem?_insert_self⟩
  count := by
    by_cases ha : a ∈ d.slots
    · rw [insert_of_mem ha]
      exact h.count
    · rw [insert_slots ha, insert_size ha, Std.TreeMap.size_insert,
        if_neg (show ¬ d.slots.contains a = true from ha), h.count]

theorem Holds.union {calls : List (Call α)} {d : DisjointSets α} (h : Holds calls d) (a b : α) :
    Holds (calls ++ [.union a b]) (d.union a b).2 := by
  by_cases hab : a ∈ d.slots ∧ b ∈ d.slots
  · refine ⟨fun c => ?_, (h.partitions.union hab.1 hab.2).congr fun x y => ?_, fun i hi => ?_, ?_⟩
    · simp [union_slots, h.mem]
    · rw [joined_append_singleton, ← h.mem, ← h.mem]
      refine or_congr_right ⟨fun e => ?_, fun e => ?_⟩
      · obtain ⟨rfl, rfl⟩ := e
        exact ⟨rfl, hab⟩
      · cases e.1
        exact ⟨rfl, rfl⟩
    · rw [union_slots]
      exact h.named i (d.union_size a b ▸ hi)
    · rw [union_slots, union_size, h.count]
  · refine h.keep (d.union_slots a b) (d.union_size a b) (rep_union_of_not_mem hab)
      (fun _ e => nomatch e) fun x y e => ?_
    cases e
    exact hab

/-- **One call**: what a forest kept of the calls so far, it keeps of them and this one. -/
theorem Holds.perform [Std.LawfulEqOrd α] {calls : List (Call α)} {d : DisjointSets α}
    (h : Holds calls d) (call : Call α) : Holds (calls ++ [call]) (d.perform call).2 := by
  cases call with
  | insert a => exact h.insert a
  | union a b => exact h.union a b
  | find a =>
    exact h.keep (d.find_slots a) (d.find_size a) (d.rep_find a) (fun _ e => nomatch e)
      fun _ _ e => nomatch e
  | connected a b =>
    show Holds (calls ++ [.connected a b]) (d.connected a b).2
    rw [connected_snd]
    exact h.keep (d.seek_slots a b) (d.seek_size a b) (d.rep_seek a b) (fun _ e => nomatch e)
      fun _ _ e => nomatch e

/-- **Every sequence of calls.** -/
theorem Holds.after [Std.LawfulEqOrd α] {earlier : List (Call α)} {d : DisjointSets α}
    (h : Holds earlier d) (calls : List (Call α)) : Holds (earlier ++ calls) (d.after calls) := by
  induction calls generalizing earlier d with
  | nil => simpa [DisjointSets.after] using h
  | cons call calls ih => simpa [DisjointSets.after] using ih (h.perform call)

/-- Calls that only look elements up move no class. -/
theorem rep_after {d : DisjointSets α} {reads : List (Call α)} (h : ∀ call ∈ reads, call.Reads)
    (a : α) : (d.after reads).rep a = d.rep a := by
  induction reads generalizing d with
  | nil => rfl
  | cons call reads ih =>
    obtain ⟨hcall, hreads⟩ := List.forall_mem_cons.mp h
    refine (ih hreads).trans ?_
    cases hcall with
    | find b => exact d.rep_find b a
    | connected b c => exact d.rep_connected b c a

/-! ## 3. The answers -/

section Answers

variable {calls : List (Call α)} {d : DisjointSets α}

theorem Holds.same (h : Holds calls d) {a b : α} :
    d.Same a b ↔ (.insert a ∈ calls ∧ .insert b ∈ calls) ∧ Relation.EqvGen (Joined calls) a b := by
  rw [← h.mem, ← h.mem]
  exact ⟨fun hab => ⟨hab.mem, ((h.partitions.same a b).mp hab).2⟩,
    fun hab => (h.partitions.same a b).mpr ⟨hab.1.1, hab.2⟩⟩

omit [Std.TransOrd α] in
/-- The slot that stands for a class is the slot of one of its elements. -/
theorem Holds.exists_named (h : Holds calls d) {a : α} {r : Nat} (hr : d.rep a = some r) :
    ∃ m : α, d.Same a m ∧ d.slots[m]? = some r := by
  obtain ⟨m, hm⟩ := h.named r (rep_lt hr)
  obtain ⟨i, _, hend⟩ := rep_eq_some.mp hr
  exact ⟨m, ⟨r, hr, rep_eq_some.mpr ⟨r, hm, .stop hend.up_eq⟩⟩, hm⟩

/-- The answers of a forest, told by the calls so far. -/
structure Answers (calls : List (Call α)) (d : DisjointSets α) : Prop where
  /-- Two elements are connected exactly if both were inserted and the smallest equivalence with the
  pairs merged so far relates them. -/
  connected : ∀ a b, (d.connected a b).1 = true ↔
    (.insert a ∈ calls ∧ .insert b ∈ calls) ∧ Relation.EqvGen (Joined calls) a b
  union : ∀ a b, (d.union a b).1 = true ↔ .insert a ∈ calls ∧ .insert b ∈ calls
  absent : ∀ a, (d.find a).1 = none ↔ .insert a ∉ calls
  /-- The slot found is that of a member of the class, and every member finds it. -/
  found : ∀ a, .insert a ∈ calls → ∃ m r, d.slots[m]? = some r ∧ .insert m ∈ calls ∧
    Relation.EqvGen (Joined calls) a m ∧
    ∀ b, (d.find b).1 = some r ↔ .insert b ∈ calls ∧ Relation.EqvGen (Joined calls) a b
  /-- Lookups in between change no slot that is found. -/
  settled : ∀ reads : List (Call α), (∀ call ∈ reads, call.Reads) →
    ∀ a, ((d.after reads).find a).1 = (d.find a).1
  size : ∃ elements : List α, elements.Nodup ∧ (∀ a, a ∈ elements ↔ .insert a ∈ calls) ∧
    d.size = elements.length
  /-- The call runs on the bare arrays with every read checked, and in no other way. -/
  runs : ∀ call answer t, Executes d.arrays call answer t ↔
    answer = (d.perform call).1 ∧ t = (d.perform call).2.arrays

theorem Holds.answers [Std.LawfulEqOrd α] (h : Holds calls d) : Answers calls d where
  connected a b := by rw [connected_fst, h.same]
  union a b := by rw [union_fst, h.mem, h.mem]
  absent a := by
    rw [find_fst, ← h.mem, ← rep_isSome, Option.eq_none_iff_forall_ne_some, not_exists]
  found a ha := by
    obtain ⟨r, hr⟩ := rep_isSome.mpr ((h.mem a).mpr ha)
    obtain ⟨m, ham, hm⟩ := h.exists_named hr
    have hmember := h.same.mp ham
    refine ⟨m, r, hm, hmember.1.2, hmember.2, fun b => ?_⟩
    have hsame : (d.find b).1 = some r ↔ d.Same a b := by
      rw [find_fst]
      exact ⟨fun hb => ⟨r, hr, hb⟩, fun ⟨r', hr', hb⟩ => Option.some.inj (hr.symm.trans hr') ▸ hb⟩
    rw [hsame, h.same, and_iff_right ha]
  settled reads hreads a := by rw [find_fst, find_fst, rep_after hreads]
  size := ⟨d.slots.keys, d.slots.nodup_keys, fun a => by rw [Std.TreeMap.mem_keys, h.mem],
    by rw [Std.TreeMap.length_keys, h.count]⟩
  runs _ _ _ := executes_iff

end Answers

/-- **The answers after any calls on the empty forest.** -/
theorem answers_after [Std.LawfulEqOrd α] (calls : List (Call α)) :
    Answers calls ((empty : DisjointSets α).after calls) :=
  Holds.answers (holds_nil.after calls)

/-- Two of three numbers are merged, and one of them with a number that was not inserted. -/
def merging : List (Call Nat) :=
  [.insert 1, .insert 2, .insert 3, .union 1 2, .union 2 7, .find 3]

theorem answers_after_merging :
    let d := (empty : DisjointSets Nat).after merging
    (d.connected 2 1).1 = true ∧ (d.union 2 7).1 = false ∧ (d.find 7).1 = none ∧
      (d.find 1).1 = (d.find 2).1 := by
  intro d
  have h : Answers merging d := answers_after merging
  have hjoined : Relation.EqvGen (Joined merging) 1 2 :=
    .rel 1 2 ⟨[.insert 1, .insert 2, .insert 3], [.union 2 7, .find 3], rfl, by simp, by simp⟩
  have habsent : .insert 7 ∉ merging := by simp [merging]
  obtain ⟨m, r, _, _, _, hfound⟩ := h.found 1 (by simp [merging])
  refine ⟨(h.connected 2 1).mpr ⟨by simp [merging], hjoined.symm _ _⟩, ?_,
    (h.absent 7).mpr habsent, ?_⟩
  · exact Bool.eq_false_iff.mpr fun htrue => habsent ((h.union 2 7).mp htrue).2
  · rw [(hfound 1).mpr ⟨by simp [merging], .refl 1⟩, (hfound 2).mpr ⟨by simp [merging], hjoined⟩]

end DisjointSets

end CellComplex
