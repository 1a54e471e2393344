import CellComplex.Proofs.Cell.Below
import CellComplex.Space.Basic
import Mathlib.Data.List.Nodup

/-!
# What a change of a store leaves alone

Every reading of a store after each of its changes:

* `find?_push_old`, `find?_modifyAt_owned`: the cells; `Store.adds_push`, `Store.alike_modifyAt` say
  the same of the store as a lookup; `push_modifyAt`: entering and changing at once is entering;
* `liveCount_push`, `liveCount_modifyAt`, `liveCount_deleteAt`: the number of live cells;
* `layer_push`, `layerCount_push`: the layers;
* `mem_atomsOf_linkAtom`, `mem_expansionsOf_linkAtom`: the atom links;
* `Space.exists_store`, `Space.mem_layer`: what is in sight is in some store;
* `Space.find?_push` … `Space.mem_expansionsOf_linkAtom`: the same for a store over others;
* **`length_links`**: the number of atom links is the number of linked pairs;
  `atomLinkCount_linkAtom`: a new link counts once.
-/

namespace CellComplex

theorem toList_nodup (set : CellSet) : set.toList.Nodup := by
  refine set.distinct_toList.imp fun {a b} h e => h ?_
  rw [e, Std.LawfulEqCmp.compare_eq_iff_eq]

namespace Store

variable {s : Store} {id : CellId} {c d : Cell} {i : Nat}

/-! ## 1. Cells -/

theorem find?_eq_some_iff :
    s.find? id = some c ↔ id.store = s.id ∧ s.cells[id.index]? = some c := by
  unfold find?
  split
  · next h => exact ⟨fun hc => ⟨h, hc⟩, fun hc => hc.2⟩
  · next h => exact ⟨fun hc => (by cases hc), fun hc => absurd hc.1 h⟩

theorem owns_iff : s.owns id = true ↔ ∃ c, s.find? id = some c := Option.isSome_iff_exists

theorem find?_isSome_iff : (∃ c, s.find? id = some c) ↔ id.store = s.id ∧ id.index < s.size := by
  refine ⟨fun h => ?_, fun h => ?_⟩
  · obtain ⟨c, hc⟩ := h
    obtain ⟨hs, hget⟩ := find?_eq_some_iff.mp hc
    exact ⟨hs, (Array.getElem?_eq_some_iff.mp hget).1⟩
  · obtain ⟨hs, hlt⟩ := h
    exact ⟨_, find?_eq_some_iff.mpr ⟨hs, Array.getElem?_eq_getElem hlt⟩⟩

theorem find?_empty (i : Nat) (id : CellId) : (empty i).find? id = none := by
  simp [find?, empty]

theorem find?_nextId (k : Nat) : s.find? (s.nextId k) = none := by
  cases h : s.find? (s.nextId k) with
  | none => rfl
  | some c =>
    obtain ⟨_, hlt⟩ := find?_isSome_iff.mp ⟨c, h⟩
    have hle : s.size ≤ (s.nextId k).index := Nat.le_add_right _ _
    omega

theorem find?_push_new (hid : c.id = s.nextId 0) : (s.push c).find? c.id = some c := by
  rw [find?_eq_some_iff, hid]
  exact ⟨rfl, Array.getElem?_push_size⟩

theorem find?_push_old (hid : c.id = s.nextId 0) (hne : id ≠ c.id) :
    (s.push c).find? id = s.find? id := by
  unfold find?
  show (if id.store = s.id then (s.cells.push c)[id.index]? else none) = _
  split
  · next h =>
    have hindex : id.index ≠ s.cells.size := by
      intro e
      refine hne ?_
      rw [hid]
      cases id
      cases h
      cases e
      rfl
    rw [Array.getElem?_push, if_neg hindex]
  · rfl

/-- A pushed cell is the one new cell. -/
theorem adds_push (hid : c.id = s.nextId 0) : Lookup.Adds s.lookup (s.push c).lookup c where
  fresh := by
    rw [hid]
    exact find?_nextId 0
  new := find?_push_new hid
  old _ hne := find?_push_old hid hne

theorem size_push : (s.push c).size = s.size + 1 := Array.size_push _

theorem find?_modifyAt {f : Cell → Cell} :
    (s.modifyAt i f).find? id = if id.index = i then (s.find? id).map f else s.find? id := by
  unfold find?
  show (if id.store = s.id then (s.cells.modify i f)[id.index]? else none) = _
  rw [Array.getElem?_modify]
  by_cases hs : id.store = s.id
  · by_cases hi : i = id.index
    · subst hi
      rw [if_pos hs, if_pos rfl, if_pos rfl, if_pos hs]
    · rw [if_pos hs, if_neg hi, if_neg (Ne.symm hi), if_pos hs]
  · rw [if_neg hs, if_neg hs]
    split <;> rfl

/-- Changing the place of an owned cell changes that cell. -/
theorem find?_modifyAt_owned {f : Cell → Cell} {x : CellId} (hid : s.owns id = true) :
    (s.modifyAt id.index f).find? x = if x = id then (s.find? x).map f else s.find? x := by
  rw [find?_modifyAt]
  by_cases hx : x = id
  · rw [if_pos (congrArg CellId.index hx), if_pos hx]
  · rw [if_neg hx]
    split
    · next hindex =>
      -- the place is that of another store's cell
      obtain ⟨c, hc⟩ := owns_iff.mp hid
      have hstore : id.store = s.id := (find?_eq_some_iff.mp hc).1
      have hnone : s.find? x = none := if_neg fun h => hx ?_
      · rw [hnone]
        rfl
      · cases x
        cases id
        simp_all
    · rfl

/-- A change that keeps the form of cells keeps what lies below them. -/
theorem alike_modifyAt {f : Cell → Cell} (hf : ∀ c, (f c).form = c.form) :
    Lookup.Alike s.lookup (s.modifyAt i f).lookup := by
  intro id
  show ((s.modifyAt i f).find? id).map Cell.form = (s.find? id).map Cell.form
  rw [find?_modifyAt]
  split
  · rw [Option.map_map]
    exact congrArg (fun g => (s.find? id).map g) (funext hf)
  · rfl

theorem size_modifyAt {f : Cell → Cell} : (s.modifyAt i f).size = s.size := Array.size_modify

/-- A cell that is changed as soon as it entered might as well have entered changed. -/
theorem push_modifyAt {f : Cell → Cell} (hid : c.id = s.nextId 0) (hform : (f c).form = c.form) :
    (s.push c).modifyAt c.id.index f = s.push (f c) := by
  have hdim : (f c).dimension = c.dimension := congrArg Form.dimension hform
  have hname : (f c).id = c.id := congrArg Form.id hform
  have hindex : c.id.index = s.cells.size := congrArg CellId.index hid
  have hcells : (s.cells.push c).modify c.id.index f = s.cells.push (f c) := by
    refine Array.ext_getElem? fun j => ?_
    rw [hindex, Array.getElem?_modify, Array.getElem?_push, Array.getElem?_push]
    by_cases hj : j = s.cells.size
    · simp [hj]
    · simp [hj, Ne.symm hj]
  unfold modifyAt push
  rw [hcells, hdim, hname]

theorem liveCount_push : (s.push c).liveCount = s.liveCount + if c.isLive then 1 else 0 :=
  Array.countP_push

/-- A changed cell counts for what it is now, and no longer for what it was. -/
theorem liveCount_modifyAt {f : Cell → Cell} (hc : s.find? id = some c) :
    (s.modifyAt id.index f).liveCount + (if c.isLive then 1 else 0) =
      s.liveCount + if (f c).isLive then 1 else 0 := by
  have hget : s.cells.toList[id.index]? = some c := by
    rw [Array.getElem?_toList]
    exact (find?_eq_some_iff.mp hc).2
  obtain ⟨hlt, hcell⟩ := List.getElem?_eq_some_iff.mp hget
  have hset : (s.cells.modify id.index f).toList = s.cells.toList.set id.index (f c) := by
    rw [Array.toList_modify, List.modify_eq_set_getElem?, hget]
    rfl
  have hle : (if c.isLive then 1 else 0) ≤ s.cells.toList.countP Cell.isLive := by
    split
    · next hlive => exact List.countP_pos_iff.mpr ⟨c, List.mem_of_getElem? hget, hlive⟩
    · exact Nat.zero_le _
  show (s.cells.modify id.index f).countP Cell.isLive + _ = s.cells.countP Cell.isLive + _
  rw [← Array.countP_toList, ← Array.countP_toList, hset, List.countP_set hlt, hcell]
  omega

theorem liveCount_deleteAt (hc : s.find? id = some c) (hlive : c.isLive = true) :
    (s.deleteAt id.index).liveCount + 1 = s.liveCount := by
  have hcount := liveCount_modifyAt (f := ({ · with deleted := true })) hc
  rw [if_pos hlive] at hcount
  exact hcount

/-! ## 2. Layers -/

theorem size_growLayers {layers : Array (Array CellId)} {n : Nat} :
    (growLayers layers n).size = max layers.size (n + 1) := by
  unfold growLayers
  rw [Array.size_append, Array.size_replicate]
  omega

theorem getElem?_growLayers {layers : Array (Array CellId)} {n k : Nat} :
    ((growLayers layers n)[k]?).getD #[] = (layers[k]?).getD #[] := by
  unfold growLayers
  rw [Array.getElem?_append]
  split
  · rfl
  · next h =>
    rw [Array.getElem?_eq_none (Nat.le_of_not_lt h), Array.getElem?_replicate]
    split <;> rfl

theorem layer_push {k : Nat} :
    (s.push c).layer k = if c.dimension = k then s.layer k ++ [c.id] else s.layer k := by
  unfold layer
  show ((((growLayers s.layers c.dimension).modify c.dimension (·.push c.id))[k]?).getD #[]).toList
    = _
  rw [Array.getElem?_modify]
  split
  · next h =>
    subst h
    rw [← getElem?_growLayers (n := c.dimension) (k := c.dimension)]
    have hlt : c.dimension < (growLayers s.layers c.dimension).size := by
      rw [size_growLayers]
      omega
    rw [Array.getElem?_eq_getElem hlt]
    exact Array.toList_push
  · rw [getElem?_growLayers]

theorem mem_layer_push {k : Nat} :
    id ∈ (s.push c).layer k ↔ id ∈ s.layer k ∨ (c.dimension = k ∧ id = c.id) := by
  rw [layer_push]
  split
  · next h => rw [List.mem_append, List.mem_singleton, and_iff_right h]
  · next h => exact ⟨Or.inl, fun hid => hid.resolve_right fun hid => h hid.1⟩

theorem layerCount_push : (s.push c).layerCount = max s.layerCount (c.dimension + 1) := by
  show ((growLayers s.layers c.dimension).modify c.dimension (·.push c.id)).size = _
  rw [Array.size_modify, size_growLayers]
  rfl

theorem layer_of_le {k : Nat} (h : s.layerCount ≤ k) : s.layer k = [] := by
  unfold layer
  rw [Array.getElem?_eq_none h]
  rfl

/-! ## 3. Atom links -/

section Links

variable {expansion atom e a : CellId}

/-- A pair enters a map of sets. -/
theorem mem_getD_enter {m : Std.TreeMap CellId CellSet} {k v : CellId} :
    a ∈ (m.insert k ((m.getD k ∅).insert v)).getD e ∅ ↔ a ∈ m.getD e ∅ ∨ (e = k ∧ a = v) := by
  rw [Std.TreeMap.getD_insert]
  split
  · next h =>
    cases Std.LawfulEqCmp.compare_eq_iff_eq.mp h
    rw [Std.TreeSet.mem_insert, Std.LawfulEqCmp.compare_eq_iff_eq, or_comm]
    exact or_congr_right ⟨fun h => ⟨rfl, h.symm⟩, fun h => h.2.symm⟩
  · next h =>
    refine ⟨Or.inl, fun h' => h'.resolve_right fun h' => h ?_⟩
    rw [h'.1, Std.LawfulEqCmp.compare_eq_iff_eq]

theorem mem_atomsOf_linkAtom :
    a ∈ (s.linkAtom expansion atom).atomsOf e ↔ a ∈ s.atomsOf e ∨ (e = expansion ∧ a = atom) :=
  mem_getD_enter

theorem mem_expansionsOf_linkAtom :
    e ∈ (s.linkAtom expansion atom).expansionsOf a ↔
      e ∈ s.expansionsOf a ∨ (e = expansion ∧ a = atom) :=
  mem_getD_enter.trans (or_congr_right and_comm)

/-- The linked pairs of an expansion and an atom. -/
def links (s : Store) : List (CellId × CellId) :=
  s.atoms.toList.flatMap fun entry => entry.2.toList.map fun atom => (entry.1, atom)

theorem mem_links : (e, a) ∈ s.links ↔ a ∈ s.atomsOf e := by
  unfold links atomsOf
  rw [List.mem_flatMap, Std.TreeMap.getD_eq_getD_getElem?]
  refine ⟨fun h' => ?_, fun h => ?_⟩
  · obtain ⟨⟨k, atoms⟩, hentry, hmem⟩ := h'
    obtain ⟨x, hx, hpair⟩ := List.mem_map.mp hmem
    cases hpair
    rw [Std.TreeMap.mem_toList_iff_getElem?_eq_some] at hentry
    rw [hentry]
    exact Std.TreeSet.mem_toList.mp hx
  · cases hget : s.atoms[e]? with
    | none =>
      rw [hget] at h
      exact absurd h Std.TreeSet.not_mem_emptyc
    | some atoms =>
      rw [hget] at h
      refine ⟨(e, atoms), Std.TreeMap.mem_toList_iff_getElem?_eq_some.mpr hget, ?_⟩
      exact List.mem_map_of_mem (Std.TreeSet.mem_toList.mpr h)

theorem links_nodup : s.links.Nodup := by
  unfold links
  rw [List.nodup_flatMap]
  refine ⟨fun entry _ => ?_, ?_⟩
  · exact (toList_nodup entry.2).map fun x y h => (Prod.mk.inj h).2
  · refine List.Pairwise.imp (fun {x y} h => ?_) s.atoms.distinct_keys_toList
    intro pair hx hy
    obtain ⟨u, _, rfl⟩ := List.mem_map.mp hx
    obtain ⟨v, _, hpair⟩ := List.mem_map.mp hy
    exact h (by rw [(Prod.mk.inj hpair).1, Std.LawfulEqCmp.compare_eq_iff_eq])

/-- **The number of atom links is the number of linked pairs.** -/
theorem length_links : s.links.length = s.atomLinkCount := by
  unfold links atomLinkCount
  rw [Std.TreeMap.foldl_eq_foldl_toList]
  have fold : ∀ (entries : List (CellId × CellSet)) (n : Nat),
      entries.foldl (fun n entry => n + entry.2.size) n =
        n + (entries.flatMap fun entry =>
          entry.2.toList.map fun atom => (entry.1, atom)).length := by
    intro entries
    induction entries with
    | nil => exact fun n => rfl
    | cons entry rest ih =>
      intro n
      rw [List.foldl_cons, ih, List.flatMap_cons, List.length_append, List.length_map,
        Std.TreeSet.length_toList, Nat.add_assoc]
  rw [fold, Nat.zero_add]

/-- A new link counts once. -/
theorem atomLinkCount_linkAtom (hnew : atom ∉ s.atomsOf expansion) :
    (s.linkAtom expansion atom).atomLinkCount = s.atomLinkCount + 1 := by
  have hfresh : (expansion, atom) ∉ s.links := fun h => hnew (mem_links.mp h)
  have hperm : (s.linkAtom expansion atom).links.Perm ((expansion, atom) :: s.links) := by
    refine (List.perm_ext_iff_of_nodup links_nodup (links_nodup.cons hfresh)).mpr ?_
    rintro ⟨e, a⟩
    rw [mem_links, mem_atomsOf_linkAtom, List.mem_cons, mem_links, Prod.mk.injEq, or_comm]
  rw [← length_links, hperm.length_eq, List.length_cons, length_links]

end Links

end Store

/-! ## 4. Spaces -/

theorem Lookup.ext_find {a b : Lookup} (h : ∀ id, a.find id = b.find id) : a = b := by
  cases a
  cases b
  cases funext h
  rfl

/-- A store with nothing below sees its own cells. -/
theorem Space.lookup_ofStore (s : Store) : (Space.ofStore s).lookup = s.lookup :=
  Lookup.ext_find fun _ => Option.or_none

theorem Store.find?_ofStore (s : Store) (id : CellId) : (Space.ofStore s).find? id = s.find? id :=
  Option.or_none

theorem Store.resolve_ofStore {s : Store} {id : CellId} {c : Cell} (h : s.find? id = some c) :
    (Space.ofStore s).resolve id = .ok c :=
  Lookup.resolve_eq_ok.mpr ((Store.find?_ofStore s id).trans h)

namespace Space

variable {s : Store} {below : List Store} {c : Cell} {id x : CellId}

/-- A cell in sight is a cell of a store. -/
theorem exists_store {sp : Space} (h : sp.find? x = some c) : ∃ s ∈ sp.stores, s.find? x = some c := by
  have search : ∀ stores : List Store, (lookupIn stores).find x = some c →
      ∃ s ∈ stores, s.find? x = some c := by
    intro stores
    induction stores with
    | nil => exact fun h => nomatch h
    | cons s rest ih =>
      intro h
      rcases Option.or_eq_some_iff.mp h with h | ⟨_, h⟩
      · exact ⟨s, List.mem_cons_self, h⟩
      · obtain ⟨t, ht, hc⟩ := ih h
        exact ⟨t, List.mem_cons_of_mem s ht, hc⟩
  exact search sp.stores h

/-- Where the store on top has an id of its own, the names of cells to come are in no store. -/
theorem find?_nextId {sp : Space} (hown : ∀ s ∈ sp.below, s.id ≠ sp.top.id) (k : Nat) :
    sp.find? (sp.top.nextId k) = none := by
  cases hc : sp.find? (sp.top.nextId k) with
  | none => rfl
  | some c =>
    obtain ⟨s, hs, hc⟩ := exists_store hc
    rcases List.mem_cons.mp hs with rfl | hs
    · cases (Store.find?_nextId k).symm.trans hc
    · exact absurd (Store.find?_eq_some_iff.mp hc).1.symm (hown s hs)

theorem mem_layer {sp : Space} {n : Nat} : x ∈ sp.layer n ↔ ∃ s ∈ sp.stores, x ∈ s.layer n := by
  simp [layer]

/-- A space sees what enters the store on top, ... -/
theorem find?_push (hid : c.id = s.nextId 0) (x : CellId) :
    (Space.mk (s.push c) below).find? x =
      if x = c.id then some c else (Space.mk s below).find? x := by
  show ((s.push c).find? x).or _ = _
  split
  · next e =>
    rw [e, Store.find?_push_new hid]
    rfl
  · next e =>
    rw [Store.find?_push_old hid e]
    rfl

theorem layer_mk {n : Nat} :
    (Space.mk s below).layer n = below.reverse.flatMap (·.layer n) ++ s.layer n := by
  simp [layer, stores]

theorem layerCount_mk : (Space.mk s below).layerCount =
    (below.map Store.layerCount).foldl max s.layerCount := List.foldl_map.symm

/-- ... at the end of its layer, ... -/
theorem layer_push {n : Nat} :
    (Space.mk (s.push c) below).layer n =
      if c.dimension = n then (Space.mk s below).layer n ++ [c.id]
      else (Space.mk s below).layer n := by
  rw [layer_mk, layer_mk, Store.layer_push]
  split
  · exact (List.append_assoc _ _ _).symm
  · rfl

theorem layerCount_push :
    (Space.mk (s.push c) below).layerCount =
      max (Space.mk s below).layerCount (c.dimension + 1) := by
  rw [layerCount_mk, layerCount_mk, Store.layerCount_push, Nat.max_comm, List.foldl_assoc,
    Nat.max_comm]

/-- The layers are those of the stores. -/
theorem layer_congr {t : Store} (h : ∀ n, t.layer n = s.layer n) (n : Nat) :
    (Space.mk t below).layer n = (Space.mk s below).layer n := by
  rw [layer_mk, layer_mk, h]

/-- ... and the change of a cell that the store on top owns. -/
theorem find?_modifyAt {f : Cell → Cell} (hid : s.owns id = true) :
    (Space.mk (s.modifyAt id.index f) below).find? x =
      if x = id then ((Space.mk s below).find? x).map f else (Space.mk s below).find? x := by
  show ((s.modifyAt id.index f).find? x).or _ = if x = id then ((s.find? x).or _).map f else _
  rw [Store.find?_modifyAt_owned hid]
  split
  · next e =>
    obtain ⟨c, hc⟩ := Store.owns_iff.mp hid
    rw [e, hc]
    rfl
  · rfl

section Links

variable {expansion atom e a : CellId}

theorem mem_atomsOf_linkAtom :
    a ∈ (Space.mk (s.linkAtom expansion atom) below).atomsOf e ↔
      a ∈ (Space.mk s below).atomsOf e ∨ (e = expansion ∧ a = atom) := by
  simp only [atomsOf, mem_gather, stores, List.mem_cons, exists_eq_or_imp,
    Store.mem_atomsOf_linkAtom]
  exact or_right_comm

theorem mem_expansionsOf_linkAtom :
    e ∈ (Space.mk (s.linkAtom expansion atom) below).expansionsOf a ↔
      e ∈ (Space.mk s below).expansionsOf a ∨ (e = expansion ∧ a = atom) := by
  simp only [expansionsOf, mem_gather, stores, List.mem_cons, exists_eq_or_imp,
    Store.mem_expansionsOf_linkAtom]
  exact or_right_comm

end Links

end Space

end CellComplex
