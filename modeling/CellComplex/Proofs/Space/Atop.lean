import CellComplex.Proofs.Space.Link
import CellComplex.Proofs.Space.Shelf
import Mathlib.Data.List.Find

/-!
# A store over a space

A space keeps its stores in one list, and a question goes to all of them. The program has no such
list: what it asks is one store, or one store over what can itself be asked, and then it asks first
the one and then the other. It is shown here that both give the same answers, part by part, and that
the two operations that the program writes twice, once for each kind, do the same.

* `Space.atop`: a store over a space; **`Space.atop_induction`**: every space is made of these;
* `Space.find?_atop`, `Space.layer_atop`, …: what is in sight is told by the two parts;
* **`Space.findLink?_atop`**: a link is looked for below, and if there is none, on top;
  `Space.findLink?_stores`: so the lowest store that has one answers;
* `Space.Reachable.filed`: in reachable spaces the cells are where they are looked for;
* **`Space.link_atop`**: linking is two searches, one after the other;
* `Store.registerAtom`: an atom is entered first, and then it is seen whether it was there;
  `Store.registerAtom_of_mem`: what is refused leaves the store as it was;
* **`Space.linkAtom_atop`**: naming is a look at what is below, and then this.
-/

namespace CellComplex

namespace Space

open Edit

variable {patch : Store} {base : Space} {a b x expansion atom : CellId} {label : String}
variable {oriented : Bool}

/-! ## 1. Its parts -/

/-- **A store over a space.** -/
def atop (patch : Store) (base : Space) : Space := ⟨patch, base.stores⟩

/-- **Every space is a store alone, or a store over a space.** -/
theorem atop_induction {P : Space → Prop} (alone : ∀ s, P (ofStore s))
    (step : ∀ patch base, P base → P (atop patch base)) (sp : Space) : P sp := by
  obtain ⟨top, below⟩ := sp
  induction below generalizing top with
  | nil => exact alone top
  | cons s below ih => exact step top ⟨s, below⟩ (ih s)

theorem stores_atop : (atop patch base).stores = patch :: base.stores := rfl

/-- A cell is looked for on top, and then below. -/
theorem find?_atop : (atop patch base).find? x = (patch.find? x).or (base.find? x) := rfl

/-- The layers of the space come first. -/
theorem layer_atop (n : Nat) : (atop patch base).layer n = base.layer n ++ patch.layer n := by
  simp [layer, stores_atop]

theorem layerCount_atop :
    (atop patch base).layerCount = max base.layerCount patch.layerCount := by
  obtain ⟨top, below⟩ := base
  show (Space.mk patch (top :: below)).layerCount = _
  rw [layerCount_mk, layerCount_mk, List.map_cons, List.foldl_cons, List.foldl_assoc, Nat.max_comm]

/-- What is known of a cell is known below or on top. -/
theorem mem_gather_atop {known : Store → CellSet} :
    x ∈ (atop patch base).gather known ↔ x ∈ base.gather known ∨ x ∈ known patch := by
  simp [mem_gather, stores_atop, or_comm]

theorem isStale_atop : (atop patch base).isStale = (base.isStale || patch.isStale) := by
  simp [isStale, stores_atop, Bool.or_comm]

/-- Only cells on top may be changed, and those below are told from unknown ones. -/
theorem requireOwned_atop : (atop patch base).requireOwned x =
    if patch.owns x then .ok ()
    else if base.contains x then .error (.shadowingUnsupported .cell x)
    else .error (.cellNotFound x) := by
  unfold requireOwned contains Store.owns
  rw [find?_atop]
  show (if (patch.find? x).isSome then _ else _) = _
  cases patch.find? x <;> rfl

/-- Of a store alone, there are no cells below. -/
theorem requireOwned_ofStore {s : Store} : (ofStore s).requireOwned x =
    if s.owns x then .ok () else .error (.cellNotFound x) := by
  unfold requireOwned contains Store.owns
  rw [Store.find?_ofStore]
  show (if (s.find? x).isSome then _ else _) = _
  cases s.find? x <;> rfl

/-! ## 2. Links -/

/-- A cell that is filed below is looked for below. -/
theorem find?_atop_of_layer (hfiled : ∀ s ∈ base.stores, s.Filed)
    (hapart : ∀ s ∈ base.stores, s.id ≠ patch.id) {n : Nat} (hx : x ∈ base.layer n) :
    (atop patch base).find? x = base.find? x := by
  obtain ⟨s, hs, hlayer⟩ := mem_layer.mp hx
  obtain ⟨c, hc, _⟩ := ((hfiled s hs).mem_layer n x).mp hlayer
  have hstore : x.store = s.id := (Store.find?_eq_some_iff.mp hc).1
  have hnone : patch.find? x = none := if_neg fun h => hapart s hs (hstore.symm.trans h)
  rw [find?_atop, hnone, Option.none_or]

/-- One that is filed on top is a cell of the store on top. -/
theorem find?_atop_of_patch (hfiled : patch.Filed) {n : Nat} (hx : x ∈ patch.layer n) :
    (atop patch base).find? x = (ofStore patch).find? x := by
  obtain ⟨c, hc, _⟩ := (hfiled.mem_layer n x).mp hx
  rw [find?_atop, Store.find?_ofStore, hc, Option.some_or]

/-- **A link is looked for below, and if there is none, on top.** -/
theorem findLink?_atop (hfiled : ∀ s ∈ (atop patch base).stores, s.Filed)
    (hapart : ∀ s ∈ base.stores, s.id ≠ patch.id) :
    (atop patch base).findLink? a b label oriented =
      (base.findLink? a b label oriented).or ((ofStore patch).findLink? a b label oriented) := by
  rw [stores_atop, List.forall_mem_cons] at hfiled
  obtain ⟨hpatch, hbase⟩ := hfiled
  have halone : (ofStore patch).layer 1 = patch.layer 1 := by simp [layer, stores, ofStore]
  unfold findLink?
  rw [layer_atop, List.find?_append, halone]
  congr 1
  · refine List.find?_congr fun x hx => ?_
    unfold satisfies
    rw [find?_atop_of_layer hbase hapart hx]
  · refine List.find?_congr fun x hx => ?_
    unfold satisfies
    rw [find?_atop_of_patch hpatch hx]

/-- **The lowest store that has a link answers**, by induction on the stores. -/
theorem findLink?_stores {sp : Space} (hfiled : ∀ s ∈ sp.stores, s.Filed)
    (hapart : sp.stores.Pairwise fun s t => t.id ≠ s.id) :
    sp.findLink? a b label oriented =
      sp.stores.reverse.findSome? fun s => (ofStore s).findLink? a b label oriented := by
  induction sp using atop_induction with
  | alone s => simp [stores, ofStore]
  | step patch base ih =>
    obtain ⟨hpatch, hbase⟩ := List.pairwise_cons.mp hapart
    rw [findLink?_atop hfiled hpatch, ih (List.forall_mem_cons.mp hfiled).2 hbase, stores_atop,
      List.reverse_cons, List.findSome?_append]
    simp

/-- Stores grow, however they are asked, alone or over others. -/
theorem grown_run {shelf : Shelf} (h : ∀ k, (shelf k).Grown) (ask : Asking) (k : Nat) :
    (ask.run shelf k).Grown := by
  unfold Asking.run
  by_cases hk : k = ask.top
  · rw [hk, Shelf.put_self]
    exact .step ask.op (h ask.top)
  · rw [Shelf.put_of_ne hk]
    exact h k

theorem grown_after {shelf : Shelf} (h : ∀ k, (shelf k).Grown) (asks : List Asking) :
    ∀ k, (shelf.after asks k).Grown := by
  induction asks generalizing shelf with
  | nil => exact h
  | cons ask asks ih => exact ih (grown_run h ask)

/-- **In every reachable space the cells are filed.** -/
theorem Reachable.filed {sp : Space} (h : sp.Reachable) : ∀ s ∈ sp.stores, s.Filed := by
  obtain ⟨asks, top, below, _, rfl⟩ := h
  have hgrown := grown_after (fun k => Store.Grown.empty k) asks
  intro s hs
  rcases List.mem_cons.mp hs with rfl | hs
  · exact (hgrown top).filed
  · obtain ⟨k, _, rfl⟩ := List.mem_map.mp hs
    exact (hgrown k).filed

/-- What is seen before an edge is made: two points, and the edges that are there, below and on
top. -/
def seekAtop (base : Space) (a b : CellId) (label : String) (oriented : Bool) (sp : Space) :
    Except StoreError (Option CellId × Option CellId) := do
  requirePoint (← sp.resolve a)
  requirePoint (← sp.resolve b)
  return (base.findLink? a b label oriented, (ofStore sp.top).findLink? a b label oriented)

/-- **Linking over a space, as the program does it**: an edge below is reused before one on top. -/
def linkAtop (base : Space) (a b : CellId) (label : String) (oriented : Bool) : Edit CellId := do
  match ← Edit.look (seekAtop base a b label oriented) with
  | (some edge, _) => return edge
  | (none, some edge) => return edge
  | (none, none) => create label [a, b]

/-- **It is linking**, failures included, whatever was done to the stores before. -/
theorem link_atop (h : (atop patch base).Reachable) :
    (linkAtop base a b label oriented).apply (atop patch base) =
      (link a b label oriented).apply (atop patch base) := by
  -- one search sees what comes first of the two
  have hread : (do
      requirePoint (← (atop patch base).resolve a)
      requirePoint (← (atop patch base).resolve b)
      return (atop patch base).findLink? a b label oriented) =
      (fun found => found.1.or found.2) <$> seekAtop base a b label oriented (atop patch base) := by
    unfold seekAtop
    simp only [map_bind, map_pure, findLink?_atop h.filed h.apart]
    rfl
  unfold link linkAtop
  cases hseek : seekAtop base a b label oriented (atop patch base) with
  | error err =>
    rw [hseek] at hread
    rw [apply_bind_error (apply_look_error hseek), apply_bind_error (apply_look_error hread)]
  | ok found =>
    rw [hseek] at hread
    rw [apply_bind_ok (apply_look_ok hseek), apply_bind_ok (apply_look_ok hread)]
    obtain ⟨_ | edge, _ | edge'⟩ := found <;> rfl

end Space

/-! ## 3. Atom links -/

/-- A set is not changed by an id that it has. -/
theorem CellSet.insert_of_mem {ids : CellSet} {id : CellId} (h : id ∈ ids) :
    ids.insert id = ids := by
  -- the same tree, which the lemmas on members do not say
  have hmem : ids.inner.inner.inner.contains id = true := h
  obtain ⟨⟨⟨tree, _⟩⟩⟩ := ids
  simp only [Std.TreeSet.insert, Std.TreeMap.insertIfNew, Std.DTreeMap.insertIfNew,
    Std.DTreeMap.Internal.Impl.insertIfNew]
  simp only [hmem, if_true]

namespace Store

variable {s t : Store} {expansion atom x : CellId}

/-- **The same store**: its atoms may be kept in another tree, with the same entries. -/
def Same (s t : Store) : Prop := ∃ atoms, atoms.Equiv s.atoms ∧ t = { s with atoms }

theorem Same.refl (s : Store) : s.Same s := ⟨s.atoms, .rfl, rfl⟩

/-- It has the same atoms, ... -/
theorem Same.atomsOf_eq (h : s.Same t) : t.atomsOf x = s.atomsOf x := by
  obtain ⟨atoms, hatoms, rfl⟩ := h
  exact hatoms.getD_eq

/-- ... and as many. -/
theorem Same.atomLinkCount_eq (h : s.Same t) : t.atomLinkCount = s.atomLinkCount := by
  obtain ⟨atoms, hatoms, rfl⟩ := h
  exact hatoms.foldl_eq

/-- **Registers an atom, as the program does it**: it is entered, and if it was there before, that
is a failure. -/
def registerAtom (s : Store) (expansion atom : CellId) : Except StoreError Unit × Store :=
  let entered := { s with atoms := s.atoms.insert expansion ((s.atomsOf expansion).insert atom) }
  if (s.atomsOf expansion).contains atom then (.error (.duplicateAtomLink expansion atom), entered)
  else
    (.ok (), { entered with
      expansions := s.expansions.insert atom ((s.expansionsOf atom).insert expansion) })

/-- An atom that was not there is linked. -/
theorem registerAtom_of_not_mem (h : atom ∉ s.atomsOf expansion) :
    s.registerAtom expansion atom = (.ok (), s.linkAtom expansion atom) := if_neg h

/-- **One that was there is refused, and leaves the store as it was.** -/
theorem registerAtom_of_mem (h : atom ∈ s.atomsOf expansion) :
    ∃ t, s.Same t ∧
      s.registerAtom expansion atom = (.error (.duplicateAtomLink expansion atom), t) := by
  refine ⟨_, ⟨_, ?_, rfl⟩, if_pos h⟩
  have hknown : expansion ∈ s.atoms := by
    refine Decidable.byContradiction fun hnot => ?_
    rw [atomsOf, Std.TreeMap.getD_eq_fallback hnot] at h
    exact Std.TreeSet.not_mem_emptyc h
  refine Std.TreeMap.Equiv.of_forall_constGet?_eq fun x => ?_
  rw [CellSet.insert_of_mem h, Std.TreeMap.getElem?_insert]
  split
  · next hx =>
    obtain rfl := Std.LawfulEqCmp.eq_of_compare hx
    exact (Std.TreeMap.getElem?_eq_some_getD hknown).symm
  · rfl

end Store

namespace Space

open Edit

variable {sp base : Space} {patch : Store} {expansion atom : CellId}

/-- Fails unless a cell can be named by another. -/
def requireNames (sp : Space) (expansion atom : CellId) : Except StoreError Unit := do
  requireNameable (← sp.resolve expansion) (← sp.resolve atom)

/-- What naming a cell comes to. -/
theorem apply_linkAtom : (linkAtom expansion atom).apply sp =
    match sp.requireNames expansion atom with
    | .error err => (.error err, sp)
    | .ok () =>
      if (sp.atomsOf expansion).contains atom then
        (.error (.duplicateAtomLink expansion atom), sp)
      else (.ok (), { sp with top := sp.top.linkAtom expansion atom }) := by
  have hsplit : linkAtom expansion atom = Edit.decide fun sp => do
      sp.requireNames expansion atom
      if (sp.atomsOf expansion).contains atom then
        throw (.duplicateAtomLink expansion atom)
      return ((), (·.linkAtom expansion atom)) := by
    unfold linkAtom requireNames
    simp only [bind_assoc]
  rw [hsplit]
  cases hnames : sp.requireNames expansion atom with
  | error err => exact apply_decide_error (by rw [hnames]; rfl)
  | ok _ =>
    cases hknown : (sp.atomsOf expansion).contains atom with
    | true => exact apply_decide_error (by rw [hnames, hknown]; rfl)
    | false =>
      exact @apply_decide_ok _ sp () _ (·.linkAtom expansion atom) (by rw [hnames, hknown]; rfl)

/-- **Naming a cell over a space, as the program does it**: a name that the space below has given is
refused, and then the store on top registers it. -/
def linkAtomAtop (base : Space) (expansion atom : CellId) : Edit Unit := do
  Edit.look fun sp => do
    sp.requireNames expansion atom
    if (base.atomsOf expansion).contains atom then
      throw (.duplicateAtomLink expansion atom)
  fun sp =>
    let r := sp.top.registerAtom expansion atom
    (r.1, { sp with top := r.2 })

/-- What it comes to. -/
theorem apply_linkAtomAtop : (linkAtomAtop base expansion atom).apply (atop patch base) =
    match (atop patch base).requireNames expansion atom with
    | .error err => (.error err, atop patch base)
    | .ok () =>
      if (base.atomsOf expansion).contains atom then
        (.error (.duplicateAtomLink expansion atom), atop patch base)
      else
        ((patch.registerAtom expansion atom).1,
          atop (patch.registerAtom expansion atom).2 base) := by
  unfold linkAtomAtop
  cases hnames : (atop patch base).requireNames expansion atom with
  | error err => exact apply_bind_error (apply_look_error (by rw [hnames]; rfl))
  | ok _ =>
    cases (base.atomsOf expansion).contains atom with
    | true => exact apply_bind_error (apply_look_error (by rw [hnames]; rfl))
    | false => exact apply_bind_ok (apply_look_ok (by rw [hnames]; rfl))

/-- **It is naming**, failures included, and leaves the same store on top. -/
theorem linkAtom_atop (patch : Store) (base : Space) (expansion atom : CellId) :
    ∃ t, ((linkAtom expansion atom).apply (atop patch base)).2.top.Same t ∧
      (linkAtomAtop base expansion atom).apply (atop patch base) =
        (((linkAtom expansion atom).apply (atop patch base)).1, atop t base) := by
  rw [apply_linkAtom, apply_linkAtomAtop]
  cases (atop patch base).requireNames expansion atom with
  | error err => exact ⟨patch, .refl _, rfl⟩
  | ok _ =>
    have hatop : ((atop patch base).atomsOf expansion).contains atom =
        ((base.atomsOf expansion).contains atom || (patch.atomsOf expansion).contains atom) :=
      Bool.eq_iff_iff.mpr (mem_gather_atop.trans Bool.or_eq_true_iff.symm)
    simp only [hatop]
    cases (base.atomsOf expansion).contains atom with
    | true => exact ⟨patch, .refl _, rfl⟩
    | false =>
      cases hknown : (patch.atomsOf expansion).contains atom with
      | true =>
        obtain ⟨t, hsame, hrefused⟩ := Store.registerAtom_of_mem hknown
        rw [hrefused]
        exact ⟨t, hsame, rfl⟩
      | false =>
        rw [Store.registerAtom_of_not_mem (Bool.eq_false_iff.mp hknown)]
        exact ⟨_, .refl _, rfl⟩

/-- A name is taken back by no one, and one that the space below has given is told from others. -/
theorem apply_unlinkAtom_atop : (unlinkAtom expansion atom).apply (atop patch base) =
    (.error (if (base.atomsOf expansion).contains atom then
        .shadowingUnsupported .atomLink expansion
      else .unsupported .atomLinkDeletion), atop patch base) := by
  have hbelow : (base.stores.any fun s => (s.atomsOf expansion).contains atom) =
      (base.atomsOf expansion).contains atom :=
    Bool.eq_iff_iff.mpr (List.any_eq_true.trans mem_gather.symm)
  refine apply_look_error ?_
  show (if base.stores.any _ then _ else _) = _
  rw [hbelow]
  split <;> rfl

end Space

end CellComplex
