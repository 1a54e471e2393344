import CellComplex.Proofs.Boundary.Faces
import CellComplex.Rewrite.Match

/-!
# What a matching binds

Matching goes through pattern and selection position by position, and a later position overwrites
what an earlier one has bound. The outcome, told from the positions alone:

* `Rule.boundBy`: the selected cell at the last position bound to a cell of the product side;
* `Rule.unboundIn`: the selected cells at positions that are bound to nothing;
* `exists_matchCells`, `matchCells_eq_ok`: when cells match; `matchSlots_fits`: every one fits its
  position;
* **`matchRule_holds`**: a matching binds and leaves unbound exactly these.
-/

namespace CellComplex

variable {m m' : Matching} {slot : PatternSlot} {slots : List (PatternSlot × Cell)} {id x : CellId}

namespace Rule

/-- **The selected cell at the last position that is bound to `id`.** -/
def boundBy (rule : Rule) (selection : List CellId) (id : CellId) : Option CellId :=
  ((rule.pattern.zip selection).reverse.find? fun p => p.1.bindsTo = some id).map Prod.snd

/-- **The selected cells at positions that are bound to nothing**, in order. -/
def unboundIn (rule : Rule) (selection : List CellId) : List CellId :=
  ((rule.pattern.zip selection).filter fun p => p.1.bindsTo.isNone).map Prod.snd

theorem contains_eq_boundBy {rule : Rule} {selection : List CellId}
    {bindings : Std.TreeMap CellId CellId}
    (h : ∀ id : CellId, bindings[id]? = rule.boundBy selection id) :
    bindings.contains = fun id => (rule.boundBy selection id).isSome :=
  funext fun id => by rw [Std.TreeMap.contains_eq_isSome_getElem?, h]

end Rule

/-! ## 1. One position -/

theorem Matching.bindings_add :
    (m.add slot x).bindings[id]? = if slot.bindsTo = some id then some x else m.bindings[id]? := by
  unfold add
  cases hbinds : slot.bindsTo with
  | none => rfl
  | some replacement =>
    show (m.bindings.insert replacement x)[id]? = _
    rw [Std.TreeMap.getElem?_insert]
    simp

theorem Matching.unbound_add :
    (m.add slot x).unbound = m.unbound ++ if slot.bindsTo.isNone then [x] else [] := by
  unfold add
  cases slot.bindsTo with
  | none => rfl
  | some replacement => exact (List.append_nil _).symm

/-- A cell fits a position if it has the dimension and its label fits. -/
theorem PatternSlot.misfit?_eq_none {c : Cell} :
    slot.misfit? c = none ↔ slot.dimension = c.dimension ∧ slot.label.fits c.label = true := by
  unfold misfit?
  split
  · next hne => exact iff_of_false (fun h => by cases h) fun h => hne h.1
  · next heq =>
    rw [Decidable.not_not] at heq
    split
    · next hmiss => exact iff_of_false (fun h => by cases h) fun h => by simp [h.2] at hmiss
    · next hfit => exact iff_of_true rfl ⟨heq, by simpa using hfit⟩

/-! ## 2. All positions -/

/-- The last position wins, and nothing unbound is lost. -/
theorem matchSlots_holds (h : matchSlots m slots = .ok m') :
    (∀ id : CellId, m'.bindings[id]? =
        ((slots.reverse.find? fun p => p.1.bindsTo = some id).map fun p => p.2.id).or
          m.bindings[id]?) ∧
      m'.unbound = m.unbound ++
        (slots.filter fun p => p.1.bindsTo.isNone).map fun p => p.2.id := by
  induction slots generalizing m with
  | nil =>
    cases h
    exact ⟨fun id => rfl, (List.append_nil _).symm⟩
  | cons head rest ih =>
    obtain ⟨slot, c⟩ := head
    unfold matchSlots at h
    split at h
    · cases h
    · obtain ⟨hbindings, hunbound⟩ := ih h
      refine ⟨fun id => ?_, ?_⟩
      · rw [hbindings, Matching.bindings_add, List.reverse_cons, List.find?_append,
          Option.map_or, Option.or_assoc, List.find?_singleton]
        by_cases hbinds : slot.bindsTo = some id <;> simp [hbinds]
      · rw [hunbound, Matching.unbound_add, List.filter_cons]
        by_cases hbinds : slot.bindsTo.isNone = true <;> simp [hbinds]

/-- Cells that fit match. -/
theorem exists_matchSlots (h : ∀ p ∈ slots, p.1.misfit? p.2 = none) :
    ∃ m', matchSlots m slots = .ok m' := by
  induction slots generalizing m with
  | nil => exact ⟨m, rfl⟩
  | cons head rest ih =>
    obtain ⟨slot, c⟩ := head
    unfold matchSlots
    rw [h _ List.mem_cons_self]
    exact ih fun p hp => h p (List.mem_cons_of_mem _ hp)

/-- Cells that match fit. -/
theorem matchSlots_fits (h : matchSlots m slots = .ok m') :
    ∀ p ∈ slots, p.1.misfit? p.2 = none := by
  induction slots generalizing m with
  | nil => exact fun p hp => absurd hp List.not_mem_nil
  | cons head rest ih =>
    obtain ⟨slot, c⟩ := head
    unfold matchSlots at h
    split at h
    · cases h
    · next hfit => exact List.forall_mem_cons.mpr ⟨hfit, ih h⟩

theorem exists_matchCells {rule : Rule} {cells : List Cell}
    (hlive : ∀ c ∈ cells, c.deleted = false)
    (hcount : cells.countP (·.dimension == 0) = rule.points)
    (hlen : cells.length = rule.pattern.length)
    (hfit : ∀ p ∈ rule.pattern.zip cells, p.1.misfit? p.2 = none) :
    ∃ m, rule.matchCells cells = .ok m := by
  obtain ⟨m, hm⟩ := exists_matchSlots (m := .empty) hfit
  have hdead : cells.find? (·.deleted) = none := by
    rw [List.find?_eq_none]
    intro c hc
    simp [hlive c hc]
  refine ⟨m, ?_⟩
  unfold Rule.matchCells
  rw [hdead]
  dsimp only
  rw [if_neg (not_not_intro hcount), if_neg (not_not_intro hlen), hm]

/-- Cells that match are alive, and as many as the pattern lists. -/
theorem matchCells_eq_ok {rule : Rule} {cells : List Cell} (h : rule.matchCells cells = .ok m) :
    (∀ c ∈ cells, c.deleted = false) ∧ cells.length = rule.pattern.length ∧
      matchSlots .empty (rule.pattern.zip cells) = .ok m := by
  unfold Rule.matchCells at h
  split at h
  · cases h
  · next hlive =>
    dsimp only at h
    split at h
    · cases h
    · split at h
      · cases h
      · next hlen => exact ⟨by simpa using hlive, Decidable.not_not.mp hlen, h⟩

/-- The outcome for matching cells, by their ids. -/
theorem matchCells_holds {rule : Rule} {cells : List Cell} (h : rule.matchCells cells = .ok m) :
    (∀ id : CellId, m.bindings[id]? = rule.boundBy (cells.map Cell.id) id) ∧
      m.unbound = rule.unboundIn (cells.map Cell.id) := by
  obtain ⟨_, _, hslots⟩ := matchCells_eq_ok h
  obtain ⟨hbindings, hunbound⟩ := matchSlots_holds hslots
  refine ⟨fun id => ?_, ?_⟩
  · rw [hbindings, Rule.boundBy, List.zip_map_right, ← List.map_reverse, List.find?_map,
      Option.map_map]
    exact Option.or_none
  · rw [hunbound, Rule.unboundIn, List.zip_map_right, List.filter_map, List.map_map]
    rfl

theorem mem_unboundIn {rule : Rule} {selection : List CellId} (h : x ∈ rule.unboundIn selection) :
    x ∈ selection := by
  obtain ⟨p, hp, rfl⟩ := List.mem_map.mp h
  exact (List.of_mem_zip (List.mem_filter.mp hp).1).2

/-- What is left unbound was matched. -/
theorem matchCells_unbound {rule : Rule} {cells : List Cell} (h : rule.matchCells cells = .ok m)
    (hid : id ∈ m.unbound) : ∃ c ∈ cells, c.id = id := by
  rw [(matchCells_holds h).2] at hid
  exact List.mem_map.mp (mem_unboundIn hid)

/-! ## 3. Selections -/

namespace Space

variable {sp : Space} {rule : Rule} {selection : List CellId}

theorem matchRule_eq_ok (h : sp.matchRule rule selection = .ok m) :
    ∃ cells, selection.mapM sp.lookup.resolve = .ok cells ∧ rule.matchCells cells = .ok m := by
  obtain ⟨cells, hcells, hm⟩ := Outcome.bind_eq_ok.mp h
  refine ⟨cells, hcells, ?_⟩
  cases hmatch : rule.matchCells cells with
  | error reason =>
    rw [hmatch] at hm
    cases hm
  | ok m' =>
    rw [hmatch] at hm
    cases hm
    rfl

/-- **A matching binds what the last positions bind, and leaves the rest unbound.** -/
theorem matchRule_holds (hs : sp.lookup.Sound) (h : sp.matchRule rule selection = .ok m) :
    selection.length = rule.pattern.length ∧
      (∀ id : CellId, m.bindings[id]? = rule.boundBy selection id) ∧
      m.unbound = rule.unboundIn selection := by
  obtain ⟨cells, hcells, hmatch⟩ := matchRule_eq_ok h
  obtain ⟨_, hlen, _⟩ := matchCells_eq_ok hmatch
  have hids : cells.map Cell.id = selection := Lookup.map_id_faces hcells hs
  have hholds := matchCells_holds hmatch
  rw [hids] at hholds
  exact ⟨(Outcome.mapM_length hcells).symm.trans hlen, hholds⟩

end Space

end CellComplex
