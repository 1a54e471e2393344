import CellComplex.Proofs.Rewrite.Match
import CellComplex.Proofs.Space.Change
import CellComplex.Rewrite.Apply

/-!
# Staging

The cells of a product are made on the side, under the ids that they will get, and enter the store
afterwards. That works because the side and the store agree at every step:

* `Lines`: cells that can enter one after the other, each made of what is there before it;
* `Staged`: the invariant of staging -- the cells on the side stand in a line, in the order of their
  ids, and the side shows what the store will show once they are in;
* **`staged_make`**: making one more cell keeps it;
* `prepare_planned`: once the product is planned, what is prepared is its staging;
* **`prepare_lines`**: what a rewrite makes on the side stands in a line;
* `unbound_selected`: what it means to delete was selected;
* **`stepwise_rewrite`**: a rewrite is made of the same changes as every other edit.
-/

namespace CellComplex

variable {s : Store} {below : List Store} {c : Cell} {cs : List Cell} {sp : Space}

/-! ## 1. Cells in a line -/

/-- **Cells that can enter a store one after the other**: each is made for the next place, of the
cells that are there by then. -/
inductive Lines (below : List Store) : Store → List Cell → Prop where
  | nil {s : Store} : Lines below s []
  | cons {s : Store} {c : Cell} {cs : List Cell} {label : String} {boundary : List CellId}
      {check : BoundaryCheck}
      (hmake : Cell.make (Space.mk s below).lookup (s.nextId 0) label boundary check = .ok c)
      (rest : Lines below (s.push c) cs) : Lines below s (c :: cs)

/-- The store with some cells more. -/
def Store.pushAll (s : Store) (cs : List Cell) : Store := cs.foldl Store.push s

theorem Store.pushAll_append : s.pushAll (cs ++ [c]) = (s.pushAll cs).push c :=
  List.foldl_append

theorem Store.nextId_push (k : Nat) : (s.push c).nextId k = s.nextId (k + 1) := by
  unfold nextId
  show CellId.mk s.id ((s.cells.push c).size + k) = _
  rw [Array.size_push]
  exact congrArg (CellId.mk s.id) (by omega)

theorem Store.nextId_pushAll : (s.pushAll cs).nextId 0 = s.nextId cs.length := by
  induction cs generalizing s with
  | nil => rfl
  | cons c cs ih =>
    show ((s.push c).pushAll cs).nextId 0 = _
    rw [ih, nextId_push]
    rfl

theorem Lines.snoc {label : String} {boundary : List CellId} {check : BoundaryCheck}
    (h : Lines below s cs)
    (hmake : Cell.make (Space.mk (s.pushAll cs) below).lookup ((s.pushAll cs).nextId 0) label
      boundary check = .ok c) : Lines below s (cs ++ [c]) := by
  induction h with
  | nil => exact .cons hmake .nil
  | cons hmake' _ ih => exact .cons hmake' (ih hmake)

theorem Lines.changes (h : Lines below s cs) : Changes below s (s.pushAll cs) := by
  induction h with
  | nil => exact .refl
  | cons hmake _ ih => exact Relation.ReflTransGen.head (.push hmake) ih

/-- **Cells in a line enter the store, every one.** -/
theorem Lines.apply_insert (h : Lines sp.below sp.top cs) :
    (cs.forM fun c => discard (Space.insert c)).apply sp =
      (.ok (), { sp with top := sp.top.pushAll cs }) := by
  obtain ⟨top, below⟩ := sp
  change Lines below top cs at h
  induction h with
  | nil => rfl
  | @cons s c cs label boundary check hmake _ ih =>
    have hid : c.id = s.nextId 0 := (make_fields hmake).1
    have hone : (discard (Space.insert c)).apply ⟨s, below⟩ = (.ok (), ⟨s.push c, below⟩) := by
      show (Space.insert c >>= fun _ => pure ()).apply _ = _
      rw [Edit.apply_bind_ok (Space.apply_insert_ok hid)]
      rfl
    show (discard (Space.insert c) >>= fun _ =>
      cs.forM fun c => discard (Space.insert c)).apply _ = _
    rw [Edit.apply_bind_ok hone]
    exact ih

theorem Store.nextId_inj {j k : Nat} : s.nextId j = s.nextId k ↔ j = k := by
  refine ⟨fun h => ?_, fun h => by rw [h]⟩
  have hindex : s.cells.size + j = s.cells.size + k := congrArg CellId.index h
  omega

/-- Cells in a line hide nothing that was there. -/
theorem Lines.find?_old (h : Lines below s cs) {x : CellId}
    (hx : ∀ k, k < cs.length → x ≠ s.nextId k) : (s.pushAll cs).find? x = s.find? x := by
  induction h with
  | nil => rfl
  | @cons s c cs label boundary check hmake _ ih =>
    have hid : c.id = s.nextId 0 := (make_fields hmake).1
    have hne : x ≠ c.id := hid ▸ hx 0 (Nat.zero_lt_succ _)
    refine (ih fun k hk => ?_).trans (Store.find?_push_old hid hne)
    rw [Store.nextId_push]
    exact hx (k + 1) (Nat.succ_lt_succ hk)

/-- Cells in a line are found under the next ids, in order. -/
theorem Lines.find?_new (h : Lines below s cs) {k : Nat} {d : Cell} (hd : cs[k]? = some d) :
    (s.pushAll cs).find? (s.nextId k) = some d := by
  induction h generalizing k with
  | nil => cases hd
  | @cons s c cs label boundary check hmake rest ih =>
    have hid : c.id = s.nextId 0 := (make_fields hmake).1
    cases k with
    | zero =>
      cases hd
      refine (rest.find?_old fun k _ => ?_).trans (hid ▸ Store.find?_push_new hid)
      rw [Store.nextId_push]
      exact fun e => Nat.succ_ne_zero k (Store.nextId_inj.mp e).symm
    | succ k =>
      rw [← Store.nextId_push]
      exact ih hd

/-- Cells in a line have the next ids, in order. -/
theorem Lines.ids (h : Lines below s cs) :
    cs.map Cell.id = (List.range cs.length).map s.nextId := by
  induction h with
  | nil => rfl
  | @cons s c cs label boundary check hmake _ ih =>
    have hid : c.id = s.nextId 0 := (make_fields hmake).1
    have hnext : (s.push c).nextId = s.nextId ∘ Nat.succ := funext Store.nextId_push
    rw [List.map_cons, List.length_cons, List.range_succ_eq_map, List.map_cons, List.map_map, ih,
      hid, hnext]

/-- Cells in a line leave the atom links alone. -/
theorem Store.links_pushAll :
    (s.pushAll cs).atoms = s.atoms ∧ (s.pushAll cs).expansions = s.expansions := by
  induction cs generalizing s with
  | nil => exact ⟨rfl, rfl⟩
  | cons c cs ih => exact ih

/-- Cells in a line get the next ids. -/
theorem Lines.id_lt (h : Lines below s cs) :
    ∀ c ∈ cs, c.id.store = s.id ∧ c.id.index < s.size + cs.length := by
  induction h with
  | nil => exact fun c hc => absurd hc List.not_mem_nil
  | @cons s c cs label boundary check hmake _ ih =>
    have hid : c.id = s.nextId 0 := (make_fields hmake).1
    intro d hd
    rw [List.length_cons]
    rcases List.mem_cons.mp hd with rfl | hd
    · rw [hid]
      refine ⟨rfl, ?_⟩
      show s.size + 0 < s.size + (cs.length + 1)
      omega
    · obtain ⟨hstore, hlt⟩ := ih d hd
      rw [Store.size_push] at hlt
      exact ⟨hstore, by omega⟩

/-! ## 2. The invariant of staging -/

/-- Ids of one store are ordered by age. -/
theorem CellId.compare_eq_lt {a b : CellId} (hstore : a.store = b.store) :
    compare a b = .lt ↔ a.index < b.index := by
  show (compare a.store b.store).then (compare a.index b.index) = .lt ↔ _
  rw [hstore, Nat.compare_eq_eq.mpr rfl, Ordering.eq_then]
  exact Nat.compare_eq_lt

/-- What enters a map behind all that is there comes last in it. -/
theorem toList_insert_last {m : Std.TreeMap CellId Cell} {id : CellId}
    (h : ∀ entry ∈ m.toList, compare entry.1 id = .lt) :
    (m.insert id c).toList = m.toList ++ [(id, c)] := by
  have hperm : (m.insert id c).toList.Perm (m.toList ++ [(id, c)]) := by
    have hkeep : (m.toList.filter fun entry => ¬ id == entry.1) = m.toList := by
      refine List.filter_eq_self.mpr fun entry hentry => ?_
      have hne : id ≠ entry.1 := by
        intro e
        have heq : compare entry.1 id = .eq := Std.LawfulEqCmp.compare_eq_iff_eq.mpr e.symm
        rw [h entry hentry] at heq
        cases heq
      simpa using hne
    refine Std.TreeMap.toList_insert_perm.trans ?_
    rw [hkeep]
    exact (List.perm_append_singleton _ _).symm
  have hsorted : (m.toList ++ [(id, c)]).Pairwise fun a b => compare a.1 b.1 = .lt := by
    refine List.pairwise_append.mpr ⟨Std.TreeMap.ordered_keys_toList, List.pairwise_singleton _ _,
      fun a ha b hb => ?_⟩
    rw [List.mem_singleton.mp hb]
    exact h a ha
  refine hperm.eq_of_pairwise (fun a b _ _ hab hba => ?_) Std.TreeMap.ordered_keys_toList hsorted
  have hswap : compare b.1 a.1 = (compare a.1 b.1).swap := Std.OrientedCmp.eq_swap
  rw [hba, hab] at hswap
  cases hswap

/-- **The side agrees with the store to be**, where some cells have entered. -/
structure Staged (sp : Space) (st : Staging) (cs : List Cell) : Prop where
  lines : Lines sp.below sp.top cs
  cells : st.cells.toList = cs.map fun c => (c.id, c)
  created : st.created.reverse = cs.map Cell.id
  lookup : st.lookup sp = (Space.mk (sp.top.pushAll cs) sp.below).lookup

namespace Staged

variable {st : Staging}

theorem start (bindings : Std.TreeMap CellId CellId) : Staged sp (.start bindings) [] where
  lines := .nil
  cells := rfl
  created := rfl
  lookup := by
    refine Lookup.ext_find fun x => ?_
    show ((∅ : Std.TreeMap CellId Cell)[x]?).or (sp.lookup.find x) = sp.lookup.find x
    rw [Std.TreeMap.getElem?_emptyc, Option.none_or]

/-- The cells enter in the order in which they were made. -/
theorem entering_eq (h : Staged sp st cs) : st.entering = cs := by
  unfold Staging.entering
  rw [h.cells, List.map_map]
  exact List.map_id cs

/-- The id on the side is the next one of the store to be. -/
theorem nextId_eq (h : Staged sp st cs) :
    sp.top.nextId st.created.length = (sp.top.pushAll cs).nextId 0 := by
  have hlength : st.created.length = cs.length := by
    rw [← List.length_reverse, h.created, List.length_map]
  rw [Store.nextId_pushAll, hlength]

/-- The next id comes after all that are on the side. -/
theorem compare_nextId (h : Staged sp st cs) :
    ∀ entry ∈ st.cells.toList, compare entry.1 ((sp.top.pushAll cs).nextId 0) = .lt := by
  intro entry hentry
  rw [h.cells] at hentry
  obtain ⟨c, hc, rfl⟩ := List.mem_map.mp hentry
  obtain ⟨hstore, hlt⟩ := h.lines.id_lt c hc
  rw [Store.nextId_pushAll]
  exact (CellId.compare_eq_lt hstore).mpr hlt

/-- A cell made for the next place of the store to be may join the side. -/
theorem add (h : Staged sp st cs) {label : String} {boundary : List CellId}
    {check : BoundaryCheck} {bindings : Std.TreeMap CellId CellId} {id : CellId}
    (hnext : id = (sp.top.pushAll cs).nextId 0)
    (hmake : Cell.make (st.lookup sp) id label boundary check = .ok c) :
    Staged sp ⟨st.cells.insert id c, bindings, id :: st.created⟩ (cs ++ [c]) := by
  rw [h.lookup] at hmake
  have hid : c.id = id := (make_fields hmake).1
  refine ⟨h.lines.snoc (hnext ▸ hmake), ?_, ?_, Lookup.ext_find fun x => ?_⟩
  · show (st.cells.insert id c).toList = _
    rw [toList_insert_last (hnext ▸ h.compare_nextId), h.cells, List.map_append, ← hid]
    rfl
  · show (id :: st.created).reverse = _
    rw [List.reverse_cons, h.created, List.map_append, ← hid]
    rfl
  · have hold : (st.cells[x]?).or (sp.lookup.find x) =
        (Space.mk (sp.top.pushAll cs) sp.below).find? x :=
      congrArg (fun look => look.find x) h.lookup
    show ((st.cells.insert id c)[x]?).or (sp.lookup.find x) =
      (Space.mk (sp.top.pushAll (cs ++ [c])) sp.below).find? x
    rw [Store.pushAll_append, Space.find?_push (hid.trans hnext), ← hid,
      Std.TreeMap.getElem?_insert]
    by_cases e : x = c.id
    · rw [if_pos (Std.LawfulEqCmp.compare_eq_iff_eq.mpr e.symm), if_pos e]
      rfl
    · rw [if_neg fun he => e (Std.LawfulEqCmp.compare_eq_iff_eq.mp he).symm, if_neg e]
      exact hold

end Staged

/-- What making a cell on the side takes, and what it leaves. -/
theorem Staging.standIn_eq_ok {st : Staging} {rule : Rule} {id x : CellId} :
    st.standIn rule id = .ok x ↔ st.bindings[id]? = some x := by
  unfold standIn
  cases st.bindings[id]? <;> simp

theorem Staging.make_eq_ok {rule : Rule} {template : CellId} {st st' : Staging}
    (h : st.make sp rule template = .ok st') :
    ∃ shape boundary c, rule.template? template = some shape ∧
      shape.boundary.mapM (st.standIn rule) = .ok boundary ∧
      Cell.make (st.lookup sp) (sp.top.nextId st.created.length) shape.label boundary .full =
        .ok c ∧
      st' = ⟨st.cells.insert (sp.top.nextId st.created.length) c,
        st.bindings.insert template (sp.top.nextId st.created.length),
        sp.top.nextId st.created.length :: st.created⟩ := by
  unfold make at h
  cases hshape : rule.template? template with
  | none =>
    rw [hshape] at h
    cases h
  | some shape =>
    rw [hshape] at h
    obtain ⟨boundary, hboundary, h⟩ := Outcome.bind_eq_ok.mp h
    obtain ⟨c, hc, h⟩ := Outcome.bind_eq_ok.mp h
    cases h
    exact ⟨shape, boundary, c, rfl, hboundary, hc, rfl⟩

/-- **Making one more cell on the side keeps side and store in step.** -/
theorem staged_make {rule : Rule} {template : CellId} {st st' : Staging} (h : Staged sp st cs)
    (hmake : st.make sp rule template = .ok st') : ∃ c, Staged sp st' (cs ++ [c]) := by
  obtain ⟨shape, boundary, c, _, _, hc, rfl⟩ := Staging.make_eq_ok hmake
  exact ⟨c, h.add h.nextId_eq hc⟩

theorem staged_stage {rule : Rule} {bindings : Std.TreeMap CellId CellId} {plan : List CellId}
    {st : Staging} (h : stage sp rule bindings plan = .ok st) : ∃ cs, Staged sp st cs := by
  refine Outcome.foldlM_induction (P := fun _ st => ∃ cs, Staged sp st cs) h
    ⟨[], .start bindings⟩ ?_
  intro _ _ _ _ _ _ hstaged hmake
  obtain ⟨cs, hcs⟩ := hstaged
  obtain ⟨c, hc⟩ := staged_make hcs hmake
  exact ⟨cs ++ [c], hc⟩

/-! ## 3. What is prepared -/

/-- Once a selection matches and the product is planned, the plan is staged. -/
theorem prepare_planned {rule : Rule} {selection plan : List CellId} {m : Matching}
    (hm : sp.matchRule rule selection = .ok m) (hplan : rule.plan m.bindings.contains = .ok plan) :
    sp.prepare rule selection = (stage sp rule m.bindings plan).map fun st => (st, m.unbound) := by
  unfold Space.prepare
  rw [hm]
  show (rule.plan m.bindings.contains >>= _) = _
  rw [hplan]
  show (stage sp rule m.bindings plan >>= _) = _
  cases stage sp rule m.bindings plan <;> rfl

theorem prepare_eq_ok {rule : Rule} {selection unbound : List CellId} {st : Staging}
    (h : sp.prepare rule selection = .ok (st, unbound)) :
    ∃ m plan, sp.matchRule rule selection = .ok m ∧ rule.plan m.bindings.contains = .ok plan ∧
      stage sp rule m.bindings plan = .ok st ∧ unbound = m.unbound := by
  obtain ⟨m, hm, h⟩ := Outcome.bind_eq_ok.mp h
  obtain ⟨plan, hplan, h⟩ := Outcome.bind_eq_ok.mp h
  obtain ⟨st, hst, h⟩ := Outcome.bind_eq_ok.mp h
  cases h
  exact ⟨m, plan, hm, hplan, hst, rfl⟩

/-- **What a rewrite makes on the side stands in a line.** -/
theorem prepare_lines {rule : Rule} {selection unbound : List CellId} {st : Staging}
    (h : sp.prepare rule selection = .ok (st, unbound)) :
    Lines sp.below sp.top st.entering := by
  obtain ⟨m, plan, _, _, hst, _⟩ := prepare_eq_ok h
  obtain ⟨cs, hcs⟩ := staged_stage hst
  rw [hcs.entering_eq]
  exact hcs.lines

/-- What a rewrite means to delete was selected, and is there. -/
theorem unbound_selected {rule : Rule} {selection unbound : List CellId} {st : Staging}
    (h : sp.prepare rule selection = .ok (st, unbound)) {id : CellId} (hid : id ∈ unbound) :
    ∃ x ∈ selection, ∃ c, sp.find? x = some c ∧ c.id = id := by
  obtain ⟨m, _, hm, _, _, rfl⟩ := prepare_eq_ok h
  obtain ⟨cells, hcells, hmatch⟩ := Space.matchRule_eq_ok hm
  obtain ⟨c, hc, e⟩ := matchCells_unbound hmatch hid
  obtain ⟨x, hx, hfind⟩ := Outcome.mapM_mem_right hcells hc
  exact ⟨x, hx, c, Lookup.resolve_eq_ok.mp hfind, e⟩

/-! ## 4. A rewrite step by step -/

namespace Space

open Edit

theorem stepsAt_commit {made : List Cell} {unbound : List CellId}
    (h : Lines sp.below sp.top made) : (commit made unbound).StepsAt sp := by
  refine StepsAt.bind ?_ fun _ sp' _ => Stepwise.forM (fun _ => stepwise_delete) sp'
  unfold StepsAt
  rw [h.apply_insert]
  exact ⟨rfl, h.changes⟩

/-- **A rewrite is made of the same changes as every other edit.** -/
theorem stepwise_rewrite {rule : Rule} {selection : List CellId} :
    (rewrite rule selection).Stepwise := by
  intro sp
  refine (stepwise_look sp).bind fun prepared sp' hlook => ?_
  obtain ⟨st, unbound⟩ := prepared
  cases hprep : sp.prepare rule selection with
  | error err =>
    rw [apply_look_error hprep] at hlook
    cases hlook
  | ok prepared =>
    rw [apply_look_ok hprep] at hlook
    cases hlook
    exact (stepsAt_commit (prepare_lines hprep)).bind fun _ sp' _ => stepwise_pure _ sp'

theorem stepwise_rewriteBy {rule : CellId} {selection : List CellId} :
    (rewriteBy rule selection).Stepwise :=
  stepwise_look.bind fun _ => stepwise_rewrite

end Space

end CellComplex
