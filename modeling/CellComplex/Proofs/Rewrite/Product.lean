import CellComplex.Proofs.Rewrite.Transaction

/-!
# What a rewrite makes

A product cell stands for a selected cell or for one that the rewrite makes. This is a partial map
from the product side of the rule into the store, and the cells made are the templates of the plan,
carried over by it.

* `Rule.image`: the map, told from the selection, the plan and the ids of the cells made;
* `Rule.Instantiates`: a cell is a template carried over by a map;
* `Built`: the invariant of staging -- what was made so far instantiates its templates by the map as
  it is so far;
* **`built_make`**, `built_stage`: making one more cell keeps it, and so a whole plan;
* **`rewrite_product`**: a rewrite that succeeds makes exactly the product.
-/

namespace CellComplex

namespace Rule

/-- **What a cell of the product side stands for**: the selected cell at the last position bound to
it, or the cell made for its place in the plan. -/
def image (rule : Rule) (selection plan created : List CellId) (id : CellId) : Option CellId :=
  (rule.boundBy selection id).or ((plan.idxOf? id).bind fun i => created[i]?)

/-- **A live cell with the label and the boundary of a template**, the boundary carried over by
`image` in order. -/
def Instantiates (rule : Rule) (image : CellId → Option CellId) (template : CellId) (c : Cell) :
    Prop :=
  ∃ shape, rule.template? template = some shape ∧ c.isLive = true ∧ c.label = shape.label ∧
    c.boundary.map some = shape.boundary.map image

variable {rule : Rule} {f g : CellId → Option CellId} {template : CellId} {c : Cell}

/-- A cell stays what it is when the map learns more. -/
theorem Instantiates.mono (h : rule.Instantiates f template c)
    (hfg : ∀ id x, f id = some x → g id = some x) : rule.Instantiates g template c := by
  obtain ⟨shape, hshape, hlive, hlabel, hboundary⟩ := h
  refine ⟨shape, hshape, hlive, hlabel, hboundary.trans (List.map_congr_left fun id hid => ?_)⟩
  have hmem : f id ∈ c.boundary.map some := hboundary ▸ List.mem_map_of_mem hid
  obtain ⟨x, _, hx⟩ := List.mem_map.mp hmem
  rw [← hx]
  exact (hfg id x hx.symm).symm

end Rule

/-! ## 1. The map grows -/

theorem idxOf?_append_singleton {xs : List CellId} {x id : CellId} (hx : x ∉ xs) :
    (xs ++ [x]).idxOf? id = if id = x then some xs.length else xs.idxOf? id := by
  unfold List.idxOf?
  rw [List.findIdx?_append]
  split
  · next e =>
    subst e
    have hnone : xs.findIdx? (· == id) = none := List.idxOf?_eq_none_iff.mpr hx
    simp [hnone]
  · next e => simp [List.findIdx?_cons, Ne.symm e]

/-- A boundary is carried over id by id. -/
theorem Staging.standIns_eq_ok {st : Staging} {rule : Rule} {ids xs : List CellId}
    (h : ids.mapM (st.standIn rule) = .ok xs) :
    xs.map some = ids.map fun id => st.bindings[id]? := by
  have hall := Outcome.mapM_eq_ok.mp h
  clear h
  induction hall with
  | nil => rfl
  | cons hid _ ih => exact congrArg₂ List.cons (Staging.standIn_eq_ok.mp hid).symm ih

/-! ## 2. The invariant of staging -/

/-- **Every cell on the side is the template that it was made of**, carried over by what is bound so
far: the selected cells, and the cells made for the templates done. -/
structure Built (sp : Space) (rule : Rule) (bindings : Std.TreeMap CellId CellId) (st : Staging)
    (done : List CellId) (cs : List Cell) : Prop where
  staged : Staged sp st cs
  bindings : ∀ id : CellId, st.bindings[id]? =
    (bindings[id]?).or ((done.idxOf? id).map sp.top.nextId)
  cells : List.Forall₂ (rule.Instantiates fun id => st.bindings[id]?) done cs

section Built

variable {sp : Space} {rule : Rule} {bindings : Std.TreeMap CellId CellId} {st st' : Staging}
variable {done plan : List CellId} {cs : List Cell} {template : CellId}

theorem built_start : Built sp rule bindings (.start bindings) [] [] where
  staged := .start bindings
  bindings _ := Option.or_none.symm
  cells := .nil

theorem Built.length_eq (h : Built sp rule bindings st done cs) :
    st.created.length = done.length := by
  rw [h.cells.length_eq, ← List.length_reverse, h.staged.created, List.length_map]

/-- **Making one more cell** of a template that is neither bound nor done. -/
theorem built_make (h : Built sp rule bindings st done cs) (hfree : bindings[template]? = none)
    (hnew : template ∉ done) (hmake : st.make sp rule template = .ok st') :
    ∃ c, Built sp rule bindings st' (done ++ [template]) (cs ++ [c]) := by
  obtain ⟨shape, boundary, c, hshape, hboundary, hc, rfl⟩ := Staging.make_eq_ok hmake
  have hnone : st.bindings[template]? = none := by
    rw [h.bindings, hfree, List.idxOf?_eq_none_iff.mpr hnew]
    rfl
  have hinsert : ∀ id : CellId,
      (st.bindings.insert template (sp.top.nextId st.created.length))[id]? =
        if id = template then some (sp.top.nextId done.length) else st.bindings[id]? := by
    intro id
    rw [Std.TreeMap.getElem?_insert, h.length_eq]
    simp only [Std.LawfulEqCmp.compare_eq_iff_eq, eq_comm (a := template)]
  -- what was bound is not bound again
  have hkeep : ∀ (id x : CellId), st.bindings[id]? = some x →
      (st.bindings.insert template (sp.top.nextId st.created.length))[id]? = some x := by
    intro id x hx
    rw [hinsert, if_neg]
    · exact hx
    · rintro rfl
      rw [hnone] at hx
      cases hx
  refine ⟨c, h.staged.add h.staged.nextId_eq hc, fun id => ?_, ?_⟩
  · show (st.bindings.insert template (sp.top.nextId st.created.length))[id]? = _
    rw [hinsert, idxOf?_append_singleton hnew, h.bindings]
    by_cases e : id = template
    · subst e
      rw [if_pos rfl, if_pos rfl, hfree]
      rfl
    · rw [if_neg e, if_neg e]
  · refine List.rel_append (h.cells.imp fun _ _ hcell => hcell.mono hkeep) (.cons ?_ .nil)
    obtain ⟨_, hlabel, hfaces, hdeleted⟩ := make_fields hc
    have hlive : c.isLive = true := by
      rw [Cell.isLive, hdeleted]
      rfl
    have hcell : rule.Instantiates (fun id => st.bindings[id]?) template c :=
      ⟨shape, hshape, hlive, hlabel, hfaces ▸ Staging.standIns_eq_ok hboundary⟩
    exact hcell.mono hkeep

/-- **Making a whole plan**, none of it bound. -/
theorem built_stage (hnodup : plan.Nodup) (hfree : ∀ x ∈ plan, bindings[x]? = none)
    (h : stage sp rule bindings plan = .ok st) : ∃ cs, Built sp rule bindings st plan cs := by
  refine Outcome.foldlM_induction (P := fun done st => ∃ cs, Built sp rule bindings st done cs) h
    ⟨[], built_start⟩ ?_
  rintro done template rest _ _ rfl ⟨cs, hcs⟩ hmake
  have hnew : template ∉ done := fun hmem =>
    (List.nodup_append.mp hnodup).2.2 template hmem template List.mem_cons_self rfl
  have hmem : template ∈ done ++ template :: rest :=
    List.mem_append_right _ List.mem_cons_self
  obtain ⟨c, hc⟩ := built_make hcs (hfree template hmem) hnew hmake
  exact ⟨cs ++ [c], hc⟩

/-- The cells made have the next ids. -/
theorem Built.created_eq (h : Built sp rule bindings st plan cs) :
    st.created.reverse = (List.range plan.length).map sp.top.nextId := by
  rw [h.staged.created, h.staged.lines.ids, h.cells.length_eq]

/-- What is planned stands for something in the end. -/
theorem Built.exists_of_mem (h : Built sp rule bindings st plan cs) {x : CellId} (hx : x ∈ plan) :
    ∃ y, st.bindings[x]? = some y := by
  rw [h.bindings]
  cases hidx : plan.idxOf? x with
  | none => exact absurd hx (List.idxOf?_eq_none_iff.mp hidx)
  | some i => cases bindings[x]? <;> exact ⟨_, rfl⟩

/-- The cell made for a place of the plan. -/
theorem Built.exists_cell (h : Built sp rule bindings st plan cs) {i : Nat}
    (hi : plan[i]? = some template) :
    ∃ c, cs[i]? = some c ∧ rule.Instantiates (fun id => st.bindings[id]?) template c := by
  obtain ⟨hlt, hget⟩ := List.getElem?_eq_some_iff.mp hi
  have hlt' : i < cs.length := h.cells.length_eq ▸ hlt
  subst hget
  exact ⟨cs[i], List.getElem?_eq_getElem hlt', h.cells.get hlt hlt'⟩

/-- What is bound at the end is what the product side stands for. -/
theorem Built.image_eq {selection : List CellId} (h : Built sp rule bindings st plan cs)
    (hbindings : ∀ id : CellId, bindings[id]? = rule.boundBy selection id) :
    rule.image selection plan st.created.reverse = fun id => st.bindings[id]? := by
  funext id
  rw [Rule.image, h.bindings, hbindings, h.created_eq]
  congr 1
  cases hidx : plan.idxOf? id with
  | none => rfl
  | some i =>
    have hlt : i < plan.length := (List.idxOf?_eq_some_iff.mp hidx).1
    simp [hlt]

end Built

/-! ## 3. A rewrite that succeeds -/

section Rewrite

variable {s t : Store} {rule : Rule} {selection : List CellId} {r : Rewrite}

/-- A rewrite that succeeds has prepared what it makes. -/
theorem Space.apply_rewrite_prepared (hs : s.Consistent)
    (h : (Space.rewrite rule selection).applyTo s = (.ok r, t)) :
    ∃ st, (Space.ofStore s).prepare rule selection = .ok (st, r.deleted) ∧
      r.created = st.created.reverse ∧ (s.pushAll st.entering).Marks r.deleted t := by
  unfold Edit.applyTo at h
  cases hprep : (Space.ofStore s).prepare rule selection with
  | error err =>
    rw [apply_rewrite_error hprep] at h
    cases h
  | ok prepared =>
    obtain ⟨st, unbound⟩ := prepared
    obtain ⟨u, _, hu, hmarks⟩ := apply_rewrite_marks hs hprep
    rw [hu] at h
    cases h
    exact ⟨st, rfl, rfl, hmarks⟩

/-- What it has matched, planned and made. -/
theorem Space.exists_built (hs : s.Consistent)
    (h : (Space.rewrite rule selection).applyTo s = (.ok r, t)) :
    ∃ (m : Matching) (plan : List CellId) (st : Staging) (cs : List Cell),
      selection.length = rule.pattern.length ∧
      (∀ id : CellId, m.bindings[id]? = rule.boundBy selection id) ∧
      rule.plan m.bindings.contains = .ok plan ∧
      Built (Space.ofStore s) rule m.bindings st plan cs ∧
      r.created = st.created.reverse ∧ r.deleted = rule.unboundIn selection ∧
      (∀ x ∈ r.deleted, s.owns x = true) ∧ (s.pushAll cs).Marks r.deleted t := by
  obtain ⟨st, hprep, hcreated, hmarks⟩ := Space.apply_rewrite_prepared hs h
  obtain ⟨m, plan, hm, hplan, hstage, hdeleted⟩ := prepare_eq_ok hprep
  obtain ⟨hlen, hbindings, hunbound⟩ := Space.matchRule_holds hs.sound_ofStore hm
  obtain ⟨hnodup, hfree, _⟩ := Rule.plan_holds hplan
  have hnone : ∀ x ∈ plan, m.bindings[x]? = none := fun x hx => by
    have hx' := hfree x hx
    rwa [Std.TreeMap.contains_eq_isSome_getElem?, Option.isSome_eq_false_iff,
      Option.isNone_iff_eq_none] at hx'
  obtain ⟨cs, hbuilt⟩ := built_stage hnodup hnone hstage
  rw [hbuilt.staged.entering_eq] at hmarks
  exact ⟨m, plan, st, cs, hlen, hbindings, hplan, hbuilt, hcreated, hdeleted.trans hunbound,
    fun x hx => Space.unbound_owned hs hprep hx, hmarks⟩

/-- **A rewrite that succeeds makes exactly the product**, whatever the rule is and wherever it was
read. Every product cell stands for something; the cells made have the next ids in order, each is a
different template of the plan carried over, and what is unbound is deleted; every other cell and
every atom link is as it was. -/
theorem rewrite_product (hs : s.Reachable)
    (h : (Space.rewrite rule selection).applyTo s = (.ok r, t)) :
    ∃ plan, selection.length = rule.pattern.length ∧
      rule.plan (fun id => (rule.boundBy selection id).isSome) = .ok plan ∧ plan.Nodup ∧
      r.created = (List.range plan.length).map s.nextId ∧
      (∀ x ∈ rule.product, ∃ y, rule.image selection plan r.created x = some y) ∧
      (∀ i template, plan[i]? = some template → ∃ c, t.find? (s.nextId i) = some c ∧
        rule.Instantiates (rule.image selection plan r.created) template c) ∧
      r.deleted = rule.unboundIn selection ∧
      (∀ x ∈ r.deleted, ∃ c, t.find? x = some c ∧ c.isLive = false) ∧
      (∀ x, x ∉ r.created → x ∉ r.deleted → t.find? x = s.find? x) ∧
      t.atoms = s.atoms ∧ t.expansions = s.expansions := by
  obtain ⟨m, plan, st, cs, hlen, hbindings, hplan, hbuilt, hcreated, hdeleted, howned, hmarks⟩ :=
    Space.exists_built hs.consistent h
  have hlines : Lines [] s cs := hbuilt.staged.lines
  have hids : r.created = (List.range plan.length).map s.nextId :=
    hcreated.trans hbuilt.created_eq
  have himage : rule.image selection plan r.created = fun id => st.bindings[id]? :=
    hcreated ▸ hbuilt.image_eq hbindings
  rw [Rule.contains_eq_boundBy hbindings] at hplan
  obtain ⟨hnodup, _, hproduct⟩ := Rule.plan_holds hplan
  -- what is made is not deleted again
  have hnew : ∀ i, s.nextId i ∉ r.deleted := fun i hi => by
    obtain ⟨c, hc⟩ := Store.owns_iff.mp (howned _ hi)
    rw [Store.find?_nextId] at hc
    cases hc
  refine ⟨plan, hlen, hplan, hnodup, hids, fun x hx => ?_, fun i template hi => ?_, hdeleted,
    fun x hx => ?_, fun x hx hx' => ?_, hmarks.atoms.trans Store.links_pushAll.1,
    hmarks.expansions.trans Store.links_pushAll.2⟩
  · by_cases hsome : (rule.boundBy selection x).isSome = true
    · obtain ⟨y, hy⟩ := Option.isSome_iff_exists.mp hsome
      exact ⟨y, by rw [Rule.image, hy]; rfl⟩
    · rw [himage]
      exact hbuilt.exists_of_mem (hproduct x hx (Bool.not_eq_true _ ▸ hsome))
  · obtain ⟨c, hc, hcell⟩ := hbuilt.exists_cell hi
    refine ⟨c, ?_, himage ▸ hcell⟩
    rw [hmarks.find, if_neg (hnew i)]
    exact hlines.find?_new hc
  · obtain ⟨c, hc⟩ := Store.owns_iff.mp (hlines.changes.extends.owns (howned x hx))
    exact ⟨c.marked, by rw [hmarks.find, if_pos hx, hc]; rfl, rfl⟩
  · rw [hmarks.find, if_neg hx']
    refine hlines.find?_old fun k hk e => hx ?_
    rw [hids, e]
    exact List.mem_map_of_mem (List.mem_range.mpr (hbuilt.cells.length_eq ▸ hk))

end Rewrite

/-- A store with three points. -/
def threePoints : Store :=
  runAll (.empty 0) [.create "root" [], .create "node" [], .create "leaf" []]

/-- A rule for three points: the first two are bound to the same cell, the last to none, and a new
point is put at the end of a new edge. -/
def sprout : Rule where
  cell := ⟨1, 0⟩
  points := 3
  pattern := [⟨⟨1, 1⟩, 0, .any, some ⟨1, 4⟩⟩, ⟨⟨1, 2⟩, 0, .any, some ⟨1, 4⟩⟩,
    ⟨⟨1, 3⟩, 0, .any, none⟩]
  product := [⟨1, 6⟩, ⟨1, 4⟩]
  templates := ((∅ : Std.TreeMap CellId Template).insert ⟨1, 5⟩ ⟨"bud", 0, []⟩).insert ⟨1, 6⟩
    ⟨"stem", 1, [⟨1, 4⟩, ⟨1, 5⟩]⟩

/-- Both points are bound to one cell of the product side; the second is bound last. -/
def sproutBindings : Std.TreeMap CellId CellId :=
  ((∅ : Std.TreeMap CellId CellId).insert ⟨1, 4⟩ ⟨0, 0⟩).insert ⟨1, 4⟩ ⟨0, 1⟩

/-- The edge is made after its end, and starts at the second point, which was bound last. -/
theorem rewrite_product_sprout :
    ∃ t c, (Space.rewrite sprout [⟨0, 0⟩, ⟨0, 1⟩, ⟨0, 2⟩]).applyTo threePoints =
        (.ok ⟨[⟨0, 3⟩, ⟨0, 4⟩], [⟨0, 2⟩]⟩, t) ∧
      t.find? ⟨0, 4⟩ = some c ∧ c.label = "stem" ∧ c.boundary = [⟨0, 1⟩, ⟨0, 3⟩] := by
  have hreach : threePoints.Reachable := (Store.Reachable.empty 0).runAll _
  have hmatch : (Space.ofStore threePoints).matchRule sprout [⟨0, 0⟩, ⟨0, 1⟩, ⟨0, 2⟩] =
      .ok ⟨sproutBindings, [⟨0, 2⟩]⟩ := rfl
  have hroots : sprout.unboundProduct sproutBindings.contains = .ok [(1, ⟨1, 6⟩)] := rfl
  have hfrom : sprout.planFrom sproutBindings.contains ∅ [] [.enter ⟨1, 6⟩] =
      .ok [⟨1, 5⟩, ⟨1, 6⟩] := by cbv
  have hready : sprout.plan sproutBindings.contains = .ok [⟨1, 5⟩, ⟨1, 6⟩] :=
    (Rule.plan_of_sorted hroots (by decide)).trans hfrom
  obtain ⟨_, _, hrewrite⟩ := Space.apply_rewrite_ok hreach.consistent
    ((prepare_planned hmatch hready).trans rfl)
  have hok : ((Space.rewrite sprout [⟨0, 0⟩, ⟨0, 1⟩, ⟨0, 2⟩]).applyTo threePoints).1 =
      .ok ⟨[⟨0, 3⟩, ⟨0, 4⟩], [⟨0, 2⟩]⟩ := congrArg Prod.fst hrewrite
  obtain ⟨plan, _, hplan, _, _, _, hcells, _⟩ := rewrite_product hreach (Prod.ext hok rfl)
  have hbindings := (Space.matchRule_holds hreach.consistent.sound_ofStore hmatch).2.1
  rw [← Rule.contains_eq_boundBy hbindings] at hplan
  obtain rfl : [⟨1, 5⟩, ⟨1, 6⟩] = plan := Except.ok.inj (hready.symm.trans hplan)
  obtain ⟨c, hc, shape, hshape, _, hlabel, hboundary⟩ := hcells 1 _ rfl
  obtain rfl : ⟨"stem", 1, [⟨1, 4⟩, ⟨1, 5⟩]⟩ = shape := Option.some.inj hshape
  exact ⟨_, c, Prod.ext hok rfl, hc, hlabel,
    List.map_injective_iff.mpr (fun _ _ => Option.some.inj) hboundary⟩

end CellComplex
