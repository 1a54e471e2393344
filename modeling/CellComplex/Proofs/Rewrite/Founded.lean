import CellComplex.Proofs.Rewrite.Order
import CellComplex.Proofs.Rewrite.Product
import CellComplex.Proofs.Rule.Product
import CellComplex.Proofs.Space.Shelf

/-!
# A rule that was read is never malformed

A rule is read with the templates of its product and of everything below. So planning finds a
template for whatever it meets, and what is made lies on cells that are bound or made before.
Whatever else stops a rewrite, it is not the rule.

* `Unblamed`: a computation that finds no rule malformed; sequences, and loops by their rounds;
  `unblamed_make`: making a cell is one;
* `Space.template?_of_compile`: the templates of a rule that was read;
  **`Space.founded_of_compile`**: they hold together;
* `unblamed_stage`: what can be made one after the other is staged without blame;
* **`compile_planned`**: a rule that was read is planned whatever is bound, and applying it finds no
  rule malformed.
-/

namespace CellComplex

/-! ## 1. Failures that blame no rule -/

/-- **The computation finds no rule malformed.** -/
def Unblamed {α : Type} (x : Except StoreError α) : Prop :=
  ∀ rule fault, x ≠ .error (.malformedRule rule fault)

section Unblamed

variable {α β : Type} {x : Except StoreError α}

theorem unblamed_ok (a : α) : Unblamed (.ok a : Except StoreError α) :=
  fun _ _ h => by cases h

theorem Unblamed.bind {f : α → Except StoreError β} (hx : Unblamed x)
    (hf : ∀ a, x = .ok a → Unblamed (f a)) : Unblamed (x >>= f) := by
  cases x with
  | error err => exact fun rule fault h => hx rule fault (congrArg _ (Except.error.inj h))
  | ok a => exact hf a rfl

theorem Unblamed.map {f : α → β} (hx : Unblamed x) : Unblamed (x.map f) :=
  hx.bind fun a _ => unblamed_ok (f a)

/-- A loop finds no rule malformed if none of its rounds does. -/
theorem unblamed_foldlM {f : β → α → Except StoreError β} {xs : List α} {b : β}
    (hf : ∀ done y rest mid, xs = done ++ y :: rest → done.foldlM f b = .ok mid →
      Unblamed (f mid y)) : Unblamed (xs.foldlM f b) := by
  intro rule fault h
  obtain ⟨done, y, rest, mid, hxs, hdone, hy⟩ := Outcome.foldlM_eq_error h
  exact hf done y rest mid hxs hdone rule fault hy

theorem unblamed_mapM {f : α → Except StoreError β} {xs : List α} (hf : ∀ a, Unblamed (f a)) :
    Unblamed (xs.mapM f) := by
  induction xs with
  | nil => exact unblamed_ok []
  | cons y xs ih =>
    rw [List.mapM_cons]
    exact (hf y).bind fun _ _ => ih.bind fun _ _ => unblamed_ok _

theorem unblamed_resolve {look : Lookup} (id : CellId) : Unblamed (look.resolve id) := by
  intro rule fault h
  unfold Lookup.resolve at h
  split at h <;> cases h

end Unblamed

/-- A search that paints finds no rule malformed if no step does. -/
theorem unblamed_paintFrom {b : Branching StoreError} {color : Nat}
    {paint : Std.TreeMap CellId Nat} {stack : List CellId} (h : ∀ id, Unblamed (b.next id)) :
    Unblamed (b.paintFrom color paint stack) := by
  fun_induction b.paintFrom color paint stack with
  | case1 paint => exact unblamed_ok paint
  | case2 paint id rest hseen ih => exact ih
  | case3 paint id rest hseen err hnext =>
    exact fun rule fault e => h id rule fault (hnext.trans (congrArg _ (Except.error.inj e)))
  | case4 paint id rest hseen ids hnext ih => exact ih

theorem unblamed_checkMinimal {look : Lookup} {label : String} {faces : List Cell} :
    Unblamed (checkMinimal look label faces) := by
  unfold checkMinimal
  dsimp only
  split
  · exact fun rule fault h => by cases h
  · refine (unblamed_foldlM fun _ placed _ paint _ _ => ?_).bind fun _ _ => unblamed_ok ()
    refine unblamed_paintFrom fun id rule fault h => ?_
    rcases partsOf_next_eq_error.mp h with ⟨_, h⟩ | ⟨_, _, h⟩ <;> cases h

theorem unblamed_ofFaces {look : Lookup} {id : CellId} {label : String} {boundary : List CellId}
    {check : BoundaryCheck} {faces : List Cell} :
    Unblamed (Cell.ofFaces look id label boundary check faces) := by
  unfold Cell.ofFaces
  dsimp only
  split
  · split
    · exact fun rule fault h => by cases h
    · exact unblamed_ok _
  · refine Unblamed.bind ?_ fun _ _ => ?_
    · unfold checkConnected
      split
      · exact fun rule fault h => by cases h
      · exact unblamed_ok _
    · split
      · exact unblamed_checkMinimal.bind fun _ _ => unblamed_ok _
      · exact unblamed_ok _

/-- **Making a cell finds no rule malformed.** -/
theorem unblamed_make {look : Lookup} {id : CellId} {label : String} {boundary : List CellId}
    {check : BoundaryCheck} : Unblamed (Cell.make look id label boundary check) := by
  unfold Cell.make
  split
  · exact unblamed_ok _
  · unfold Cell.build
    dsimp only
    split
    · exact fun rule fault h => by cases h
    · exact (unblamed_mapM unblamed_resolve).bind fun faces _ => unblamed_ofFaces

/-- A matching finds no rule malformed: it is the selection that does not fit. -/
theorem unblamed_matchRule {sp : Space} {rule : Rule} {selection : List CellId} :
    Unblamed (sp.matchRule rule selection) := by
  refine (unblamed_mapM unblamed_resolve).bind fun cells _ => ?_
  cases rule.matchCells cells with
  | error reason => exact fun rule fault h => by cases h
  | ok m => exact unblamed_ok m

/-! ## 2. Changes that blame no rule -/

namespace Edit

variable {α β : Type} {e : Edit α} {f : α → Edit β} {sp : Space}

/-- A change finds no rule malformed if neither of its parts does. -/
theorem unblamed_bind (he : Unblamed (e.apply sp).1)
    (hf : ∀ a sp', e.apply sp = (.ok a, sp') → Unblamed ((f a).apply sp').1) :
    Unblamed ((e >>= f).apply sp).1 := by
  cases h : e.apply sp with
  | mk result sp' =>
    rw [h] at he
    cases result with
    | error err =>
      rw [apply_bind_error h]
      exact fun rule fault e => he rule fault (congrArg _ (Except.error.inj e))
    | ok a =>
      rw [apply_bind_ok h]
      exact hf a sp' h

theorem unblamed_decide {choose : Space → Except StoreError (α × (Store → Store))}
    (h : Unblamed (choose sp)) : Unblamed ((decide choose).apply sp).1 := by
  cases hc : choose sp with
  | error err =>
    rw [hc] at h
    rw [apply_decide_error hc]
    exact fun rule fault e => h rule fault (congrArg _ (Except.error.inj e))
  | ok chosen =>
    rw [apply_decide_ok hc]
    exact unblamed_ok _

theorem unblamed_forM {xs : List β} {f : β → Edit Unit} (hf : ∀ x sp, Unblamed ((f x).apply sp).1) :
    Unblamed ((xs.forM f).apply sp).1 := by
  induction xs generalizing sp with
  | nil => exact unblamed_ok ()
  | cons x xs ih => exact unblamed_bind (hf x sp) fun _ _ _ => ih

end Edit

/-- **Committing finds no rule malformed.** -/
theorem unblamed_commit {made : List Cell} {unbound : List CellId} {sp : Space} :
    Unblamed ((commit made unbound).apply sp).1 := by
  refine Edit.unblamed_bind (Edit.unblamed_forM fun c sp => ?_) fun _ _ _ =>
    Edit.unblamed_forM fun id sp => ?_
  · refine Edit.unblamed_bind (Edit.unblamed_decide ?_) fun _ _ _ => unblamed_ok ()
    split
    · exact unblamed_ok _
    · exact fun rule fault h => by cases h
  · refine Edit.unblamed_decide (Unblamed.bind ?_ fun _ _ => ?_)
    · unfold Space.requireOwned
      split
      · exact unblamed_ok ()
      · split <;> exact fun rule fault h => by cases h
    · split <;> exact unblamed_ok _

/-! ## 3. The templates of a rule that was read -/

namespace Space

variable {sp : Space} {rule : Rule} {id x : CellId} {t : Template} {order : List CellId}
variable {templates : Std.TreeMap CellId Template}

/-- Templates are entered of cells in sight, under their ids. -/
theorem of_getElem?_enterTemplates (h : (order.foldl sp.enterTemplate templates)[x]? = some t) :
    templates[x]? = some t ∨ x ∈ order ∧ ∃ c, sp.find? x = some c ∧ t = .ofCell c := by
  induction order generalizing templates with
  | nil => exact Or.inl h
  | cons y order ih =>
    rcases ih h with hy | ⟨hx, hc⟩
    · unfold enterTemplate at hy
      split at hy
      · next c hc =>
        rw [Std.TreeMap.getElem?_insert] at hy
        split at hy
        · next e =>
          obtain rfl := Std.LawfulEqCmp.compare_eq_iff_eq.mp e
          exact Or.inr ⟨List.mem_cons_self, c, hc, (Option.some.inj hy).symm⟩
        · exact Or.inl hy
      · exact Or.inl hy
    · exact Or.inr ⟨List.mem_cons_of_mem _ hx, hc⟩

/-- **The templates of a rule that was read** are the shapes of some cells in sight, those of the
product and all that they list among them. -/
theorem template?_of_compile (h : Rule.compile sp id = .ok rule) :
    ∃ ids : List CellId, (∀ x ∈ rule.product, x ∈ ids) ∧
      (∀ x ∈ ids, ∃ c, sp.find? x = some c ∧ ∀ b ∈ c.boundary, b ∈ ids) ∧
      ∀ x t, rule.template? x = some t ↔ x ∈ ids ∧ ∃ c, sp.find? x = some c ∧ t = .ofCell c := by
  obtain ⟨_, _, htemplates⟩ := compile_holds h
  obtain ⟨order, horder, hfold⟩ := Outcome.map_eq_ok.mp htemplates
  have hclosed : ∀ x ∈ order, ∃ c, sp.find? x = some c ∧ ∀ b ∈ c.boundary, b ∈ order := by
    intro x hx
    obtain ⟨ids, hnext, hids⟩ := Branching.preorder_next horder x hx
    obtain ⟨c, hc, rfl⟩ := Outcome.map_eq_ok.mp hnext
    exact ⟨c, Lookup.resolve_eq_ok.mp hc, fun b hb => hids b (List.mem_reverse.mpr hb)⟩
  refine ⟨order, fun x hx => ?_, hclosed, fun x t => ?_⟩
  · exact (Branching.mem_preorder horder).mpr
      (Branching.reached_of_mem (List.mem_reverse.mpr hx))
  · unfold Rule.template?
    rw [← hfold]
    refine ⟨fun ht => ?_, ?_⟩
    · refine (of_getElem?_enterTemplates ht).resolve_left fun hnone => ?_
      rw [Std.TreeMap.getElem?_emptyc] at hnone
      cases hnone
    · rintro ⟨hx, c, hc, rfl⟩
      exact getElem?_enterTemplates hc (Or.inl hx)

/-- **The templates of a rule that was read hold together.** -/
theorem founded_of_compile (hsp : sp.Reachable) (h : Rule.compile sp id = .ok rule) :
    rule.Founded := by
  obtain ⟨ids, hproduct, hclosed, htemplate⟩ := template?_of_compile h
  refine ⟨fun x hx => ?_, fun {x t} ht b hb => ?_⟩
  · obtain ⟨c, hc, _⟩ := hclosed x (hproduct x hx)
    exact ⟨.ofCell c, (htemplate x _).mpr ⟨hproduct x hx, c, hc, rfl⟩⟩
  · obtain ⟨hx, c, hc, rfl⟩ := (htemplate x t).mp ht
    obtain ⟨d, hd, hfaces⟩ := hclosed x hx
    cases hc.symm.trans hd
    obtain ⟨f, hf, _⟩ := hclosed b (hfaces b hb)
    exact ⟨.ofCell f, (htemplate b _).mpr ⟨hfaces b hb, f, hf, rfl⟩, hsp.lower hc hb hf⟩

end Space

/-! ## 4. Applying a rule that was read -/

/-- **What can be made one after the other is staged without blame**: a template lies on cells that
are bound or made before. -/
theorem unblamed_stage {sp : Space} {rule : Rule} {bindings : Std.TreeMap CellId CellId}
    {plan : List CellId} (h : rule.Ordered bindings.contains plan.reverse) :
    Unblamed (stage sp rule bindings plan) := by
  have hnodup := List.nodup_reverse.mp h.nodup
  have hfree : ∀ x ∈ plan, bindings[x]? = none := fun x hx => by
    have hx := h.free x (List.mem_reverse.mpr hx)
    rwa [Std.TreeMap.contains_eq_isSome_getElem?, Option.isSome_eq_false_iff,
      Option.isNone_iff_eq_none] at hx
  refine unblamed_foldlM fun done x rest st hplan hdone => ?_
  subst hplan
  obtain ⟨cs, hbuilt⟩ := built_stage (List.nodup_append.mp hnodup).1
    (fun y hy => hfree y (List.mem_append_left _ hy)) hdone
  rw [List.reverse_append, List.reverse_cons, List.append_assoc] at h
  obtain ⟨t, ht, hfaces⟩ := h.faces
  -- every face stands for a cell by now
  have hstand : ∀ b ∈ t.boundary, ∃ y, st.standIn rule b = .ok y := fun b hb => by
    have hsome : (st.bindings[b]?).isSome = true := by
      rw [hbuilt.bindings, Option.isSome_or]
      rcases hfaces b hb with hbound | hmade
      · rw [← Std.TreeMap.contains_eq_isSome_getElem?, hbound, Bool.true_or]
      · have hidx : (done.idxOf? b).isSome = true := by
          simpa using hmade
        rw [Option.isSome_map, hidx, Bool.or_true]
    exact (Option.isSome_iff_exists.mp hsome).imp fun y => Staging.standIn_eq_ok.mpr
  obtain ⟨ys, hys⟩ := Outcome.mapM_isOk hstand
  unfold Staging.make
  rw [ht]
  dsimp only
  rw [hys]
  exact unblamed_make.bind fun c _ => unblamed_ok _

/-- **A rule that was read is planned, whatever is bound**: the walk that remembers only what it has
written down ends, and what it has written down then is the plan. The plan repeats nothing, holds
exactly the cells that are reached from unbound product cells through unbound cells, each after the
cells of its boundary that are not bound, and the product cells by dimension and then in the order
of the product. So applying the rule, to any selection of any space, finds no rule malformed. -/
theorem compile_planned {sp : Space} {id : CellId} {rule : Rule} (hsp : sp.Reachable)
    (hcompile : Rule.compile sp id = .ok rule) :
    (∀ isBound : CellId → Bool, ∃ plan, rule.plan isBound = .ok plan ∧
        rule.Runs isBound ([], (rule.wanted isBound).map .enter) (plan.reverse, []) ∧
        plan.Nodup ∧ (∀ x, x ∈ plan ↔ rule.Needs isBound x) ∧
        (∀ pre x post, plan = pre ++ x :: post → ∃ t, rule.template? x = some t ∧
          ∀ b ∈ t.boundary, isBound b = true ∨ b ∈ pre) ∧
        plan.Pairwise fun x y => x ∈ rule.product → y ∈ rule.product → rule.Before x y) ∧
      ∀ (sp' : Space) (selection : List CellId) (cell : CellId) (fault : RuleFault),
        ((Space.rewrite rule selection).apply sp').1 ≠ .error (.malformedRule cell fault) := by
  have hfounded := Space.founded_of_compile hsp hcompile
  refine ⟨fun isBound => ?_, fun sp' selection => ?_⟩
  · obtain ⟨plan, hplan, hruns, hordered, hneeds, hsorted⟩ := hfounded.exists_plan isBound
    refine ⟨plan, hplan, hruns, List.nodup_reverse.mp hordered.nodup, hneeds, ?_, hsorted⟩
    rintro pre x post rfl
    rw [List.reverse_append, List.reverse_cons, List.append_assoc] at hordered
    obtain ⟨t, ht, hfaces⟩ := hordered.faces
    exact ⟨t, ht, fun b hb => (hfaces b hb).imp_right List.mem_reverse.mp⟩
  · have hprepare : Unblamed (sp'.prepare rule selection) := by
      refine unblamed_matchRule.bind fun m _ => ?_
      obtain ⟨plan, hplan, _, hordered, _⟩ := hfounded.exists_plan m.bindings.contains
      rw [hplan]
      exact (unblamed_stage hordered).bind fun st _ => unblamed_ok _
    exact Edit.unblamed_bind (Edit.unblamed_decide hprepare.map) fun prepared _ _ =>
      Edit.unblamed_bind unblamed_commit fun _ _ _ => unblamed_ok _

/-- "A point is kept; a new one is linked to it, and there is one more new point." -/
def linkClauses : List Clause :=
  [.patternPoint Label.wildcard, .replacementPoint "kept", .producePoint "new",
    .produce "link" [⟨0, 2⟩, ⟨0, 3⟩], .producePoint "late", .bind ⟨0, 1⟩ ⟨0, 2⟩]

/-- The rule alone. -/
def linkStore : Store := runAll (.empty 0) [.writeRule "link" linkClauses true, .buildIndex]

/-- Where the kept point is bound, everything else is planned, and applying the rule does not blame
it. -/
theorem compile_planned_linkStore :
    ∃ rule plan, linkStore.Reachable ∧ Rule.compile (.ofStore linkStore) ⟨0, 0⟩ = .ok rule ∧
      rule.plan (· == ⟨0, 2⟩) = .ok plan ∧ plan.Nodup ∧
      (∀ x ∈ [⟨0, 3⟩, ⟨0, 4⟩, ⟨0, 5⟩], x ∈ plan) ∧ ⟨0, 2⟩ ∉ plan ∧
      ∀ cell fault, ((Space.rewrite rule [⟨0, 1⟩]).apply (.ofStore linkStore)).1 ≠
        .error (.malformedRule cell fault) := by
  have hreach : linkStore.Reachable := (Store.Reachable.empty 0).runAll _
  obtain ⟨rule, hcompile, _, _, hproduct⟩ := Space.exists_compile_ofStore ⟨0, 0⟩ 1
    [⟨⟨0, 1⟩, 0, .any, some ⟨0, 2⟩⟩] [⟨0, 3⟩, ⟨0, 4⟩, ⟨0, 5⟩] hreach
    (by decide +kernel) (by decide +kernel) (by decide +kernel) (by decide +kernel)
  obtain ⟨hplanned, hblame⟩ := compile_planned hreach.space hcompile
  obtain ⟨plan, hplan, _, hnodup, hneeds, _⟩ := hplanned (· == ⟨0, 2⟩)
  refine ⟨rule, plan, hreach, hcompile, hplan, hnodup, fun x hx => ?_, fun hmem => ?_,
    hblame (.ofStore linkStore) [⟨0, 1⟩]⟩
  · have hfree : ∀ x ∈ [⟨0, 3⟩, ⟨0, 4⟩, (⟨0, 5⟩ : CellId)], (x == ⟨0, 2⟩) = false := by decide
    exact (hneeds x).mpr (.product (hproduct ▸ hx) (hfree x hx))
  · have hfree := ((hneeds _).mp hmem).free
    cases hfree

end CellComplex
