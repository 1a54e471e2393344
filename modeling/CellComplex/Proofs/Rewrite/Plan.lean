import CellComplex.Proofs.Outcome
import CellComplex.Rewrite.Plan
import Mathlib.Data.List.Nodup

/-!
# What is planned

Planning walks down from the product cells and writes a cell down when it leaves it. What comes of
it, without the steps of the walk:

* `pending`: the cells that are entered and still to be left;
* `Planning`: the invariant -- what was entered is written down or pending, once, and is not bound;
* `planFrom_holds`: at the end nothing is pending, and whatever was to be entered is written down;
* **`plan_holds`**: a plan repeats nothing, holds nothing bound, and holds every product cell that
  is not bound;
* `plan_of_sorted`: what is planned where nothing has to be sorted;
* `plan_single`: what is planned for one cell over bound ones.
-/

namespace CellComplex

/-- The cells that some steps still leave. -/
def pending (steps : List Visit) : List CellId :=
  steps.filterMap fun
    | .leave id => some id
    | .enter _ => none

@[simp] theorem pending_nil : pending [] = [] := rfl

@[simp] theorem pending_leave {id : CellId} {rest : List Visit} :
    pending (.leave id :: rest) = id :: pending rest := rfl

/-- Entering a boundary leaves nothing. -/
theorem pending_enters {ids : List CellId} {rest : List Visit} :
    pending (ids.map .enter ++ rest) = pending rest := by
  induction ids with
  | nil => rfl
  | cons id ids ih => exact ih

namespace Rule

variable {rule : Rule} {isBound : CellId → Bool} {entered : CellSet} {planned plan : List CellId}
variable {steps rest : List Visit} {id x : CellId}

/-- **The invariant of planning**: the cells entered are those written down and those pending, each
once, and none is bound. -/
structure Planning (isBound : CellId → Bool) (entered : CellSet) (planned : List CellId)
    (steps : List Visit) : Prop where
  nodup : (planned ++ pending steps).Nodup
  mem_entered : ∀ x, x ∈ entered ↔ x ∈ planned ++ pending steps
  unbound : ∀ x ∈ planned ++ pending steps, isBound x = false

theorem planning_start {ids : List CellId} :
    Planning isBound ∅ [] (ids.map .enter) := by
  have hnone : pending (ids.map .enter) = [] := by
    rw [← List.append_nil (ids.map _), pending_enters]
    rfl
  constructor <;> simp [hnone]

/-- A cell that is left is written down. -/
theorem Planning.leave (h : Planning isBound entered planned (.leave id :: rest)) :
    Planning isBound entered (id :: planned) rest := by
  have hperm : (planned ++ pending (.leave id :: rest)).Perm (id :: planned ++ pending rest) :=
    List.perm_middle
  exact ⟨hperm.nodup_iff.mp h.nodup, fun x => (h.mem_entered x).trans hperm.mem_iff,
    fun x hx => h.unbound x (hperm.mem_iff.mpr hx)⟩

theorem Planning.skip (h : Planning isBound entered planned (.enter id :: rest)) :
    Planning isBound entered planned rest := ⟨h.nodup, h.mem_entered, h.unbound⟩

/-- A cell that is entered is pending, after its boundary. -/
theorem Planning.enter (h : Planning isBound entered planned (.enter id :: rest))
    (hnew : id ∉ entered) (hfree : isBound id = false) (boundary : List CellId) :
    Planning isBound (entered.insert id) planned
      (boundary.map .enter ++ .leave id :: rest) := by
  have hpending : pending (boundary.map .enter ++ .leave id :: rest) = id :: pending rest := by
    rw [pending_enters, pending_leave]
  have hperm : (planned ++ id :: pending rest).Perm (id :: (planned ++ pending rest)) :=
    List.perm_middle
  have hfresh : id ∉ planned ++ pending rest := fun hmem => hnew ((h.mem_entered id).mpr hmem)
  refine ⟨?_, fun x => ?_, fun x hx => ?_⟩
  · rw [hpending, hperm.nodup_iff]
    exact List.nodup_cons.mpr ⟨hfresh, h.nodup⟩
  · rw [hpending, hperm.mem_iff, List.mem_cons, Std.TreeSet.mem_insert,
      Std.LawfulEqCmp.compare_eq_iff_eq, h.mem_entered x]
    exact or_congr_left eq_comm
  · rw [hpending, hperm.mem_iff, List.mem_cons] at hx
    rcases hx with rfl | hx
    · exact hfree
    · exact h.unbound x hx

/-- **At the end of planning** nothing is lost: what was written down, what was pending and what was
to be entered is in the plan, each cell once, and none is bound. -/
theorem planFrom_holds (h : Planning isBound entered planned steps)
    (hplan : rule.planFrom isBound entered planned steps = .ok plan) :
    plan.Nodup ∧ (∀ x ∈ plan, isBound x = false) ∧ (∀ x ∈ planned ++ pending steps, x ∈ plan) ∧
      ∀ x, Visit.enter x ∈ steps → isBound x = false → x ∈ plan := by
  fun_induction rule.planFrom isBound entered planned steps generalizing plan with
  | case1 entered planned =>
    cases hplan
    have hnodup := h.nodup
    have hunbound := h.unbound
    rw [pending_nil, List.append_nil] at hnodup hunbound ⊢
    exact ⟨List.nodup_reverse.mpr hnodup, fun x hx => hunbound x (List.mem_reverse.mp hx),
      fun x hx => List.mem_reverse.mpr hx, fun x hx => absurd hx List.not_mem_nil⟩
  | case2 entered planned id rest ih =>
    obtain ⟨hnodup, hunbound, hkeep, henter⟩ := ih h.leave hplan
    refine ⟨hnodup, hunbound, fun x hx => hkeep x ?_, fun x hx => henter x ?_⟩
    · exact List.perm_middle.mem_iff.mp hx
    · exact (List.mem_cons.mp hx).resolve_left fun e => by cases e
  | case3 entered planned id rest hskip ih =>
    obtain ⟨hnodup, hunbound, hkeep, henter⟩ := ih h.skip hplan
    refine ⟨hnodup, hunbound, hkeep, fun x hx hfree => ?_⟩
    rcases List.mem_cons.mp hx with e | hx
    · -- a cell that is skipped is bound, or was entered before
      obtain rfl : x = id := Visit.enter.inj e
      have hentered : x ∈ entered := by simpa [hfree] using hskip
      exact hkeep x ((h.mem_entered x).mp hentered)
    · exact henter x hx hfree
  | case4 entered planned id rest hskip ht => cases hplan
  | case5 entered planned id rest hskip t ht ih =>
    rw [Bool.or_eq_true, not_or, Bool.not_eq_true, Bool.not_eq_true] at hskip
    have hnew : id ∉ entered := fun hmem => by
      have hcontains : entered.contains id = true := hmem
      rw [hskip.1] at hcontains
      cases hcontains
    obtain ⟨hnodup, hunbound, hkeep, henter⟩ := ih (h.enter hnew hskip.2 t.boundary) hplan
    rw [pending_enters, pending_leave] at hkeep
    refine ⟨hnodup, hunbound, fun x hx => hkeep x ?_, fun x hx hfree => ?_⟩
    · exact List.perm_middle.mem_iff.mpr (List.mem_cons_of_mem _ hx)
    · rcases List.mem_cons.mp hx with e | hx
      · obtain rfl : x = id := Visit.enter.inj e
        exact hkeep x (List.mem_append_right _ List.mem_cons_self)
      · exact henter x (List.mem_append_right _ (List.mem_cons_of_mem _ hx)) hfree

/-- The product cells that are not bound, in the order of the product. -/
theorem unboundProduct_map {roots : List (Nat × CellId)}
    (h : rule.unboundProduct isBound = .ok roots) :
    roots.map Prod.snd = rule.product.filter fun id => !isBound id := by
  unfold unboundProduct at h
  generalize rule.product.filter (fun id => !isBound id) = ids at h
  have hall := Outcome.mapM_eq_ok.mp h
  clear h
  induction hall with
  | nil => rfl
  | cons hroot _ ih =>
    rw [List.map_cons, ih]
    split at hroot
    · cases hroot
      rfl
    · cases hroot

/-- **A plan repeats nothing, holds nothing bound, and holds every product cell that is not
bound.** -/
theorem plan_holds (h : rule.plan isBound = .ok plan) :
    plan.Nodup ∧ (∀ x ∈ plan, isBound x = false) ∧
      ∀ x ∈ rule.product, isBound x = false → x ∈ plan := by
  obtain ⟨roots, hroots, hplan⟩ := Outcome.bind_eq_ok.mp h
  have hsteps : ∀ roots : List (Nat × CellId),
      roots.map (fun root => Visit.enter root.2) = (roots.map Prod.snd).map .enter :=
    fun roots => List.map_map.symm
  dsimp only at hplan
  rw [hsteps] at hplan
  obtain ⟨hnodup, hunbound, _, henter⟩ := planFrom_holds planning_start hplan
  refine ⟨hnodup, hunbound, fun x hx hfree => henter x (List.mem_map_of_mem ?_) hfree⟩
  rw [((List.mergeSort_perm roots _).map Prod.snd).mem_iff, unboundProduct_map hroots]
  exact List.mem_filter.mpr ⟨hx, by rw [hfree]; rfl⟩

/-- Cells that are bound are skipped. -/
theorem planFrom_skips {ids : List CellId} (h : ∀ x ∈ ids, isBound x = true) :
    rule.planFrom isBound entered planned (ids.map .enter ++ rest) =
      rule.planFrom isBound entered planned rest := by
  induction ids with
  | nil => rfl
  | cons x ids ih =>
    have hskip : (entered.contains x || isBound x) = true := by
      simp [h x List.mem_cons_self]
    rw [List.map_cons, List.cons_append, planFrom, dif_pos hskip]
    exact ih fun y hy => h y (List.mem_cons_of_mem _ hy)

/-- Product cells that stand by rising dimension are entered as they stand. -/
theorem plan_of_sorted {roots : List (Nat × CellId)}
    (hroots : rule.unboundProduct isBound = .ok roots)
    (hsorted : roots.Pairwise fun a b => a.1 ≤ b.1) :
    rule.plan isBound = rule.planFrom isBound ∅ [] (roots.map fun root => .enter root.2) := by
  have hsame : (roots.mergeSort fun a b => a.1 ≤ b.1) = roots :=
    List.mergeSort_of_pairwise (hsorted.imp decide_eq_true)
  unfold plan
  rw [hroots]
  show rule.planFrom isBound ∅ [] (List.map _ (roots.mergeSort _)) = _
  rw [hsame]

/-- **A product of one cell over cells that are bound is planned as it stands.** -/
theorem plan_single {t : Template} (hproduct : rule.product = [id])
    (ht : rule.template? id = some t)
    (hfree : isBound id = false) (hbound : ∀ x ∈ t.boundary, isBound x = true) :
    rule.plan isBound = .ok [id] := by
  have hroots : rule.unboundProduct isBound = .ok [(t.dimension, id)] := by
    simp [unboundProduct, hproduct, hfree, ht]
  have hskip : ¬ ((∅ : CellSet).contains id || isBound id) = true := by
    simp [hfree]
  rw [plan_of_sorted hroots (List.pairwise_singleton _ _), List.map_singleton, planFrom,
    dif_neg hskip]
  split
  · next hnone =>
    rw [ht] at hnone
    cases hnone
  · next t' ht' =>
    cases ht.symm.trans ht'
    rw [planFrom_skips hbound, planFrom, planFrom]
    rfl

end Rule

end CellComplex
