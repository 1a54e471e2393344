import CellComplex.Proofs.Rewrite.Plan
import Mathlib.Logic.Relation
import Mathlib.Order.Nat

/-!
# In which order the product is planned

Planning is a walk from the product cells down, and a cell is written down when it is left. If
templates list lower cells only, nothing is met again on the way down. So the walk needs to remember
no more than what it has written down, and every cell comes after the cells it lies on.

* `Rule.Founded`: every product cell has a template, and what a template lists has a lower one;
* `Rule.Needs`: the cells to be made; `Rule.Ordered`: cells that can be made one after the other;
* `Rule.planNext`, `Rule.Runs`: the walk that remembers only what it has written down;
* `Rule.Visited`: what comes of looking at some cells, for planning and for the walk;
* **`Founded.visitable`**: a visit of a cell writes it down after what is missing below it, by
  induction on its dimension; `exists_visited_row`: a visit of a boundary;
* `Rule.Queue`: the invariant of planning product cell after product cell; `queue_start`: sorting by
  dimension gives it; `Queue.exists_visited`: what comes of a queue;
* **`Founded.exists_plan`**: there is a plan, and what it is.
-/

namespace CellComplex

namespace Rule

/-! ## 1. Rules whose templates hold together -/

/-- **Every product cell has a template, and what a template lists has a lower one.** -/
structure Founded (rule : Rule) : Prop where
  product : ∀ id ∈ rule.product, ∃ t, rule.template? id = some t
  lower : ∀ {id : CellId} {t : Template}, rule.template? id = some t → ∀ b ∈ t.boundary,
    ∃ u, rule.template? b = some u ∧ u.dimension < t.dimension

/-- The dimension of a cell of the product side. -/
def height (rule : Rule) (id : CellId) : Nat := ((rule.template? id).map Template.dimension).getD 0

/-- **The cells to be made**: those that are reached from unbound product cells through unbound
cells. -/
inductive Needs (rule : Rule) (isBound : CellId → Bool) : CellId → Prop where
  | product {id : CellId} (hid : id ∈ rule.product) (hfree : isBound id = false) :
      Needs rule isBound id
  | face {id b : CellId} {t : Template} (h : Needs rule isBound id)
      (ht : rule.template? id = some t) (hb : b ∈ t.boundary) (hfree : isBound b = false) :
      Needs rule isBound b

/-- **Cells that can be made one after the other**, latest first: each is new, is not bound, and
lies on bound cells and on cells made before. -/
inductive Ordered (rule : Rule) (isBound : CellId → Bool) : List CellId → Prop where
  | nil : Ordered rule isBound []
  | cons {id : CellId} {planned : List CellId} {t : Template} (h : Ordered rule isBound planned)
      (hnew : id ∉ planned) (hfree : isBound id = false) (ht : rule.template? id = some t)
      (hfaces : ∀ b ∈ t.boundary, isBound b = true ∨ b ∈ planned) :
      Ordered rule isBound (id :: planned)

/-- **Which of two product cells is made first**: the lower one, and of two cells of one dimension
the one that the product lists first. -/
def Before (rule : Rule) (x y : CellId) : Prop :=
  rule.height x < rule.height y ∨
    rule.height x = rule.height y ∧ rule.product.idxOf x < rule.product.idxOf y

variable {rule : Rule} {isBound : CellId → Bool} {entered entered' entered'' : CellSet}
variable {planned made made' ids ids' row row' done roots : List CellId} {id x y b : CellId}
variable {t : Template} {n : Nat}

theorem height_eq (ht : rule.template? id = some t) : rule.height id = t.dimension := by
  rw [height, ht]
  rfl

theorem Needs.free (h : rule.Needs isBound id) : isBound id = false := by
  cases h <;> assumption

/-- What is to be made has a template. -/
theorem Founded.template (hf : rule.Founded) (h : rule.Needs isBound id) :
    ∃ t, rule.template? id = some t := by
  cases h with
  | product hid _ => exact hf.product id hid
  | face _ ht hb _ =>
    obtain ⟨u, hu, _⟩ := hf.lower ht _ hb
    exact ⟨u, hu⟩

/-- What a template lists is lower. -/
theorem Founded.height_lt (hf : rule.Founded) (ht : rule.template? id = some t)
    (hb : b ∈ t.boundary) : rule.height b < rule.height id := by
  obtain ⟨u, hu, hlt⟩ := hf.lower ht b hb
  rwa [height_eq hu, height_eq ht]

theorem Ordered.nodup (h : rule.Ordered isBound planned) : planned.Nodup := by
  induction h with
  | nil => exact List.nodup_nil
  | cons _ hnew _ _ _ ih => exact List.nodup_cons.mpr ⟨hnew, ih⟩

theorem Ordered.free (h : rule.Ordered isBound planned) : ∀ x ∈ planned, isBound x = false := by
  induction h with
  | nil => exact fun x hx => absurd hx List.not_mem_nil
  | cons _ _ hfree _ _ ih => exact List.forall_mem_cons.mpr ⟨hfree, ih⟩

/-- **A cell comes after the cells that it lies on**, those that are bound apart. -/
theorem Ordered.faces (h : rule.Ordered isBound (ids ++ x :: planned)) :
    ∃ t, rule.template? x = some t ∧ ∀ b ∈ t.boundary, isBound b = true ∨ b ∈ planned := by
  induction ids with
  | nil =>
    cases h with
    | cons _ _ _ ht hfaces => exact ⟨_, ht, hfaces⟩
  | cons y ids ih =>
    cases h with
    | cons h _ _ _ _ => exact ih h

theorem Before.irrefl : ¬ rule.Before x x := by
  rintro (h | ⟨_, h⟩) <;> exact Nat.lt_irrefl _ h

/-- One of two product cells is made first. -/
theorem before_or_before (hx : x ∈ rule.product) (hne : x ≠ y) :
    rule.Before x y ∨ rule.Before y x := by
  have hidx : rule.product.idxOf x ≠ rule.product.idxOf y := fun e =>
    hne ((List.idxOf_inj hx).mp e)
  unfold Before
  omega

/-! ## 2. The walk -/

/-- **One step of a walk that remembers only what it has written down**, latest first, and the steps
still to take. -/
def planNext (rule : Rule) (isBound : CellId → Bool) :
    List CellId × List Visit → Option (List CellId × List Visit)
  | (_, []) => none
  | (planned, .leave id :: rest) =>
    if planned.contains id || isBound id then some (planned, rest)
    else some (id :: planned, rest)
  | (planned, .enter id :: rest) =>
    if planned.contains id || isBound id then some (planned, rest)
    else (rule.template? id).map fun t =>
      (planned, (t.boundary.filter fun b => !(planned.contains b || isBound b)).map .enter ++
        .leave id :: rest)

/-- Any number of steps of the walk. -/
def Runs (rule : Rule) (isBound : CellId → Bool) :
    List CellId × List Visit → List CellId × List Visit → Prop :=
  Relation.ReflTransGen fun st st' => rule.planNext isBound st = some st'

theorem planNext_skip {rest : List Visit} (h : x ∈ planned ∨ isBound x = true) :
    rule.planNext isBound (planned, .enter x :: rest) = some (planned, rest) := by
  have hskip : (planned.contains x || isBound x) = true := by simpa using h
  exact if_pos hskip

theorem planNext_enter {rest : List Visit} (hnew : x ∉ planned) (hfree : isBound x = false)
    (ht : rule.template? x = some t) :
    rule.planNext isBound (planned, .enter x :: rest) =
      some (planned, (t.boundary.filter fun b => !(planned.contains b || isBound b)).map .enter ++
        .leave x :: rest) := by
  have hgo : ¬ (planned.contains x || isBound x) = true := by simp [hnew, hfree]
  refine (if_neg hgo).trans ?_
  rw [ht]
  rfl

theorem planNext_leave {rest : List Visit} (hnew : x ∉ planned) (hfree : isBound x = false) :
    rule.planNext isBound (planned, .leave x :: rest) = some (x :: planned, rest) := by
  have hgo : ¬ (planned.contains x || isBound x) = true := by simp [hnew, hfree]
  exact if_neg hgo

/-- Planning skips what was entered. -/
theorem planFrom_skip {rest : List Visit} (h : x ∈ entered ∨ isBound x = true) :
    rule.planFrom isBound entered planned (.enter x :: rest) =
      rule.planFrom isBound entered planned rest := by
  have hskip : (entered.contains x || isBound x) = true :=
    Bool.or_eq_true_iff.mpr h
  rw [planFrom, dif_pos hskip]

theorem planFrom_enter {rest : List Visit} (hnew : x ∉ entered) (hfree : isBound x = false)
    (ht : rule.template? x = some t) :
    rule.planFrom isBound entered planned (.enter x :: rest) =
      rule.planFrom isBound (entered.insert x) planned
        (t.boundary.map .enter ++ .leave x :: rest) := by
  have hgo : ¬ (entered.contains x || isBound x) = true := by
    rw [hfree, Bool.or_false]
    exact hnew
  rw [planFrom, dif_neg hgo]
  split
  · next hnone => cases ht.symm.trans hnone
  · next t' ht' =>
    cases ht.symm.trans ht'
    rfl

/-! ## 3. Visits -/

/-- **What comes of looking at some cells**: planning writes down `made`, latest first, and goes on.
So does the walk, which may look at fewer of them. -/
structure Visited (rule : Rule) (isBound : CellId → Bool) (entered : CellSet)
    (planned ids ids' : List CellId) (entered' : CellSet) (made : List CellId) : Prop where
  plan : ∀ rest, rule.planFrom isBound entered planned (ids.map .enter ++ rest) =
    rule.planFrom isBound entered' (made ++ planned) rest
  runs : ∀ rest, rule.Runs isBound (planned, ids'.map .enter ++ rest) (made ++ planned, rest)
  mem_entered : ∀ x, x ∈ entered' ↔ x ∈ made ∨ x ∈ entered
  ordered : rule.Ordered isBound (made ++ planned)
  needed : ∀ x ∈ made, rule.Needs isBound x

/-- Looking at no cell. -/
theorem Visited.nil (hordered : rule.Ordered isBound planned) :
    rule.Visited isBound entered planned [] [] entered [] where
  plan _ := rfl
  runs _ := .refl
  mem_entered _ := (or_iff_right List.not_mem_nil).symm
  ordered := hordered
  needed _ hx := absurd hx List.not_mem_nil

/-- Looking at some cells and then at others. -/
theorem Visited.append (h : rule.Visited isBound entered planned ids ids' entered' made)
    (h' : rule.Visited isBound entered' (made ++ planned) row row' entered'' made') :
    rule.Visited isBound entered planned (ids ++ row) (ids' ++ row') entered''
      (made' ++ made) where
  plan rest := by
    rw [List.map_append, List.append_assoc, h.plan, h'.plan, List.append_assoc]
  runs rest := by
    rw [List.map_append, List.append_assoc, List.append_assoc]
    exact (h.runs _).trans (h'.runs rest)
  mem_entered x := by
    rw [h'.mem_entered, h.mem_entered, List.mem_append, or_assoc]
  ordered := by
    rw [List.append_assoc]
    exact h'.ordered
  needed x hx := (List.mem_append.mp hx).elim (h'.needed x) (h.needed x)

/-- A cell that is written down or bound is skipped, and the walk may even not look at it. -/
theorem Visited.skip (h : x ∈ planned ∨ isBound x = true) (hplanned : ∀ y ∈ planned, y ∈ entered)
    (hordered : rule.Ordered isBound planned) (hids : ids' = [] ∨ ids' = [x]) :
    rule.Visited isBound entered planned [x] ids' entered [] where
  plan rest := planFrom_skip (h.imp_left (hplanned x))
  runs rest := by
    rcases hids with rfl | rfl
    · exact .refl
    · exact .single (planNext_skip h)
  mem_entered y := (or_iff_right List.not_mem_nil).symm
  ordered := hordered
  needed y hy := absurd hy List.not_mem_nil

/-- **What planning has entered** is written down, except cells from some height on that are still
to be left. -/
structure Above (rule : Rule) (n : Nat) (entered : CellSet) (planned : List CellId) : Prop where
  entered_of_mem : ∀ x ∈ planned, x ∈ entered
  above : ∀ x ∈ entered, x ∈ planned ∨ n ≤ rule.height x

theorem Above.mono {m : Nat} (h : rule.Above n entered planned) (hm : m ≤ n) :
    rule.Above m entered planned :=
  ⟨h.entered_of_mem, fun x hx => (h.above x hx).imp_right hm.trans⟩

theorem Above.after (h : rule.Above n entered planned)
    (hvisit : rule.Visited isBound entered planned ids ids' entered' made) :
    rule.Above n entered' (made ++ planned) := by
  constructor
  · intro x hx
    rw [hvisit.mem_entered]
    exact (List.mem_append.mp hx).imp_right (h.entered_of_mem x)
  · intro x hx
    rw [List.mem_append, or_assoc]
    exact ((hvisit.mem_entered x).mp hx).imp_right (h.above x)

/-- **A cell that can be visited**: whenever only higher cells are still to be left, it is written
down after lower cells. -/
def Visitable (rule : Rule) (isBound : CellId → Bool) (id : CellId) : Prop :=
  ∀ entered planned, rule.Ordered isBound planned →
    rule.Above (rule.height id + 1) entered planned → id ∉ planned → ∃ entered' made,
      rule.Visited isBound entered planned [id] [id] entered' (id :: made) ∧
        ∀ x ∈ made, rule.height x < rule.height id

/-- **A visit of a boundary**, where the walk may leave out what was written down (`done`) or bound
before. -/
theorem exists_visited_row
    (hvisit : ∀ b ∈ ids, isBound b = false → rule.Visitable isBound b ∧ rule.height b < n)
    (hordered : rule.Ordered isBound planned) (habove : rule.Above n entered planned)
    (hdone : ∀ x ∈ done, x ∈ planned) : ∃ entered' made,
      rule.Visited isBound entered planned ids
        (ids.filter fun b => !(done.contains b || isBound b)) entered' made ∧
      (∀ b ∈ ids, isBound b = true ∨ b ∈ made ++ planned) ∧ ∀ x ∈ made, rule.height x < n := by
  induction ids generalizing entered planned with
  | nil =>
    refine ⟨entered, [], .nil hordered, ?_, ?_⟩
    all_goals exact fun x hx => absurd hx List.not_mem_nil
  | cons b ids ih =>
    have hrest := fun z hz => hvisit z (List.mem_cons_of_mem _ hz)
    by_cases hb : b ∈ planned ∨ isBound b = true
    · -- the first cell is skipped, and the walk has not even put it on its list, or skips it
      obtain ⟨entered', made, hrow, hmade, hlow⟩ := ih hrest hordered habove hdone
      have hskip : ∀ ids', ids' = [] ∨ ids' = [b] →
          rule.Visited isBound entered planned [b] ids' entered [] := fun ids' hids =>
        Visited.skip hb habove.entered_of_mem hordered hids
      refine ⟨entered', made, ?_, List.forall_mem_cons.mpr ⟨?_, hmade⟩, hlow⟩
      · rw [List.filter_cons, ← List.append_nil made]
        split
        · exact (hskip [b] (Or.inr rfl)).append hrow
        · exact (hskip [] (Or.inl rfl)).append hrow
      · exact hb.symm.imp_right (List.mem_append_right _)
    · -- the first cell is visited
      obtain ⟨hnew, hfree⟩ := not_or.mp hb
      rw [Bool.not_eq_true] at hfree
      obtain ⟨hcan, hlt⟩ := hvisit b List.mem_cons_self hfree
      obtain ⟨entered₁, below, hfirst, hbelow⟩ :=
        hcan entered planned hordered (habove.mono hlt) hnew
      obtain ⟨entered', made, hrow, hmade, hlow⟩ := ih hrest hfirst.ordered
        (habove.after hfirst) fun x hx => List.mem_append_right _ (hdone x hx)
      have hgo : (!(done.contains b || isBound b)) = true := by
        simpa [hfree] using fun hmem => hnew (hdone b hmem)
      refine ⟨entered', made ++ (b :: below), ?_, List.forall_mem_cons.mpr ⟨?_, ?_⟩, ?_⟩
      · rw [List.filter_cons, if_pos hgo]
        exact hfirst.append hrow
      · exact Or.inr (by simp)
      · simpa only [List.append_assoc] using hmade
      · intro x hx
        rcases List.mem_append.mp hx with hx | hx
        · exact hlow x hx
        · rcases List.mem_cons.mp hx with rfl | hx
          · exact hlt
          · exact (hbelow x hx).trans hlt

/-- **A cell to be made can be visited**, by induction on its dimension: its boundary is visited
while only it and higher cells are still to be left. -/
theorem Founded.visitable (hf : rule.Founded) (h : rule.Needs isBound id) :
    rule.Visitable isBound id := by
  induction hn : rule.height id using Nat.strongRecOn generalizing id with
  | ind n ih =>
    subst hn
    intro entered planned hordered habove hnew
    obtain ⟨t, ht⟩ := hf.template h
    have hentered : id ∉ entered := fun hmem => by
      rcases habove.above id hmem with hmem | hle
      · exact hnew hmem
      · omega
    have hin : ∀ x, x ∈ entered.insert id ↔ x = id ∨ x ∈ entered := fun x => by
      rw [Std.TreeSet.mem_insert, Std.LawfulEqCmp.compare_eq_iff_eq, eq_comm]
    have habove' : rule.Above (rule.height id) (entered.insert id) planned := by
      refine ⟨fun x hx => (hin x).mpr (Or.inr (habove.entered_of_mem x hx)), fun x hx => ?_⟩
      rcases (hin x).mp hx with rfl | hx
      · exact Or.inr le_rfl
      · exact (habove.above x hx).imp_right (Nat.le_succ _).trans
    have hfaces : ∀ b ∈ t.boundary, isBound b = false →
        rule.Visitable isBound b ∧ rule.height b < rule.height id := fun b hb hfree =>
      ⟨ih _ (hf.height_lt ht hb) (h.face ht hb hfree) rfl, hf.height_lt ht hb⟩
    obtain ⟨entered', made, hrow, hmade, hlow⟩ :=
      exists_visited_row hfaces hordered habove' fun x hx => hx
    have hfresh : id ∉ made ++ planned := fun hmem =>
      (List.mem_append.mp hmem).elim (fun hmem => Nat.lt_irrefl _ (hlow id hmem)) hnew
    refine ⟨entered', made, ⟨fun rest => ?_, fun rest => ?_, fun x => ?_, ?_, ?_⟩, hlow⟩
    · refine (planFrom_enter hentered h.free ht).trans ((hrow.plan _).trans ?_)
      rw [planFrom]
      rfl
    · exact .head (planNext_enter hnew h.free ht)
        ((hrow.runs _).tail (planNext_leave hfresh h.free))
    · rw [hrow.mem_entered, hin, List.mem_cons]
      tauto
    · exact .cons hrow.ordered hfresh h.free ht hmade
    · exact List.forall_mem_cons.mpr ⟨h, hrow.needed⟩

/-! ## 4. Product cell after product cell -/

/-- **What holds between two product cells**, where `planned` is written down and `roots` wait:
before a waiting cell come all that are to be made first. -/
structure Queue (rule : Rule) (isBound : CellId → Bool) (planned roots : List CellId) : Prop where
  waiting : ∀ r ∈ roots, r ∈ rule.product ∧ isBound r = false
  ready : ∀ pre y post, roots = pre ++ y :: post → ∀ x ∈ rule.product, isBound x = false →
    rule.Before x y → x ∈ planned ∨ x ∈ pre
  before : ∀ x ∈ planned, x ∈ rule.product → ∀ y ∈ rule.product, isBound y = false →
    y ∉ planned → rule.Before x y
  sorted : planned.Pairwise fun y x => x ∈ rule.product → y ∈ rule.product → rule.Before x y

/-- A waiting cell that is written down is done with. -/
theorem Queue.skip (h : rule.Queue isBound planned (x :: roots)) (hx : x ∈ planned) :
    rule.Queue isBound planned roots where
  waiting r hr := h.waiting r (List.mem_cons_of_mem _ hr)
  ready pre y post hroots z hz hfree hbefore := by
    rcases h.ready (x :: pre) y post (by rw [hroots]; rfl) z hz hfree hbefore with hmem | hmem
    · exact Or.inl hmem
    · rcases List.mem_cons.mp hmem with rfl | hmem
      · exact Or.inl hx
      · exact Or.inr hmem
  before := h.before
  sorted := h.sorted

/-- A waiting cell is written down after cells that are lower, and so are no product cells. -/
theorem Queue.visit (h : rule.Queue isBound planned (x :: roots)) (hx : x ∉ planned)
    (hvisit : rule.Visited isBound entered planned [x] [x] entered' (x :: made))
    (hlow : ∀ z ∈ made, rule.height z < rule.height x) :
    rule.Queue isBound (x :: made ++ planned) roots := by
  obtain ⟨hproduct, -⟩ := h.waiting x List.mem_cons_self
  have hnodup := hvisit.ordered.nodup
  have hfirst : ∀ y ∈ rule.product, isBound y = false → rule.Before y x → y ∈ planned :=
    fun y hy hfree hbefore =>
      (h.ready [] x roots rfl y hy hfree hbefore).resolve_right List.not_mem_nil
  have honly : ∀ z ∈ made, z ∉ rule.product := by
    intro z hz hmem
    have hfree := (hvisit.needed z (List.mem_cons_of_mem _ hz)).free
    refine (List.nodup_append.mp hnodup).2.2 z (List.mem_cons_of_mem _ hz) z ?_ rfl
    exact hfirst z hmem hfree (Or.inl (hlow z hz))
  refine ⟨fun r hr => h.waiting r (List.mem_cons_of_mem _ hr), ?_, ?_, ?_⟩
  · intro pre y post hroots z hz hfree hbefore
    rcases h.ready (x :: pre) y post (by rw [hroots]; rfl) z hz hfree hbefore with hmem | hmem
    · exact Or.inl (List.mem_append_right _ hmem)
    · rcases List.mem_cons.mp hmem with rfl | hmem
      · exact Or.inl List.mem_cons_self
      · exact Or.inr hmem
  · intro z hz hzp y hy hfree hnew
    obtain ⟨hnew, hold⟩ := not_or.mp fun hmem => hnew (List.mem_append.mpr hmem)
    rcases List.mem_append.mp hz with hz | hz
    · obtain rfl : z = x := (List.mem_cons.mp hz).resolve_right fun hz => honly z hz hzp
      have hne : z ≠ y := fun e => hnew (e ▸ List.mem_cons_self)
      exact (before_or_before hzp hne).resolve_right fun hlt => hold (hfirst y hy hfree hlt)
    · exact h.before z hz hzp y hy hfree hold
  · refine List.pairwise_cons.mpr ⟨fun z hz hzp _ => ?_, ?_⟩
    · have hz : z ∈ planned := (List.mem_append.mp hz).resolve_left fun hz => honly z hz hzp
      exact h.before z hz hzp x hproduct (h.waiting x List.mem_cons_self).2 hx
    · refine List.pairwise_append.mpr ⟨?_, h.sorted, fun z hz y _ _ hzp => absurd hzp (honly z hz)⟩
      exact List.pairwise_of_forall_mem_list fun z hz y _ _ hzp => absurd hzp (honly z hz)

/-- **What comes of a queue**: every waiting cell is written down, and the product cells in their
order. -/
theorem Queue.exists_visited (hf : rule.Founded) (h : rule.Queue isBound planned roots)
    (hordered : rule.Ordered isBound planned) (hentered : ∀ x, x ∈ entered ↔ x ∈ planned) :
    ∃ entered' made, rule.Visited isBound entered planned roots roots entered' made ∧
      rule.Queue isBound (made ++ planned) [] ∧ ∀ r ∈ roots, r ∈ made ++ planned := by
  have habove : ∀ n {entered planned}, (∀ x, x ∈ entered ↔ x ∈ planned) →
      rule.Above n entered planned := fun n _ _ h =>
    ⟨fun x => (h x).mpr, fun x hx => Or.inl ((h x).mp hx)⟩
  induction roots generalizing entered planned with
  | nil =>
    exact ⟨entered, [], .nil hordered, h, fun x hx => absurd hx List.not_mem_nil⟩
  | cons x roots ih =>
    by_cases hx : x ∈ planned
    · obtain ⟨entered', made, hrest, hqueue, hall⟩ := ih (h.skip hx) hordered hentered
      have hskip := Visited.skip (Or.inl hx) (fun y => (hentered y).mpr) hordered
        (Or.inr (Eq.refl [x]))
      refine ⟨entered', made, ?_, hqueue, List.forall_mem_cons.mpr ⟨?_, hall⟩⟩
      · rw [← List.append_nil made]
        exact hskip.append hrest
      · exact List.mem_append_right _ hx
    · obtain ⟨hproduct, hfree⟩ := h.waiting x List.mem_cons_self
      obtain ⟨entered₁, below, hvisit, hlow⟩ :=
        hf.visitable (.product hproduct hfree) entered planned hordered (habove _ hentered) hx
      have hentered' : ∀ y, y ∈ entered₁ ↔ y ∈ x :: below ++ planned := fun y => by
        rw [hvisit.mem_entered, hentered, List.mem_append]
      obtain ⟨entered', made, hrest, hqueue, hall⟩ :=
        ih (h.visit hx hvisit hlow) hvisit.ordered hentered'
      refine ⟨entered', made ++ (x :: below), hvisit.append hrest, ?_,
        List.forall_mem_cons.mpr ⟨by simp, ?_⟩⟩
      · simpa only [List.append_assoc] using hqueue
      · simpa only [List.append_assoc] using hall

/-! ## 5. A whole plan -/

/-- **The product cells that are not bound**, lower ones first, and otherwise as the product lists
them. -/
def wanted (rule : Rule) (isBound : CellId → Bool) : List CellId :=
  (rule.product.filter fun id => !isBound id).mergeSort fun a b => rule.height a ≤ rule.height b

theorem mem_wanted : x ∈ rule.wanted isBound ↔ x ∈ rule.product ∧ isBound x = false := by
  rw [wanted, List.mem_mergeSort, List.mem_filter, Bool.not_eq_true']

/-- Sorting moves no elements of one height past each other. -/
theorem filter_mergeSort {α : Type} (f : α → Nat) (l : List α) (k : Nat) :
    (l.mergeSort fun a b => f a ≤ f b).filter (fun a => f a = k) = l.filter fun a => f a = k := by
  have hkept : (l.filter fun a => f a = k).Sublist (l.mergeSort fun a b => f a ≤ f b) := by
    refine List.sublist_mergeSort ?_ ?_ ?_ List.filter_sublist
    · simpa using fun a b c (hab : f a ≤ f b) (hbc : f b ≤ f c) => hab.trans hbc
    · simpa using fun a b => Nat.le_total (f a) (f b)
    · refine List.pairwise_of_forall_mem_list fun a ha b hb => ?_
      simp only [List.mem_filter, decide_eq_true_eq] at ha hb ⊢
      omega
  have hsub := hkept.filter fun a => decide (f a = k)
  rw [List.filter_filter] at hsub
  simp only [Bool.and_self] at hsub
  exact (hsub.eq_of_length ((List.mergeSort_perm l _).symm.filter _).length_eq).symm

/-- What comes first among some elements of a list comes first in it. -/
theorem idxOf_le_of_filter {l pre post : List CellId} {q : CellId → Bool}
    (h : l.filter q = pre ++ y :: post) (hx : q x = true) (hpre : x ∉ pre) :
    l.idxOf y ≤ l.idxOf x := by
  obtain ⟨front, back, rfl, rfl, hback⟩ := List.filter_eq_append_iff.mp h
  obtain ⟨mid, rest, rfl, hmid, _, _⟩ := List.filter_eq_cons_iff.mp hback
  have hfront : x ∉ front := fun hmem => hpre (List.mem_filter.mpr ⟨hmem, hx⟩)
  have hxmid : x ∉ mid := fun hmem => hmid x hmem hx
  rw [← List.append_assoc]
  have hnot : x ∉ front ++ mid := fun hmem => (List.mem_append.mp hmem).elim hfront hxmid
  calc (front ++ mid ++ y :: rest).idxOf y
      ≤ (front ++ mid).length := by
        by_cases hy : y ∈ front ++ mid
        · rw [List.idxOf_append_of_mem hy]
          exact List.idxOf_le_length
        · rw [List.idxOf_append_of_notMem hy, List.idxOf_cons_self, Nat.add_zero]
    _ ≤ (front ++ mid ++ y :: rest).idxOf x := by
        rw [List.idxOf_append_of_notMem hnot]
        exact Nat.le_add_right _ _

/-- **Sorting by dimension lets no cell wait before one that is to be made first.** -/
theorem queue_start : rule.Queue isBound [] (rule.wanted isBound) := by
  have hrising : (rule.wanted isBound).Pairwise fun a b => rule.height a ≤ rule.height b := by
    refine (List.pairwise_mergeSort ?_ ?_ _).imp fun {a b} hab => of_decide_eq_true hab
    · simpa using fun a b c (hab : rule.height a ≤ rule.height b) hbc => hab.trans hbc
    · simpa using fun a b => Nat.le_total (rule.height a) (rule.height b)
  refine ⟨fun r => mem_wanted.mp, fun pre y post hroots x hx hfree hbefore => Or.inr ?_, ?_, ?_⟩
  · by_contra hpre
    have hxroots := mem_wanted.mpr ⟨hx, hfree⟩
    rw [hroots] at hxroots hrising
    have hpost : x ∈ post := by
      rcases List.mem_cons.mp ((List.mem_append.mp hxroots).resolve_left hpre) with rfl | hpost
      · exact absurd hbefore Before.irrefl
      · exact hpost
    have hle := (List.pairwise_cons.mp (List.pairwise_append.mp hrising).2.1).1 x hpost
    -- of two cells of one dimension the first in the product waits first
    obtain ⟨hsame, hidx⟩ := hbefore.resolve_left (Nat.not_lt.mpr hle)
    have hstable := filter_mergeSort rule.height (rule.product.filter fun id => !isBound id)
      (rule.height y)
    change (rule.wanted isBound).filter _ = _ at hstable
    rw [hroots, List.filter_filter, List.filter_append, List.filter_cons, if_pos (by simp)]
      at hstable
    refine absurd (idxOf_le_of_filter hstable.symm ?_ ?_) (Nat.not_le.mpr hidx)
    · simp [hsame, hfree]
    · exact fun hmem => hpre (List.mem_of_mem_filter hmem)
  · exact fun x hx => absurd hx List.not_mem_nil
  · exact List.Pairwise.nil

/-- Planning starts from these. -/
theorem Founded.plan_eq (hf : rule.Founded) :
    rule.plan isBound = rule.planFrom isBound ∅ [] ((rule.wanted isBound).map .enter) := by
  have hall : rule.unboundProduct isBound = .ok
      ((rule.product.filter fun id => !isBound id).map fun id => (rule.height id, id)) := by
    refine Outcome.mapM_eq_ok.mpr (List.forall₂_map_right_iff.mpr (List.forall₂_same.mpr ?_))
    intro id hid
    obtain ⟨t, ht⟩ := hf.product id (List.mem_of_mem_filter hid)
    rw [ht, height_eq ht]
  unfold plan
  rw [hall]
  show rule.planFrom isBound ∅ [] _ = _
  rw [← List.map_mergeSort (r := fun a b => decide (rule.height a ≤ rule.height b))
    fun a _ b _ => rfl, List.map_map]
  rfl

/-- **There is a plan.** The walk that remembers only what it has written down ends with it. It can
be made cell by cell, holds exactly the cells to be made, and the product cells in their order. -/
theorem Founded.exists_plan (hf : rule.Founded) (isBound : CellId → Bool) :
    ∃ plan, rule.plan isBound = .ok plan ∧
      rule.Runs isBound ([], (rule.wanted isBound).map .enter) (plan.reverse, []) ∧
      rule.Ordered isBound plan.reverse ∧ (∀ x, x ∈ plan ↔ rule.Needs isBound x) ∧
      plan.Pairwise fun x y => x ∈ rule.product → y ∈ rule.product → rule.Before x y := by
  have hstart : rule.Queue isBound [] (rule.wanted isBound) := queue_start
  obtain ⟨entered, made, hvisit, hqueue, hall⟩ := hstart.exists_visited hf .nil
    fun x => iff_of_false Std.TreeSet.not_mem_emptyc List.not_mem_nil
  have hplan := hvisit.plan []
  have hruns := hvisit.runs []
  have hordered := hvisit.ordered
  have hsorted := hqueue.sorted
  rw [List.append_nil, planFrom] at hplan
  simp only [List.append_nil] at hplan hruns hordered hsorted
  refine ⟨made.reverse, hf.plan_eq.trans hplan, ?_, ?_, fun x => ?_, ?_⟩
  · rw [List.reverse_reverse]
    exact hruns
  · rw [List.reverse_reverse]
    exact hordered
  · rw [List.mem_reverse]
    refine ⟨hvisit.needed x, fun h => ?_⟩
    induction h with
    | @product id hid hfree => simpa using hall id (mem_wanted.mpr ⟨hid, hfree⟩)
    | @face id b t _ ht hb hfree ih =>
      obtain ⟨later, earlier, rfl⟩ := List.append_of_mem ih
      obtain ⟨t', ht', hfaces⟩ := hordered.faces
      cases ht.symm.trans ht'
      have hmem := (hfaces b hb).resolve_left (by simp [hfree])
      exact List.mem_append_right _ (List.mem_cons_of_mem _ hmem)
  · exact List.pairwise_reverse.mpr hsorted

end Rule

end CellComplex
